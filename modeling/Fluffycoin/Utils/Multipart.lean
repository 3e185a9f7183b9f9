import Mathlib.Data.List.Induction

/-!
# Messages sent frame by frame

A message of several frames is handed to a socket one frame at a time, each with a flag that says
whether more of them follow. A frame may be refused, and is then part of nothing. `Outbox` is what
has been handed over: the messages that are complete and the frames of one that has been begun.

A sender that gets no further cannot take back the frames before. It can fill the message up with
blank ones. That makes a message of the right length exactly if none of them is refused
(`send_eq_iff`); whatever else happens, the next message would begin in the middle of this one or
this one would be too short.
-/

namespace Multipart

variable {φ : Type}

structure Outbox (φ : Type) where
  messages : List (List φ) := []
  begun : List φ := []
  deriving DecidableEq, Repr

namespace Outbox

/-- A frame is taken. -/
def push (o : Outbox φ) (frame : φ) (more : Bool) : Outbox φ :=
  if more then { o with begun := o.begun ++ [frame] }
  else { messages := o.messages ++ [o.begun ++ [frame]] }

/-- The first `n` of the frames of a message are taken. -/
def pushFirst : Nat → List φ → Outbox φ → Outbox φ
  | 0, _, o => o
  | _ + 1, [], o => o
  | n + 1, frame :: frames, o => pushFirst n frames (o.push frame (!frames.isEmpty))

/-- The message is completed by `n` blank frames. The one with `k` more to follow is taken if
`takes k`. -/
def fill (blank : φ) (takes : Nat → Bool) : Nat → Outbox φ → Outbox φ
  | 0, o => o
  | k + 1, o => fill blank takes k (if takes k then o.push blank (k != 0) else o)

/-- The first `n` of the frames are taken, and blank ones in the place of the others. A message that
has not been begun is left. -/
def send (frames : List φ) (n : Nat) (blank : φ) (takes : Nat → Bool) (o : Outbox φ) : Outbox φ :=
  if n = 0 then o else fill blank takes (frames.length - n) (pushFirst n frames o)

variable {o : Outbox φ} {frames : List φ} {n : Nat} {blank : φ} {takes : Nat → Bool}

@[simp] theorem push_true (o : Outbox φ) (frame : φ) :
    o.push frame true = { o with begun := o.begun ++ [frame] } := rfl

@[simp] theorem push_false (o : Outbox φ) (frame : φ) :
    o.push frame false = { messages := o.messages ++ [o.begun ++ [frame]] } := rfl

theorem pushFirst_of_lt (h : n < frames.length) :
    pushFirst n frames o = { o with begun := o.begun ++ frames.take n } := by
  induction n generalizing frames o with
  | zero => rw [pushFirst, List.take_zero, List.append_nil]
  | succ n ih =>
    obtain _ | ⟨frame, _ | ⟨next, frames⟩⟩ := frames
    · cases h
    · exact absurd h (Nat.not_lt_of_le (Nat.le_add_left _ _))
    · rw [pushFirst, ih (Nat.lt_of_succ_lt_succ h)]
      simp

/-- A message that is taken whole. -/
theorem pushFirst_length (h : frames ≠ []) :
    pushFirst frames.length frames o = { messages := o.messages ++ [o.begun ++ frames] } := by
  induction frames generalizing o with
  | nil => exact absurd rfl h
  | cons frame frames ih =>
    cases frames with
    | nil => rfl
    | cons next frames =>
      rw [List.length_cons, pushFirst, ih (List.cons_ne_nil _ _)]
      simp

/-! ## Blank frames -/

/-- All frames that have been taken. -/
def taken (o : Outbox φ) : List φ := o.messages.flatten ++ o.begun

theorem taken_push (o : Outbox φ) (frame : φ) (more : Bool) :
    (o.push frame more).taken = o.taken ++ [frame] := by
  cases more <;> simp [taken]

theorem length_taken_fill_le (blank : φ) (takes : Nat → Bool) (n : Nat) (o : Outbox φ) :
    (fill blank takes n o).taken.length ≤ o.taken.length + n := by
  induction n generalizing o with
  | zero => exact Nat.le_refl _
  | succ k ih =>
    have hrest := ih (if takes k then o.push blank (k != 0) else o)
    have hfirst : (if takes k then o.push blank (k != 0) else o).taken.length ≤
        o.taken.length + 1 := by
      split
      · exact Nat.le_of_eq (by rw [taken_push, List.length_append, List.length_singleton])
      · exact Nat.le_succ _
    rw [fill]
    omega

/-- Without a refusal as many frames more have been taken, and only then. -/
theorem length_taken_fill_iff (blank : φ) (takes : Nat → Bool) (n : Nat) (o : Outbox φ) :
    (fill blank takes n o).taken.length = o.taken.length + n ↔ ∀ k < n, takes k = true := by
  induction n generalizing o with
  | zero => exact iff_of_true rfl fun k hk => absurd hk (Nat.not_lt_zero k)
  | succ k ih =>
    rw [fill, Nat.forall_lt_succ_right]
    by_cases htakes : takes k = true
    · rw [if_pos htakes, ← ih (o.push blank (k != 0)), taken_push, List.length_append,
        List.length_singleton]
      constructor
      · intro h
        exact ⟨by omega, htakes⟩
      · rintro ⟨h, -⟩
        omega
    · have hle := length_taken_fill_le blank takes k o
      rw [if_neg htakes]
      exact iff_of_false (by omega) fun h => htakes h.2

theorem fill_of_takes (hn : 0 < n) (h : ∀ k < n, takes k = true) :
    fill blank takes n o = { messages := o.messages ++ [o.begun ++ List.replicate n blank] } := by
  induction n generalizing o with
  | zero => exact absurd hn (Nat.lt_irrefl 0)
  | succ k ih =>
    obtain ⟨hrest, hfirst⟩ := Nat.forall_lt_succ_right.mp h
    rw [fill, if_pos hfirst]
    cases k with
    | zero => rfl
    | succ k =>
      rw [ih (Nat.succ_pos k) hrest]
      simp [List.replicate_succ]

theorem fill_of_refuses (h : ∀ k < n, takes k = false) : fill blank takes n o = o := by
  induction n generalizing o with
  | zero => rfl
  | succ k ih =>
    obtain ⟨hrest, hfirst⟩ := Nat.forall_lt_succ_right.mp h
    rw [fill, hfirst, if_neg Bool.false_ne_true, ih hrest]

/-! ## A message -/

/-- The first `n` of the frames, and blank ones in the place of the others. -/
def filled (frames : List φ) (n : Nat) (blank : φ) : List φ :=
  frames.take n ++ List.replicate (frames.length - n) blank

theorem length_filled (h : n ≤ frames.length) : (filled frames n blank).length = frames.length := by
  rw [filled, List.length_append, List.length_take, List.length_replicate]
  omega

theorem filled_length (frames : List φ) (blank : φ) :
    filled frames frames.length blank = frames := by
  simp [filled]

/-- **When a message is completed**: exactly if no blank frame is refused. -/
theorem send_eq_iff (hn : 0 < n) (hle : n ≤ frames.length) :
    send frames n blank takes o =
        { messages := o.messages ++ [o.begun ++ filled frames n blank] } ↔
      ∀ k < frames.length - n, takes k = true := by
  have hsend : send frames n blank takes o =
      fill blank takes (frames.length - n) (pushFirst n frames o) := if_neg (Nat.ne_of_gt hn)
  rcases Nat.lt_or_eq_of_le hle with hlt | rfl
  · rw [hsend, pushFirst_of_lt hlt]
    constructor
    · intro h
      rw [← length_taken_fill_iff blank takes _ { o with begun := o.begun ++ frames.take n }, h]
      simp [taken, filled]
      omega
    · intro h
      rw [fill_of_takes (Nat.sub_pos_of_lt hlt) h]
      simp [filled]
  · rw [hsend, pushFirst_length (List.ne_nil_of_length_pos hn), Nat.sub_self, filled_length]
    exact iff_of_true rfl fun k hk => absurd hk (Nat.not_lt_zero k)

/-- A message that is left where it stopped. -/
theorem send_of_refuses (hlt : n < frames.length) (h : ∀ k, takes k = false) :
    send frames n blank takes o = { o with begun := o.begun ++ frames.take n } := by
  unfold send
  split
  · rename_i hn
    rw [hn, List.take_zero, List.append_nil]
  · rw [fill_of_refuses fun k _ => h k, pushFirst_of_lt hlt]

theorem send_length (h : frames ≠ []) :
    send frames frames.length blank takes o =
      { messages := o.messages ++ [o.begun ++ frames] } := by
  have hpos : 0 < frames.length := List.length_pos_iff.mpr h
  have hsend : send frames frames.length blank takes o =
      { messages := o.messages ++ [o.begun ++ filled frames frames.length blank] } :=
    (send_eq_iff hpos (Nat.le_refl _)).mpr fun k hk => absurd hk (by omega)
  rw [hsend, filled_length]

theorem send_zero : send frames 0 blank takes o = o := rfl

end Outbox

/-! ## Messages one after the other -/

/-- A message that is sent: its frames, how many of them are taken, and which blank ones. -/
structure Send (φ : Type) where
  frames : List φ
  n : Nat
  n_le : n ≤ frames.length
  takes : Nat → Bool

namespace Send

variable (blank : φ)

/-- What is to come of it: nothing, or a message of its length. -/
def message (m : Send φ) : Option (List φ) :=
  if m.n = 0 then none else some (Outbox.filled m.frames m.n blank)

/-- Once begun, it is completed without a refusal. -/
def Filled (m : Send φ) : Prop := 0 < m.n → ∀ k < m.frames.length - m.n, m.takes k = true

def step (o : Outbox φ) (m : Send φ) : Outbox φ := o.send m.frames m.n blank m.takes

def sendAll (ms : List (Send φ)) : Outbox φ := ms.foldl (step blank) {}

theorem step_eq_iff (m : Send φ) (messages : List (List φ)) :
    step blank { messages } m = { messages := messages ++ (m.message blank).toList } ↔
      m.Filled := by
  rcases Nat.eq_zero_or_pos m.n with hn | hn
  · rw [step, message, hn, if_pos rfl, Outbox.send_zero, Option.toList_none, List.append_nil]
    exact iff_of_true rfl fun h => absurd h (Nat.ne_of_gt · hn)
  · rw [step, message, if_neg (Nat.ne_of_gt hn), Option.toList_some, Filled]
    exact (Outbox.send_eq_iff hn m.n_le).trans ⟨fun h _ => h, fun h => h hn⟩

/-- **When messages stay apart**: exactly if each one that is begun is completed. -/
theorem sendAll_apart_iff (ms : List (Send φ)) :
    (∀ l, l <+: ms → sendAll blank l = { messages := l.filterMap (message blank) }) ↔
      ∀ m ∈ ms, m.Filled := by
  induction ms using List.reverseRecOn with
  | nil =>
    refine iff_of_true (fun l hl => ?_) (List.forall_mem_nil _)
    rw [List.prefix_nil.mp hl]
    rfl
  | append_singleton ms m ih =>
    have hlast : sendAll blank ms = { messages := ms.filterMap (message blank) } →
        (sendAll blank (ms ++ [m]) = { messages := (ms ++ [m]).filterMap (message blank) } ↔
          m.Filled) := by
      intro h
      have hm : [m].filterMap (message blank) = (m.message blank).toList := by
        rw [List.filterMap_cons]
        cases m.message blank <;> rfl
      rw [← step_eq_iff blank m (ms.filterMap (message blank)), ← h, sendAll,
        List.foldl_append, List.filterMap_append, hm]
      exact Iff.rfl
    simp only [List.prefix_concat_iff, forall_eq_or_imp, List.forall_mem_append,
      List.forall_mem_singleton, ← ih]
    rw [and_comm]
    exact and_congr_right fun h => hlast (h ms (List.prefix_refl ms))

end Send

end Multipart
