import Mathlib.Data.List.Basic

/-!
# One request at a time

A party that sends a request and then waits for the reply before it sends the next one, seen from
outside: what it has sent and got, and what is under way in between. Requests `α` are answered at
some time (`answer`, or with nothing, and then no reply is under way), replies `β` arrive at some
time, or are lost (`lose`). The party may leave for good (`close`); what is then under way goes on,
and replies are dropped.

That is enough for the replies to belong to the requests (`Inv.answers`): whoever answers, and how
long everything takes, the reply number `k` was given to the request number `k`. A party that stays
has lost at most one reply, and waits for it (`Inv.got`, `Inv.one`).
-/

namespace Lockstep

variable {α β : Type}

/-- Whose turn it is. -/
inductive Turn where
  | ask
  | await
  | closed
  deriving DecidableEq, Repr

structure State (α β : Type) where
  turn : Turn := .ask
  sent : List α := []
  got : List β := []
  unanswered : List α := []
  undelivered : List β := []
  answered : List (α × Option β) := []
  lost : List β := []

inductive Step : State α β → State α β → Prop
  | stay (s : State α β) : Step s s
  /-- A request is sent; the party waits, or leaves at once. -/
  | send (s : State α β) (a : α) (turn : Turn) (h : s.turn = .ask) (hturn : turn ≠ .ask) :
    Step s { s with turn, sent := s.sent ++ [a], unanswered := s.unanswered ++ [a] }
  /-- The party leaves, or has left, and replies may be dropped. -/
  | close (s : State α β) (undelivered : List β) (h : undelivered.Sublist s.undelivered) :
    Step s { s with turn := .closed, undelivered }
  /-- A request is answered. -/
  | answer (s : State α β) (before after : List α) (a : α) (b : Option β)
      (h : s.unanswered = before ++ a :: after) :
    Step s { s with
      unanswered := before ++ after
      answered := s.answered ++ [(a, b)]
      undelivered := s.undelivered ++ b.toList }
  /-- A reply is lost. -/
  | lose (s : State α β) (before after : List β) (b : β)
      (h : s.undelivered = before ++ b :: after) :
    Step s { s with undelivered := before ++ after, lost := s.lost ++ [b] }
  /-- The party gets its reply. -/
  | get (s : State α β) (b : β) (rest : List β) (h : s.turn = .await)
      (hb : s.undelivered = b :: rest) :
    Step s { s with turn := .ask, got := s.got ++ [b], undelivered := rest }

structure Inv (s : State α β) : Prop where
  /-- Requests are answered in the order in which they were sent. -/
  sent : s.sent = s.answered.map Prod.fst ++ s.unanswered
  /-- Nothing else is missing while the party stays. -/
  got : s.turn ≠ .closed → s.got ++ (s.undelivered ++ s.lost) = s.answered.filterMap Prod.snd
  got_first : s.got <+: s.answered.filterMap Prod.snd
  one : s.unanswered.length + (s.undelivered ++ s.lost).length ≤ 1
  ask : s.turn = .ask → s.unanswered = [] ∧ s.undelivered ++ s.lost = []
  /-- Only the last request can have been answered with nothing, and then nothing follows. -/
  replied : ∀ e ∈ s.answered.dropLast, e.2.isSome
  replied_last : s.unanswered ≠ [] ∨ s.undelivered ≠ [] ∨ s.turn = .ask →
    ∀ e ∈ s.answered, e.2.isSome

theorem inv_initial : Inv ({} : State α β) :=
  ⟨rfl, fun _ => rfl, List.prefix_refl _, Nat.zero_le 1, fun _ => ⟨rfl, rfl⟩,
    List.forall_mem_nil _, fun _ => List.forall_mem_nil _⟩

variable {s s' : State α β}

theorem Inv.send (h : Inv s) (hask : s.turn = .ask) (a : α) {turn : Turn} (hturn : turn ≠ .ask) :
    Inv { s with turn, sent := s.sent ++ [a], unanswered := s.unanswered ++ [a] } := by
  obtain ⟨hunanswered, hunder⟩ := h.ask hask
  have hgot := h.got (by rw [hask]; exact Turn.noConfusion)
  refine ⟨?_, fun _ => hgot, h.got_first, ?_, fun h => absurd h hturn, h.replied, fun _ => ?_⟩
  · simp only
    rw [h.sent, List.append_assoc]
  · simp [hunanswered, hunder]
  · exact h.replied_last (.inr (.inr hask))

theorem Inv.close (h : Inv s) {undelivered : List β} (hsub : undelivered.Sublist s.undelivered) :
    Inv { s with turn := .closed, undelivered } := by
  refine ⟨h.sent, fun hne => absurd rfl hne, h.got_first, ?_, nofun, h.replied, ?_⟩
  · have hlength := hsub.length_le
    have hone := h.one
    simp only [List.length_append] at hone ⊢
    omega
  · rintro (hne | hne | hne)
    · exact h.replied_last (.inl hne)
    · refine h.replied_last (.inr (.inl fun hnil => hne ?_))
      exact List.sublist_nil.mp (hnil ▸ hsub)
    · cases hne

theorem Inv.answer (h : Inv s) {before after : List α} {a : α} (b : Option β)
    (heq : s.unanswered = before ++ a :: after) :
    Inv { s with
      unanswered := before ++ after
      answered := s.answered ++ [(a, b)]
      undelivered := s.undelivered ++ b.toList } := by
  -- it was the only thing under way
  have hone := h.one
  rw [heq, List.length_append, List.length_append, List.length_cons] at hone
  obtain rfl : before = [] := List.length_eq_zero_iff.mp (by omega)
  obtain rfl : after = [] := List.length_eq_zero_iff.mp (by omega)
  have hundelivered : s.undelivered = [] := List.length_eq_zero_iff.mp (by omega)
  have hlost : s.lost = [] := List.length_eq_zero_iff.mp (by omega)
  have hturn : s.turn ≠ .ask := fun hask => by simp [(h.ask hask).1] at heq
  have hall : ∀ e ∈ s.answered, e.2.isSome := h.replied_last (.inl (by simp [heq]))
  refine ⟨?_, fun hopen => ?_, ?_, ?_, fun hask => absurd hask hturn, ?_, ?_⟩
  · rw [h.sent, heq]
    simp
  · have hgot := h.got hopen
    simp only [hundelivered, hlost, List.append_nil] at hgot
    cases b <;> simp [hundelivered, hlost, hgot]
  · simp only [List.filterMap_append]
    exact h.got_first.trans (List.prefix_append _ _)
  · rw [hundelivered, hlost]
    cases b <;> simp
  · simp only [List.dropLast_concat]
    exact hall
  · rintro (hne | hne | hask)
    · exact absurd rfl hne
    · rw [hundelivered] at hne
      cases b with
      | none => exact absurd rfl hne
      | some b =>
        intro e he
        rcases List.mem_append.mp he with he | he
        · exact hall e he
        · rw [List.mem_singleton.mp he]
          rfl
    · exact absurd hask hturn

theorem Inv.lose (h : Inv s) {before after : List β} {b : β}
    (heq : s.undelivered = before ++ b :: after) :
    Inv { s with undelivered := before ++ after, lost := s.lost ++ [b] } := by
  -- it was the only thing under way
  have hone := h.one
  rw [heq, List.length_append, List.length_append, List.length_cons] at hone
  obtain rfl : before = [] := List.length_eq_zero_iff.mp (by omega)
  obtain rfl : after = [] := List.length_eq_zero_iff.mp (by omega)
  have hunanswered : s.unanswered = [] := List.length_eq_zero_iff.mp (by omega)
  have hlost : s.lost = [] := List.length_eq_zero_iff.mp (by omega)
  have hturn : s.turn ≠ .ask := fun hask => by simpa [heq] using (h.ask hask).2
  refine ⟨h.sent, fun hopen => ?_, h.got_first, ?_, fun hask => absurd hask hturn, h.replied, ?_⟩
  · rw [← h.got hopen, heq, hlost]
    rfl
  · simp [hunanswered, hlost]
  · rintro (hne | hne | hask)
    · exact h.replied_last (.inl hne)
    · exact absurd rfl hne
    · exact absurd hask hturn

theorem Inv.get (h : Inv s) (hawait : s.turn = .await) {b : β} {rest : List β}
    (hb : s.undelivered = b :: rest) :
    Inv { s with turn := .ask, got := s.got ++ [b], undelivered := rest } := by
  have hone := h.one
  rw [hb, List.length_append, List.length_cons] at hone
  have hunanswered : s.unanswered = [] := List.length_eq_zero_iff.mp (by omega)
  obtain rfl : rest = [] := List.length_eq_zero_iff.mp (by omega)
  have hlost : s.lost = [] := List.length_eq_zero_iff.mp (by omega)
  have hgot := h.got (by rw [hawait]; exact Turn.noConfusion)
  rw [hb, hlost, List.append_nil] at hgot
  refine ⟨h.sent, fun _ => ?_, hgot ▸ List.prefix_refl _, ?_, fun _ => ⟨hunanswered, hlost⟩,
    h.replied, fun _ => ?_⟩
  · simp only [hlost, List.append_nil]
    exact hgot
  · simp [hunanswered, hlost]
  · exact h.replied_last (.inr (.inl (by simp [hb])))

/-- **A step keeps the invariant.** -/
theorem Step.inv (hstep : Step s s') (h : Inv s) : Inv s' := by
  cases hstep with
  | stay => exact h
  | send a turn hask hturn => exact h.send hask a hturn
  | close undelivered hsub => exact h.close hsub
  | answer before after a b heq => exact h.answer b heq
  | lose before after b heq => exact h.lose heq
  | get b rest hawait hb => exact h.get hawait hb

/-- Where only the last entry can be empty, what is in the entries stands where they stand. -/
theorem getElem?_of_filterMap {l : List (α × Option β)} (h : ∀ e ∈ l.dropLast, e.2.isSome)
    {k : Nat} {b : β} (hk : (l.filterMap Prod.snd)[k]? = some b) :
    ∃ a, l[k]? = some (a, some b) := by
  induction l generalizing k with
  | nil => cases hk
  | cons e l ih =>
    obtain ⟨a, _ | b'⟩ := e
    · -- an empty entry is the last one
      cases l with
      | nil => cases hk
      | cons e l => exact absurd (h (a, none) (List.mem_cons_self ..)) Bool.false_ne_true
    · cases k with
      | zero =>
        obtain rfl : b' = b := by simpa using hk
        exact ⟨a, rfl⟩
      | succ k =>
        refine ih (fun e he => ?_) (by simpa using hk)
        cases l with
        | nil => cases he
        | cons e' l => exact h e (List.mem_cons_of_mem _ he)

/-- **A reply belongs to the request of the same number.** -/
theorem Inv.answers (h : Inv s) {k : Nat} {b : β} (hk : s.got[k]? = some b) :
    ∃ a, s.sent[k]? = some a ∧ s.answered[k]? = some (a, some b) := by
  obtain ⟨rest, hrest⟩ := h.got_first
  have hmem : (s.answered.filterMap Prod.snd)[k]? = some b := by
    rw [← hrest, List.getElem?_append_left (List.getElem?_eq_some_iff.mp hk).1, hk]
  obtain ⟨a, ha⟩ := getElem?_of_filterMap h.replied hmem
  refine ⟨a, ?_, ha⟩
  have hlt : k < (s.answered.map Prod.fst).length := by
    rw [List.length_map]
    exact (List.getElem?_eq_some_iff.mp ha).1
  rw [h.sent, List.getElem?_append_left hlt, List.getElem?_map, ha]
  rfl

end Lockstep
