import Fluffycoin.Utils.Details
import Fluffycoin.Utils.Trace

/-!
# `async::UncontrolledSocket`

Model of `src/async/UncontrolledSocket.cpp` over `Socket::read` (`src/async/Socket.cpp:183-222`): it
waits for a descriptor that someone else reads from, and calls back whoever asked. `κ` is the type
of the callbacks.

* `wait` is the outstanding `async_wait` of the descriptor, with the copy of the details `Socket`
  keeps for it. `complete` is what happens when the descriptor gets ready; the completions with an
  error are left out, `Socket` calls nobody then.
* `read` calls the callback at once when the descriptor got ready while nobody was asking, or when
  the socket is not open, and parks it otherwise. The call is the last thing it does, so it is
  handed to the caller: `some details` is the call the caller has to make.
* `details += std::move(pendingDetails)` is the `operator+=` of `AnyMap`, the base of `Details`, and
  leaves the error status alone.

The mutex and a socket whose implementation has been moved away are left out. The two entry points
change the state under the mutex and call back after it is released, so a read from inside a
callback is one more event of a run.

`loses_no_readiness`: in a run of readings and error-free completions nothing is missed, provided
that nobody reads while a callback is parked.
-/

namespace Fluffycoin.Async

/-- `UncontrolledSocketImpl`. -/
structure UncontrolledSocket (κ : Type) where
  isOpen : Bool := false
  wantRead : Bool := false
  queued : Bool := false
  callback : Option κ := none
  pendingDetails : Details := {}
  wait : Option Details := none

namespace UncontrolledSocket

variable {κ : Type}

/-- `UncontrolledSocket(asio, iFD)`. -/
def ofFd : UncontrolledSocket κ := { isOpen := true, wantRead := true }

/-- `queueRead` up to the completion: `Socket::read` copies the details, or reports in them that it
is not open. -/
def queueRead (s : UncontrolledSocket κ) : UncontrolledSocket κ :=
  let s := { s with queued := true }
  if s.isOpen then { s with wait := some s.pendingDetails }
  else
    { s with pendingDetails :=
        s.pendingDetails.setError .notConnected "socket_read" "Not connected." }

@[simp] theorem callback_queueRead (s : UncontrolledSocket κ) :
    s.queueRead.callback = s.callback := by
  simp only [queueRead]
  split
  · rfl
  · rfl

/-- The completion of `queueRead`: the callback to call and its details. -/
def complete (s : UncontrolledSocket κ) : Option (κ × Details) × UncontrolledSocket κ :=
  match s.wait with
  | none => (none, s)
  | some details =>
    let s := { s with wait := none, queued := false }
    let s := if details.isOk && s.isOpen then s.queueRead else s
    match s.callback with
    | some localCB => (some (localCB, details), { s with callback := none, wantRead := false })
    | none => (none, { s with wantRead := true, pendingDetails := details })

/-- `UncontrolledSocket::read` (`UncontrolledSocket.cpp:127-174`). -/
def read (s : UncontrolledSocket κ) (details : Details) (callback : κ) :
    Option Details × UncontrolledSocket κ :=
  if s.queued && s.wantRead then (some details, { s with wantRead := false })
  else if !s.queued && s.wantRead && s.isOpen then
    (some details, { s with wantRead := false }.queueRead)
  else if !s.isOpen then
    (some (details.setError .connectionError "read" "Connection is not open."), s)
  else (none, { s with pendingDetails := details, callback := some callback })

/-- How often `read` can still lead to a call of its own: not after an error, and after being called
back at once only in the end. -/
def rank (s : UncontrolledSocket κ) (details : Details) : Nat :=
  if details.isOk then if s.wantRead then 2 else 1 else 0

theorem rank_eq {s : UncontrolledSocket κ} {details details' : Details} (h : details.isOk = true)
    (h' : details'.isOk = true) : s.rank details = s.rank details' := by
  unfold rank
  rw [h, h']

/-- **A call made at once is the last but one, or the last.** -/
theorem rank_read {s : UncontrolledSocket κ} {details details' : Details} {callback : κ}
    {s' : UncontrolledSocket κ} (hok : details.isOk = true)
    (h : s.read details callback = (some details', s')) : s'.rank details' < s.rank details := by
  unfold read at h
  split at h
  · rename_i hwant
    obtain ⟨rfl, rfl⟩ : details = details' ∧ { s with wantRead := false } = s' := by
      simpa using h
    have hw : s.wantRead = true := (Bool.and_eq_true_iff.mp hwant).2
    simp [rank, hok, hw]
  · split at h
    · rename_i hwant
      obtain ⟨rfl, rfl⟩ : details = details' ∧ { s with wantRead := false }.queueRead = s' := by
        simpa using h
      simp only [Bool.and_eq_true] at hwant
      simp [rank, hok, hwant.1.2, queueRead, hwant.2]
    · split at h
      · obtain ⟨rfl, rfl⟩ : details.setError .connectionError "read" "Connection is not open." =
            details' ∧ s = s' := by
          simpa using h
        have hnot : (details.setError .connectionError "read" "Connection is not open.").isOk =
            false := rfl
        simp only [rank, hnot, hok, Bool.false_eq_true, if_false, if_true]
        split
        · exact Nat.zero_lt_two
        · exact Nat.zero_lt_one
      · cases h

/-- A callback is parked only where nothing has been missed. -/
theorem read_eq_none {s s' : UncontrolledSocket κ} {details : Details} {callback : κ}
    (h : s.read details callback = (none, s')) :
    s.wantRead = false ∧ s'.wantRead = false ∧ s'.callback = some callback := by
  unfold read at h
  split at h
  · cases h
  · rename_i hqueued
    split at h
    · cases h
    · rename_i hnot
      split at h
      · cases h
      · rename_i hopen
        obtain ⟨-, rfl⟩ := Prod.mk.inj h
        have hwant : s.wantRead = false := by
          simp only [Bool.and_eq_true, Bool.not_eq_true', not_and, Bool.not_eq_true] at hqueued hnot
          simp only [Bool.not_eq_true', Bool.not_eq_false] at hopen
          by_contra hwant
          rw [Bool.not_eq_false] at hwant
          cases hq : s.queued with
          | true => exact absurd hwant (Bool.eq_false_iff.mp (hqueued hq))
          | false => exact absurd hopen (Bool.eq_false_iff.mp (hnot ⟨hq, hwant⟩))
        exact ⟨hwant, hwant, rfl⟩

/-- A call made at once parks nothing. -/
theorem read_eq_some {s s' : UncontrolledSocket κ} {details details' : Details} {callback : κ}
    (h : s.read details callback = (some details', s')) : s'.callback = s.callback := by
  unfold read at h
  split at h
  · obtain ⟨-, rfl⟩ := Prod.mk.inj h
    rfl
  · split at h
    · obtain ⟨-, rfl⟩ := Prod.mk.inj h
      exact callback_queueRead _
    · split at h
      · obtain ⟨-, rfl⟩ := Prod.mk.inj h
        rfl
      · cases h

/-- A completion calls the parked callback, or remembers that it came. -/
theorem complete_cases {s : UncontrolledSocket κ} (hwait : s.wait.isSome = true) :
    s.complete.2.callback = none ∧ (s.complete.1.isSome = true ∨ s.complete.2.wantRead = true) := by
  obtain ⟨details, hdetails⟩ := Option.isSome_iff_exists.mp hwait
  unfold complete
  rw [hdetails]
  dsimp only
  split
  · exact ⟨rfl, .inl rfl⟩
  · rename_i hnone
    exact ⟨hnone, .inr rfl⟩

/-! ## An open socket -/

section Open

variable {s : UncontrolledSocket κ} {details : Details} {callback : κ}

theorem read_of_wantRead (hopen : s.isOpen = true) (hwant : s.wantRead = true) :
    s.read details callback =
      (some details, if s.queued then { s with wantRead := false }
        else { s with wantRead := false }.queueRead) := by
  cases hqueued : s.queued with
  | true => simp [read, hwant, hqueued]
  | false => simp [read, hwant, hqueued, hopen]

theorem read_of_not_wantRead (hopen : s.isOpen = true) (hwant : s.wantRead = false) :
    s.read details callback =
      (none, { s with pendingDetails := details, callback := some callback }) := by
  simp [read, hwant, hopen]

/-- A completion without an error calls the parked callback, and the socket waits again. -/
theorem complete_of_parked (hopen : s.isOpen = true) (hwait : s.wait = some details)
    (hok : details.isOk = true) (hcallback : s.callback = some callback) :
    s.complete = (some (callback, details), { s with
      queued := true, wait := some s.pendingDetails, callback := none, wantRead := false }) := by
  simp [complete, hwait, hok, hopen, queueRead, hcallback]

/-- Without a parked callback it is remembered. -/
theorem complete_of_free (hopen : s.isOpen = true) (hwait : s.wait = some details)
    (hok : details.isOk = true) (hcallback : s.callback = none) :
    s.complete = (none, { s with
      queued := true, wait := some s.pendingDetails, wantRead := true
      pendingDetails := details }) := by
  simp [complete, hwait, hok, hopen, queueRead, hcallback]

end Open

/-! ## A socket somebody waits on -/

/-- Open, waiting for the descriptor, and with nothing to report. -/
structure Idle (s : UncontrolledSocket κ) : Prop where
  isOpen : s.isOpen = true
  wantRead : s.wantRead = false
  queued : s.queued = true
  pendingDetails : s.pendingDetails.isOk = true
  wait : ∃ details, s.wait = some details ∧ details.isOk = true

/-- A callback given to an idle socket is parked. -/
theorem Idle.read {s : UncontrolledSocket κ} (h : s.Idle) (details : Details) (callback : κ) :
    s.read details callback =
      (none, { s with pendingDetails := details, callback := some callback }) :=
  read_of_not_wantRead h.isOpen h.wantRead

theorem Idle.park {s : UncontrolledSocket κ} (h : s.Idle) {details : Details}
    (hok : details.isOk = true) (callback : κ) :
    Idle { s with pendingDetails := details, callback := some callback } :=
  ⟨h.isOpen, h.wantRead, h.queued, hok, h.wait⟩

/-- When the descriptor gets ready a parked callback is called, and the socket waits again. -/
theorem Idle.complete {s : UncontrolledSocket κ} (h : s.Idle) {callback : κ}
    (hcallback : s.callback = some callback) :
    ∃ details s', s.complete = (some (callback, details), s') ∧ details.isOk = true ∧ s'.Idle ∧
      s'.callback = none := by
  obtain ⟨details, hwait, hok⟩ := h.wait
  exact ⟨details, _, complete_of_parked h.isOpen hwait hok hcallback, hok,
    ⟨h.isOpen, rfl, rfl, h.pendingDetails, _, rfl, h.pendingDetails⟩, rfl⟩

/-- Without a parked callback nobody is called. -/
theorem complete_of_none {s : UncontrolledSocket κ} (h : s.callback = none) :
    s.complete.1 = none ∧ s.complete.2.callback = none := by
  unfold complete
  cases s.wait with
  | none => exact ⟨rfl, h⟩
  | some details =>
    have hqueue : (if details.isOk && s.isOpen then
        { s with wait := none, queued := false : UncontrolledSocket κ }.queueRead
        else { s with wait := none, queued := false }).callback = none := by
      split
      · rw [callback_queueRead]
        exact h
      · exact h
    simp only
    rw [hqueue]
    exact ⟨rfl, rfl⟩

/-! ## Runs -/

/-- What happens to a socket that stays open. -/
inductive Event (κ : Type) where
  | read (details : Details) (callback : κ)
  | complete

/-- A socket and the callbacks that have been called, in order. -/
structure Watched (κ : Type) where
  socket : UncontrolledSocket κ := ofFd
  called : List κ := []

/-- The socket after an event. -/
def Watched.step (w : Watched κ) : Event κ → Watched κ
  | .read details callback =>
    let (call, socket) := w.socket.read details callback
    ⟨socket, if call.isSome then w.called ++ [callback] else w.called⟩
  | .complete =>
    let (call, socket) := w.socket.complete
    ⟨socket, w.called ++ (call.map Prod.fst).toList⟩

/-- The socket after events. -/
def Watched.run : Watched κ → List (Event κ) → Watched κ := Trace.final Watched.step id

/-- Nobody reads while a callback is parked, and completions are free of errors. -/
def Allowed (w : Watched κ) : Event κ → Prop
  | .read .. => w.socket.callback = none
  | .complete => ∃ details, w.socket.wait = some details ∧ details.isOk = true

/-- The callbacks given to `read`, in order. -/
def reads : List (Event κ) → List κ :=
  List.filterMap fun
    | .read _ callback => some callback
    | .complete => none

/-- The state after the events `l`. Of the callbacks given to `read` all have been called once, in
order, but the last, which may be parked. -/
structure Kept (l : List (Event κ)) (w : Watched κ) : Prop where
  outstanding : reads l ≠ [] → w.socket.wait.isSome = true
  parked : w.socket.callback.isSome = true → w.socket.wantRead = false
  calls : w.called ++ w.socket.callback.toList = reads l

/-- What an event does: a completion calls the parked callback or is remembered, and one that is
remembered stays so until the next reading, which is called at once. -/
def Answered (w : Watched κ) : Event κ → Watched κ → Prop
  | .complete, w' =>
    ((∃ callback, w.socket.callback = some callback ∧ w'.socket.callback = none ∧
        w'.called = w.called ++ [callback]) ∨
      (w'.socket.wantRead = true ∧ w'.called = w.called)) ∧
    (w.socket.wantRead = true → w'.socket.wantRead = true)
  | .read _ callback, w' =>
    w.socket.wantRead = true → w'.socket.wantRead = false ∧ w'.called = w.called ++ [callback]

/-- `Kept`, and what else holds between the events. -/
structure Invariant (w : Watched κ) (l : List (Event κ)) : Prop extends Kept l w where
  isOpen : w.socket.isOpen = true
  queued : w.socket.queued = w.socket.wait.isSome
  unread : reads l = [] → w.socket.wantRead = true

section Step

variable {w : Watched κ} {l : List (Event κ)} {details : Details} {callback : κ}

theorem reads_append (l : List (Event κ)) (e : Event κ) :
    reads (l ++ [e]) = reads l ++ reads [e] := List.filterMap_append

theorem Invariant.read (h : Invariant w l) (hfree : w.socket.callback = none) :
    Invariant (w.step (.read details callback)) (l ++ [.read details callback]) ∧
      Answered w (.read details callback) (w.step (.read details callback)) := by
  have hreads : reads (l ++ [.read details callback]) = reads l ++ [callback] := reads_append _ _
  have hcalls : w.called = reads l := by simpa [hfree] using h.calls
  cases hwant : w.socket.wantRead with
  | true =>
    -- called at once; the first reading starts the waiting
    have hstep : w.step (.read details callback) =
        ⟨if w.socket.queued then { w.socket with wantRead := false }
          else { w.socket with wantRead := false }.queueRead, w.called ++ [callback]⟩ := by
      simp [Watched.step, read_of_wantRead h.isOpen hwant]
    have hqueued := h.queued
    rw [hstep]
    cases hq : w.socket.queued with
    | true =>
      rw [hq] at hqueued
      refine ⟨⟨⟨fun _ => hqueued.symm, fun _ => rfl, ?_⟩, h.isOpen, h.queued, ?_⟩, fun _ => ?_⟩
      · simp [hreads, hcalls, hfree]
      · simp [hreads]
      · exact ⟨rfl, rfl⟩
    | false =>
      simp only [queueRead, h.isOpen, if_true, Bool.false_eq_true, if_false]
      refine ⟨⟨⟨fun _ => rfl, fun _ => rfl, ?_⟩, rfl, rfl, ?_⟩, fun _ => ?_⟩
      · simp [hreads, hcalls, hfree]
      · simp [hreads]
      · exact ⟨rfl, rfl⟩
  | false =>
    have hstep : w.step (.read details callback) =
        ⟨{ w.socket with pendingDetails := details, callback := some callback }, w.called⟩ := by
      simp [Watched.step, read_of_not_wantRead h.isOpen hwant]
    have hstarted : reads l ≠ [] := fun hnil => by
      rw [h.unread hnil] at hwant
      cases hwant
    rw [hstep]
    refine ⟨⟨⟨fun _ => h.outstanding hstarted, fun _ => hwant, ?_⟩, h.isOpen, h.queued, ?_⟩,
      fun htrue => ?_⟩
    · simp [hreads, hcalls]
    · simp [hreads]
    · rw [hwant] at htrue
      cases htrue

theorem Invariant.complete (h : Invariant w l) (hwait : w.socket.wait = some details)
    (hok : details.isOk = true) :
    Invariant (w.step .complete) (l ++ [.complete]) ∧ Answered w .complete (w.step .complete) := by
  have hreads : reads (l ++ [.complete]) = reads l := by
    rw [reads_append]
    exact List.append_nil _
  have hcalls := h.calls
  cases hcallback : w.socket.callback with
  | some callback =>
    have hstep : w.step .complete =
        ⟨{ w.socket with queued := true, wait := some w.socket.pendingDetails, callback := none,
                         wantRead := false }, w.called ++ [callback]⟩ := by
      simp [Watched.step, complete_of_parked h.isOpen hwait hok hcallback]
    have hwant : w.socket.wantRead = false := h.parked (by rw [hcallback]; rfl)
    rw [hcallback] at hcalls
    rw [hstep]
    refine ⟨⟨⟨fun _ => rfl, fun _ => rfl, ?_⟩, h.isOpen, rfl, fun hnil => ?_⟩,
      .inl ⟨callback, hcallback, rfl, rfl⟩, fun htrue => ?_⟩
    · simpa [hreads] using hcalls
    · rw [hreads] at hnil
      rw [h.unread hnil] at hwant
      cases hwant
    · rw [hwant] at htrue
      cases htrue
  | none =>
    have hstep : w.step .complete =
        ⟨{ w.socket with queued := true, wait := some w.socket.pendingDetails, wantRead := true,
                         pendingDetails := details }, w.called⟩ := by
      simp [Watched.step, complete_of_free h.isOpen hwait hok hcallback]
    rw [hstep]
    refine ⟨⟨⟨fun _ => rfl, fun hsome => ?_, ?_⟩, h.isOpen, rfl, fun _ => rfl⟩,
      .inr ⟨rfl, rfl⟩, fun _ => rfl⟩
    · rw [hcallback] at hsome
      cases hsome
    · rw [hreads]
      exact hcalls

theorem Invariant.step (h : Invariant w l) {e : Event κ} (he : Allowed w e) :
    Invariant (w.step e) (l ++ [e]) ∧ Answered w e (w.step e) := by
  cases e with
  | read details callback => exact h.read he
  | complete =>
    obtain ⟨details, hwait, hok⟩ := he
    exact h.complete hwait hok

end Step

theorem invariant_new : Invariant ({} : Watched κ) [] :=
  ⟨⟨fun h => absurd rfl h, fun h => (nomatch h), rfl⟩, rfl, rfl, fun _ => rfl⟩

/-- **No readiness is lost.** -/
theorem loses_no_readiness (events : List (Event κ))
    (h : Trace.Along Watched.step id Allowed {} events) :
    (∀ l, l <+: events → Kept l (Watched.run {} l)) ∧
      ∀ l e, l ++ [e] <+: events →
        Answered (Watched.run {} l) e ((Watched.run {} l).step e) := by
  have hallowed : ∀ l e, l ++ [e] <+: events → Allowed (Watched.run {} l) e :=
    fun l e hle => h.of_prefix hle
  have hinv : ∀ {l}, l <+: events → Invariant (Watched.run {} l) l := fun hl =>
    Trace.invariant_prefix Watched.step id Invariant Allowed
      (fun _ _ _ hinv hC => (hinv.step hC).1) invariant_new hallowed hl
  refine ⟨fun l hl => (hinv hl).toKept, fun l e hle => ?_⟩
  exact ((hinv ((List.prefix_append l [e]).trans hle)).step (hallowed l e hle)).2

/-- A completion between two readings, and one that finds a callback parked. -/
theorem loses_no_readiness_twice :
    Trace.Along Watched.step id Allowed {}
        [Event.read {} 1, .complete, .read {} 2, .read {} 3, .complete] ∧
      Kept [Event.read {} 1, .complete, .read {} 2, .read {} 3, .complete]
        (Watched.run {} [Event.read {} 1, .complete, .read {} 2, .read {} 3, .complete]) :=
  have h : Trace.Along Watched.step id Allowed {}
      [Event.read {} 1, .complete, .read {} 2, .read {} 3, .complete] :=
    ⟨rfl, ⟨_, rfl, rfl⟩, rfl, rfl, ⟨_, rfl, rfl⟩, trivial⟩
  ⟨h, (loses_no_readiness _ h).1 _ (List.prefix_refl _)⟩

/-! ### Completions without an error -/

/-- The socket is open, and the details its completions get are ok. -/
structure ErrorFree (w : Watched κ) : Prop where
  isOpen : w.socket.isOpen = true
  pendingDetails : w.socket.pendingDetails.isOk = true
  wait : ∀ details ∈ w.socket.wait, details.isOk = true

/-- Details that are ok are given to `read`. -/
def GivesOk : Event κ → Prop
  | .read details _ => details.isOk = true
  | .complete => True

theorem ErrorFree.step {w : Watched κ} (h : ErrorFree w) {e : Event κ} (he : GivesOk e) :
    ErrorFree (w.step e) := by
  cases e with
  | read details callback =>
    cases hwant : w.socket.wantRead with
    | false =>
      simp only [Watched.step, read_of_not_wantRead h.isOpen hwant]
      exact ⟨h.isOpen, he, h.wait⟩
    | true =>
      simp only [Watched.step, read_of_wantRead h.isOpen hwant]
      split
      · exact ⟨h.isOpen, h.pendingDetails, h.wait⟩
      · simp only [queueRead, h.isOpen, if_true]
        exact ⟨rfl, h.pendingDetails, by simpa using h.pendingDetails⟩
  | complete =>
    cases hwait : w.socket.wait with
    | none =>
      simp only [Watched.step, UncontrolledSocket.complete, hwait]
      exact ⟨h.isOpen, h.pendingDetails, h.wait⟩
    | some details =>
      have hok : details.isOk = true := h.wait details (by rw [hwait]; rfl)
      cases hcallback : w.socket.callback with
      | some callback =>
        simp only [Watched.step, complete_of_parked h.isOpen hwait hok hcallback]
        exact ⟨h.isOpen, h.pendingDetails, by simpa using h.pendingDetails⟩
      | none =>
        simp only [Watched.step, complete_of_free h.isOpen hwait hok hcallback]
        exact ⟨h.isOpen, hok, by simpa using h.pendingDetails⟩

/-- Completions get an error only from details that were given to `read` with one. -/
theorem errorFree_run {events : List (Event κ)} (h : ∀ e ∈ events, GivesOk e) :
    ErrorFree (Watched.run {} events) :=
  Trace.invariant_along ErrorFree (fun _ _ hw he => hw.step he)
    ⟨rfl, rfl, fun _ hd => by cases hd⟩
    (Trace.along_of_forall fun e he _ => h e he) (List.prefix_refl events)

end UncontrolledSocket

end Fluffycoin.Async
