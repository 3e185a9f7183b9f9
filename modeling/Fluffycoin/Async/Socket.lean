import Fluffycoin.Ossl.Convert
import Fluffycoin.Utils.Details
import Fluffycoin.Utils.Trace

/-!
# The write queue of `async::Socket`

Model of the writing half of `src/async/Socket.cpp`. Boost writes one thing at a time, so `write`
puts the data into a queue and starts an `async_write` for it if nothing is being written. `κ` is
the type of the callbacks.

* `ops` are the `async_write`s in flight, by their data. `handed` is the data given to `async_write`
  so far and `accepted` that of the calls of `write` that were not refused, both in order; they are
  there to be spoken about.
* `complete` is the completion handler of the oldest `async_write`. It takes the front out of the
  queue and calls back, but does not start the next write (`Socket.cpp:109-145`).
* The timer is left out: it can only abort what is in flight, and a completion may carry any
  outcome. So are the log lines, the reading half and a socket that has been moved away.

`neverStalls_iff`: the queue works as long as every completion finds one write in it. If another has
been queued meanwhile, nothing is in flight afterwards and nothing will ever be
(`Stalled.run`): `write` sees a queue that is not empty.
-/

namespace Fluffycoin.Async

/-- `PendingWrite`. The callback may be an empty `std::function`. -/
structure PendingWrite (κ : Type) where
  details : Details := {}
  data : Bytes
  callback : Option κ

/-- `SocketImpl`, with what it has been given and has given away. -/
structure Socket (κ : Type) where
  isOpen : Bool := true
  writes : List (PendingWrite κ) := []
  ops : List Bytes := []
  handed : List Bytes := []
  accepted : List Bytes := []

namespace Socket

/-- The outcome of an `async_write`. -/
inductive Outcome where
  | success
  | aborted
  | error (message : String)
  deriving DecidableEq, Repr

/-- A finished write: its details, and the callback that is called with them. -/
structure Finished (κ : Type) where
  details : Details
  callback : Option κ

variable {κ : Type}

/-- `queueWrite` up to the completion. -/
def queueWrite (s : Socket κ) : Socket κ :=
  match s.writes with
  | [] => s
  | pending :: _ => { s with ops := s.ops ++ [pending.data], handed := s.handed ++ [pending.data] }

/-- `Socket::write`; `some details` if it is refused. -/
def write (s : Socket κ) (details : Details) (data : Bytes) (callback : Option κ) :
    Option Details × Socket κ :=
  if !s.isOpen then (some (details.setError .notConnected "socket_write" "Not connected."), s)
  else
    let s := { s with writes := s.writes ++ [{ details, data, callback }]
                      accepted := s.accepted ++ [data] }
    if s.writes.length > 1 then (none, s) else (none, s.queueWrite)

/-- What the handler makes of the write it took out of the queue. -/
def finish (pending : PendingWrite κ) : Outcome → Finished κ
  | .aborted =>
    ⟨pending.details.setError .socketTimeout "socket_write" "Timeout trying to write.", none⟩
  | .error message =>
    ⟨pending.details.setError .socketError "socket_write"
      ("Error writing to socket: " ++ message), none⟩
  | .success =>
    match pending.callback with
    | none =>
      ⟨pending.details.setError .internalError "write_callback" "No write callback to trigger.",
        none⟩
    | some callback => ⟨pending.details, some callback⟩

/-- The completion handler of `queueWrite`, if anything is in flight. -/
def complete (s : Socket κ) (outcome : Outcome) : Option (Finished κ) × Socket κ :=
  match s.ops with
  | [] => (none, s)
  | _ :: ops =>
    match s.writes with
    | [] => (some (finish { data := [], callback := none } outcome), { s with ops })
    | pending :: writes => (some (finish pending outcome), { s with ops, writes })

/-! ## Runs -/

/-- What happens to an open socket. -/
inductive Event (κ : Type) where
  | write (details : Details) (data : Bytes) (callback : Option κ)
  | complete (outcome : Outcome)

/-- The socket after an event. -/
def step (s : Socket κ) : Event κ → Socket κ
  | .write details data callback => (s.write details data callback).2
  | .complete outcome => (s.complete outcome).2

/-- The socket after events. -/
def run : Socket κ → List (Event κ) → Socket κ := Trace.final step id

/-- One `async_write` is in flight exactly while something is queued, and it is for the front. What
has been handed over and what waits behind the front is what was accepted. -/
structure Flows (s : Socket κ) : Prop where
  inFlight : s.writes ≠ [] ↔ ∃ op, s.ops = [op]
  front : s.ops = (s.writes.take 1).map PendingWrite.data
  order : s.handed ++ (s.writes.drop 1).map PendingWrite.data = s.accepted

/-- The queue works at every moment. -/
def NeverStalls (events : List (Event κ)) : Prop := ∀ l, l <+: events → Flows (run {} l)

/-- Nothing is queued behind the write that completes. -/
def Alone (s : Socket κ) : Event κ → Prop
  | .write .. => True
  | .complete _ => s.writes.length ≤ 1

variable {s : Socket κ}

/-! ## One event -/

/-- What is in flight says whether there is something. -/
theorem flows_of_front (hfront : s.ops = (s.writes.take 1).map PendingWrite.data)
    (horder : s.handed ++ (s.writes.drop 1).map PendingWrite.data = s.accepted) : Flows s := by
  refine ⟨?_, hfront, horder⟩
  rw [hfront]
  cases s.writes with
  | nil => simp
  | cons pending writes => simp

theorem write_of_closed (h : s.isOpen = false) (details : Details) (data : Bytes)
    (callback : Option κ) : (s.write details data callback).2 = s := by
  simp [write, h]

/-- The only write is started. -/
theorem write_of_nil (hopen : s.isOpen = true) (h : s.writes = []) (details : Details)
    (data : Bytes) (callback : Option κ) :
    (s.write details data callback).2 =
      { s with writes := [⟨details, data, callback⟩], ops := s.ops ++ [data],
               handed := s.handed ++ [data], accepted := s.accepted ++ [data] } := by
  simp [write, queueWrite, hopen, h]

/-- Another one waits behind the front. -/
theorem write_of_ne_nil (hopen : s.isOpen = true) (h : s.writes ≠ []) (details : Details)
    (data : Bytes) (callback : Option κ) :
    (s.write details data callback).2 =
      { s with writes := s.writes ++ [⟨details, data, callback⟩]
               accepted := s.accepted ++ [data] } := by
  have hpos := List.length_pos_iff.mpr h
  simp [write, hopen, hpos]

theorem flows_write (h : Flows s) (details : Details) (data : Bytes) (callback : Option κ) :
    Flows (s.write details data callback).2 := by
  have hfront := h.front
  have horder := h.order
  cases hopen : s.isOpen with
  | false =>
    rw [write_of_closed hopen]
    exact h
  | true =>
    cases hwrites : s.writes with
    | nil =>
      rw [write_of_nil hopen hwrites]
      rw [hwrites] at hfront horder
      apply flows_of_front
      · simp [hfront]
      · simpa using horder
    | cons pending writes =>
      have hne : s.writes ≠ [] := by simp [hwrites]
      rw [write_of_ne_nil hopen hne]
      rw [hwrites] at hfront horder
      apply flows_of_front
      · simp [hwrites, hfront]
      · simp [hwrites, ← horder]

/-- The handler takes the front out of the queue, and nothing is in flight afterwards. -/
theorem complete_of_flows (h : Flows s) (outcome : Outcome) :
    (s.complete outcome).2 = { s with ops := [], writes := s.writes.drop 1 } := by
  have hfront := h.front
  obtain ⟨isOpen, writes, ops, handed, accepted⟩ := s
  obtain rfl : ops = (writes.take 1).map PendingWrite.data := hfront
  cases writes with
  | nil => rfl
  | cons pending writes => rfl

/-- The queue goes on working exactly if nothing waits behind the write that completes. -/
theorem flows_complete_iff (h : Flows s) (outcome : Outcome) :
    Flows (s.complete outcome).2 ↔ s.writes.length ≤ 1 := by
  rw [complete_of_flows h]
  constructor
  · intro hflows
    by_contra hlong
    have hwaiting : s.writes.drop 1 ≠ [] := by
      intro hnil
      rw [List.drop_eq_nil_iff] at hnil
      exact hlong hnil
    obtain ⟨op, hop⟩ := hflows.inFlight.mp hwaiting
    cases hop
  · intro hle
    have hnil : s.writes.drop 1 = [] := List.drop_eq_nil_of_le hle
    have horder := h.order
    rw [hnil] at horder
    exact flows_of_front (by simp only [hnil, List.take_nil, List.map_nil])
      (by simpa only [hnil, List.drop_nil, List.map_nil] using horder)

theorem flows_step_iff (s : Socket κ) (e : Event κ) (h : Flows s) :
    Flows (s.step e) ↔ s.Alone e := by
  cases e with
  | write details data callback => exact iff_of_true (flows_write h details data callback) trivial
  | complete outcome => exact flows_complete_iff h outcome

/-! ## Whole runs -/

theorem flows_new : Flows ({} : Socket κ) := flows_of_front rfl rfl

/-- **When the write queue never stalls**: if no completion comes while another write is queued. -/
theorem neverStalls_iff (events : List (Event κ)) :
    NeverStalls events ↔ Trace.Along step id Alone {} events :=
  Trace.invariant_iff_along Flows flows_step_iff flows_new events

/-- Something is queued and nothing in flight. -/
structure Stalled (s : Socket κ) : Prop where
  queued : s.writes ≠ []
  idle : s.ops = []

theorem Stalled.step (h : Stalled s) (e : Event κ) :
    Stalled (s.step e) ∧ (s.step e).handed = s.handed := by
  cases e with
  | write details data callback =>
    cases hopen : s.isOpen with
    | false =>
      rw [Socket.step, write_of_closed hopen]
      exact ⟨h, rfl⟩
    | true =>
      rw [Socket.step, write_of_ne_nil hopen h.queued]
      exact ⟨⟨List.append_ne_nil_of_left_ne_nil h.queued _, h.idle⟩, rfl⟩
  | complete outcome =>
    have hsame : (s.complete outcome).2 = s := by rw [complete, h.idle]
    rw [Socket.step, hsame]
    exact ⟨h, rfl⟩

/-- **A stalled queue stays stalled**: nothing is handed to the descriptor any more. -/
theorem Stalled.run (h : Stalled s) (events : List (Event κ)) :
    Stalled (s.run events) ∧ (s.run events).handed = s.handed := by
  induction events generalizing s with
  | nil => exact ⟨h, rfl⟩
  | cons e events ih =>
    obtain ⟨hstep, hhanded⟩ := h.step e
    obtain ⟨hrun, hrest⟩ := ih hstep
    exact ⟨hrun, hrest.trans hhanded⟩

/-- A second write before the first has completed: it is never handed over. -/
def overlapping : List (Event Unit) :=
  [.write {} [1] (some ()), .write {} [2] (some ()), .complete .success]

theorem overlapping_stalls :
    (run {} overlapping).accepted = [[1], [2]] ∧
      (∀ events, (run {} (overlapping ++ events)).handed = [[1]]) ∧ ¬ NeverStalls overlapping := by
  have hstalled : Stalled (run {} overlapping) := ⟨List.cons_ne_nil _ _, rfl⟩
  refine ⟨rfl, fun events => ?_, fun h => ?_⟩
  · unfold run
    rw [Trace.final_append]
    exact (hstalled.run events).2
  · obtain ⟨op, hop⟩ := (h overlapping (List.prefix_refl _)).inFlight.mp hstalled.queued
    rw [hstalled.idle] at hop
    cases hop

end Socket

end Fluffycoin.Async
