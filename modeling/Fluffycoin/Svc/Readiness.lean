import Fluffycoin.Svc.ApiPort

/-!
# Requests that wait while the port waits

`ApiPort.step` (see `Svc/ApiPort.lean`) lets the descriptor get ready at any time, and runs the
callback as one step. This file is about when the descriptor does get ready, and about what can
happen while the callback runs.

* ZMQ signals its descriptor when a message arrives at an empty queue, and one readiness may stand
  for many messages: `pending` says that it has been signalled since the last completion.
  Completions without a signal are allowed.
* The callback runs in two parts, `ApiPort::read` up to the spawned request (`recv`) and its call of
  `UncontrolledSocket::read` (`park`). Messages may arrive and completions come before, between and
  after them; as the callback is parked at most once, at most one runs at a time (`Phase`).

Uninterrupted, the steps are those of `ApiPort`: `port_ready` and `port_opened`.

## Results

* `parked_drained`: as long as every message finds the queue empty, a port that waits and has no
  readiness pending has no complete message to read.
* `burst_stalls`: two requests for one readiness, and the second is left unread, from any state in
  which the port waits with an empty queue.
-/

namespace Fluffycoin.Svc

open Fluffycoin.Async Fluffycoin.Zmq

namespace Readiness

/-- Where the callback is. -/
inductive Phase where
  /-- Parked in the socket. -/
  | parked
  /-- Called, before `Server::recv`. -/
  | called (details : Details)
  /-- Before `UncontrolledSocket::read`. -/
  | received (details : Details)
  /-- It has returned with an error, and nobody will call it. -/
  | returned
deriving DecidableEq

structure State where
  port : ApiPort
  phase : Phase
  pending : Bool := false
  /-- All messages that have arrived. -/
  arrived : List Message := []

inductive Event where
  | deliver (m : Message)
  | complete
  | recv
  | park

/-- `ApiPort::read` up to the spawned request. -/
def recv (s : State) (details : Details) : State :=
  if details.isOk = true then
    let r := s.port.server.recv details
    if r.2.1.isOk = true then
      { s with
        port := { s.port with server := r.2.2, handed := s.port.handed ++ r.1.toList }
        phase := .received r.2.1 }
    else { s with port := { s.port with server := r.2.2 }, phase := .returned }
  else { s with phase := .returned }

/-- The call of `UncontrolledSocket::read`, in `ApiPort::read` and in `ApiPort::openPort`. -/
def park (s : State) (details : Details) : State :=
  match s.port.socket.read details () with
  | (none, socket) => { s with port := { s.port with socket }, phase := .parked }
  | (some details', socket) => { s with port := { s.port with socket }, phase := .called details' }

/-- The completion of the outstanding `async_wait`, if there is one. -/
def complete (s : State) : State :=
  if s.port.socket.wait.isNone then s
  else match s.port.socket.complete with
    | (none, socket) => { s with port := { s.port with socket }, pending := false }
    | (some ((), details), socket) =>
      { s with port := { s.port with socket }, pending := false, phase := .called details }

def step (s : State) : Event → State
  | .deliver m =>
    { s with
      port := { s.port with server := s.port.server.deliver m }
      pending := s.pending || decide (s.port.server.socket = some [])
      arrived := s.arrived ++ [m] }
  | .complete => complete s
  | .recv =>
    match s.phase with
    | .called details => recv s details
    | _ => s
  | .park =>
    match s.phase with
    | .received details => park s details
    | _ => s

/-- A port that has been bound and is about to read for the first time. -/
def bound : State := { port := { server := ⟨some []⟩, socket := .ofFd }, phase := .received {} }

/-- The state after some events. -/
def run (events : List Event) : State := Trace.final step id bound events

/-- The frames that can be read. -/
def State.frames (s : State) : List Bytes := s.port.server.socket.getD []

/-- The last of the messages, those of which no frame has been read when `n` frames are left. -/
def untouched (n : Nat) : List Message → List Message
  | [] => []
  | m :: ms => if (frames (m :: ms)).length ≤ n then m :: ms else untouched n ms

/-- The complete messages that wait to be read. -/
def State.waiting (s : State) : List Message := untouched s.frames.length s.arrived

/-- A port that waits, and that nothing will wake, has no request to read. -/
def Drained (s : State) : Prop :=
  s.port.Armed → s.pending = false → s.waiting.filterMap Message.request = []

/-- A message arrives when all frames before it have been read. -/
def FindsEmpty (s : State) : Event → Prop
  | .deliver _ => s.frames = []
  | _ => True

/-! ## Complete messages -/

theorem untouched_zero (ms : List Message) : untouched 0 ms = [] := by
  induction ms with
  | nil => rfl
  | cons m ms ih =>
    rw [untouched, if_neg (Nat.not_le_of_lt (length_frames_pos (List.cons_ne_nil m ms)))]
    exact ih

theorem length_frames_append (ms : List Message) (m : Message) :
    (frames (ms ++ [m])).length = (frames ms).length + m.frames.length := by
  rw [frames, List.flatMap_append, List.length_append, List.flatMap_singleton]
  rfl

/-- With fewer frames than the last message has, all messages have been touched. -/
theorem untouched_of_lt {n : Nat} {m : Message} (h : n < m.frames.length) (ms : List Message) :
    untouched n (ms ++ [m]) = [] := by
  induction ms with
  | nil =>
    have hlen : (frames [m]).length = m.frames.length := by
      rw [frames, List.flatMap_singleton]
    rw [List.nil_append, untouched, if_neg (by omega)]
    rfl
  | cons m' ms ih =>
    have hlen := length_frames_append (m' :: ms) m
    rw [List.cons_append] at hlen ⊢
    rw [untouched, if_neg (by omega)]
    exact ih

/-- With as many frames as the last message has, it is the only one that has not been. -/
theorem untouched_self (ms : List Message) (m : Message) :
    untouched m.frames.length (ms ++ [m]) = [m] := by
  induction ms with
  | nil =>
    have hlen : (frames [m]).length = m.frames.length := by
      rw [frames, List.flatMap_singleton]
    rw [List.nil_append, untouched, if_pos (by omega)]
  | cons m' ms ih =>
    have hlen := length_frames_append (m' :: ms) m
    have hpos := length_frames_pos (List.cons_ne_nil m' ms)
    rw [List.cons_append] at hlen ⊢
    rw [untouched, if_neg (by omega)]
    exact ih

/-! ## The invariant -/

/-- Something will make the callback read, or it reads no more. -/
def Alert (s : State) : Prop :=
  s.pending = true ∨ s.port.socket.wantRead = true ∨ (∃ details, s.phase = .called details) ∨
    s.phase = .returned

structure Inv (s : State) : Prop where
  socket : ∃ fs, s.port.server.socket = some fs
  /-- No more frames are left than those of the last message. -/
  last : s.frames = [] ∨ ∃ ms m, s.arrived = ms ++ [m] ∧ s.frames.length ≤ m.frames.length
  parked : s.port.socket.callback = none ∨ s.phase = .parked ∧ s.port.socket.wantRead = false
  alert : s.waiting = [] ∨ Alert s

theorem inv_bound : Inv bound where
  socket := ⟨[], rfl⟩
  last := .inl rfl
  parked := .inl rfl
  alert := .inl rfl

theorem Inv.deliver {s : State} (h : Inv s) (hempty : s.frames = []) (m : Message) :
    Inv (step s (.deliver m)) := by
  obtain ⟨fs, hfs⟩ := h.socket
  have hnil : fs = [] := by
    rw [State.frames, hfs, Option.getD_some] at hempty
    exact hempty
  subst hnil
  have hsocket : (step s (.deliver m)).port.server.socket = some m.frames := by
    show s.port.server.socket.map (· ++ m.frames) = some m.frames
    rw [hfs]
    rfl
  have hframes : (step s (.deliver m)).frames = m.frames := by
    rw [State.frames, hsocket, Option.getD_some]
  have hpending : (step s (.deliver m)).pending = true := by
    show (s.pending || decide (s.port.server.socket = some [])) = true
    rw [hfs, decide_eq_true rfl, Bool.or_true]
  exact
    { socket := ⟨_, hsocket⟩
      last := .inr ⟨s.arrived, m, rfl, by rw [hframes]⟩
      parked := h.parked
      alert := .inr (.inl hpending) }

theorem Inv.complete {s : State} (h : Inv s) : Inv (complete s) := by
  unfold Readiness.complete
  split
  · exact h
  · rename_i hwait
    rw [Bool.not_eq_true, Option.isNone_eq_false_iff] at hwait
    obtain ⟨hcallback, hcalled⟩ := UncontrolledSocket.complete_cases hwait
    split
    · rename_i socket hcomplete
      rw [hcomplete] at hcallback hcalled
      exact
        { socket := h.socket
          last := h.last
          parked := .inl hcallback
          alert := .inr (.inr (.inl (hcalled.resolve_left Bool.false_ne_true))) }
    · rename_i details socket hcomplete
      rw [hcomplete] at hcallback
      exact
        { socket := h.socket
          last := h.last
          parked := .inl hcallback
          alert := .inr (.inr (.inr (.inl ⟨details, rfl⟩))) }

/-- After a call of `Server::recv` no complete message is left. -/
theorem Inv.untouched_drop {s : State} (h : Inv s) :
    untouched (s.frames.drop 3).length s.arrived = [] := by
  by_cases hempty : s.frames = []
  · rw [hempty]
    exact untouched_zero s.arrived
  · obtain ⟨ms, m, hm, hle⟩ := h.last.resolve_left hempty
    have hpos := List.length_pos_of_ne_nil hempty
    rw [hm, List.length_drop]
    exact untouched_of_lt (by omega) ms

theorem Inv.recv {s : State} (h : Inv s) {details : Details} (hphase : s.phase = .called details) :
    Inv (recv s details) := by
  have hcallback : s.port.socket.callback = none :=
    h.parked.resolve_right fun hparked => by rw [hphase] at hparked; cases hparked.1
  have hrest := h.untouched_drop
  unfold Readiness.recv
  by_cases hok : details.isOk = true
  · obtain ⟨fs, hfs⟩ := h.socket
    have hserver : s.port.server = ⟨some fs⟩ := by rw [← hfs]
    have hframes : s.frames = fs := by rw [State.frames, hfs, Option.getD_some]
    have hsocket : (s.port.server.recv details).2.2 = ⟨some (fs.drop 3)⟩ := by
      rw [hserver, Server.recv_socket hok]
    rw [hframes] at hrest
    have hlast : fs.drop 3 = [] ∨
        ∃ ms m, s.arrived = ms ++ [m] ∧ (fs.drop 3).length ≤ m.frames.length := by
      rcases h.last with hempty | ⟨ms, m, hm, hle⟩
      · rw [hframes] at hempty
        exact .inl (by rw [hempty]; rfl)
      · rw [hframes] at hle
        exact .inr ⟨ms, m, hm, (List.drop_sublist 3 fs).length_le.trans hle⟩
    rw [if_pos hok]
    dsimp only
    rw [hsocket]
    split
    · exact ⟨⟨_, rfl⟩, hlast, .inl hcallback, .inl hrest⟩
    · exact ⟨⟨_, rfl⟩, hlast, .inl hcallback, .inl hrest⟩
  · rw [if_neg hok]
    exact ⟨h.socket, h.last, .inl hcallback, .inr (.inr (.inr (.inr rfl)))⟩

theorem Inv.park {s : State} (h : Inv s) {details : Details}
    (hphase : s.phase = .received details) : Inv (park s details) := by
  have hcallback : s.port.socket.callback = none :=
    h.parked.resolve_right fun hparked => by rw [hphase] at hparked; cases hparked.1
  unfold Readiness.park
  split
  · rename_i socket hread
    obtain ⟨hwant, hwant', -⟩ := UncontrolledSocket.read_eq_none hread
    refine { socket := h.socket, last := h.last, parked := .inr ⟨rfl, hwant'⟩, alert := ?_ }
    rcases h.alert with hwaiting | hpending | hwant'' | ⟨details', hcalled⟩ | hreturned
    · exact .inl hwaiting
    · exact .inr (.inl hpending)
    · rw [hwant] at hwant''
      cases hwant''
    · rw [hphase] at hcalled
      cases hcalled
    · rw [hphase] at hreturned
      cases hreturned
  · rename_i details' socket hread
    exact
      { socket := h.socket
        last := h.last
        parked := .inl ((UncontrolledSocket.read_eq_some hread).trans hcallback)
        alert := .inr (.inr (.inr (.inl ⟨details', rfl⟩))) }

theorem Inv.step {s : State} (h : Inv s) {e : Event} (he : FindsEmpty s e) : Inv (step s e) := by
  cases e with
  | deliver m => exact h.deliver he m
  | complete => exact h.complete
  | recv =>
    dsimp only [Readiness.step]
    split
    · rename_i details hphase
      exact h.recv hphase
    · exact h
  | park =>
    dsimp only [Readiness.step]
    split
    · rename_i details hphase
      exact h.park hphase
    · exact h

theorem Inv.drained {s : State} (h : Inv s) : Drained s := by
  intro harmed hpending
  obtain ⟨hphase, hwant⟩ := h.parked.resolve_left fun hnone => by
    rw [ApiPort.Armed, hnone] at harmed
    cases harmed
  rcases h.alert with hwaiting | hpending' | hwant' | ⟨details, hcalled⟩ | hreturned
  · rw [hwaiting]
    rfl
  · rw [hpending] at hpending'
    cases hpending'
  · rw [hwant] at hwant'
    cases hwant'
  · rw [hphase] at hcalled
    cases hcalled
  · rw [hphase] at hreturned
    cases hreturned

/-- **No request is left unread while the port waits**, as long as every message arrives when all
frames before it have been read. -/
theorem parked_drained (events : List Event)
    (hempty : Trace.Along step id FindsEmpty bound events) :
    ∀ l, l <+: events → Drained (run l) := by
  intro l hl
  have hinv : Inv (run l) :=
    Trace.invariant_along Inv (fun s e hs he => hs.step he) inv_bound hempty hl
  exact hinv.drained

/-- A request, and one more when it has been read. -/
def spaced : List Event :=
  [.park, .recv, .park, .deliver ⟨[1], [[], [2]]⟩, .complete, .recv,
    .deliver ⟨[3], [[], [4]]⟩, .park]

theorem parked_drained_spaced :
    Trace.Along step id FindsEmpty bound spaced ∧ ∀ l, l <+: spaced → Drained (run l) :=
  have hempty : Trace.Along step id FindsEmpty bound spaced :=
    ⟨trivial, trivial, trivial, rfl, trivial, trivial, rfl, trivial, trivial⟩
  ⟨hempty, parked_drained spaced hempty⟩

/-! ## Uninterrupted steps -/

/-- The callback, called and not interrupted, is a step of `ApiPort`. -/
theorem port_ready {s : State} {fs : List Bytes} (h : s.port.Listening fs) :
    (Trace.final step id s [.complete, .recv, .park]).port = s.port.step .ready ∧
      (Trace.final step id s [.complete, .recv, .park]).pending = false ∧
      (Trace.final step id s [.complete, .recv, .park]).arrived = s.arrived := by
  obtain ⟨waiting, hwait, _⟩ := h.socket.wait
  obtain ⟨details, socket, hcomplete, hok, hidle, _⟩ := h.socket.complete h.callback
  have hcalled : complete s =
      { s with port := { s.port with socket }, pending := false, phase := .called details } := by
    unfold complete
    rw [if_neg (by rw [hwait]; exact Bool.false_ne_true), hcomplete]
  have hready : s.port.step .ready = ({ s.port with socket : ApiPort }.read details).2 := by
    simp only [ApiPort.step, hcomplete]
  have hfinal : Trace.final step id s [.complete, .recv, .park] =
      step (recv (complete s) details) .park := by
    show step (step (complete s) .recv) .park = _
    rw [hcalled]
    rfl
  rw [hfinal, hcalled, hready, ApiPort.read_of_idle hidle hok, recv, if_pos hok]
  dsimp only
  by_cases hr : (s.port.server.recv details).2.1.isOk = true
  · rw [if_pos hr, if_pos hr]
    dsimp only [step, park]
    rw [hidle.read]
    exact ⟨rfl, rfl, rfl⟩
  · rw [if_neg hr, if_neg hr]
    exact ⟨rfl, rfl, rfl⟩

/-- The first read, not interrupted, is the end of `ApiPort::openPort`. -/
theorem port_opened :
    (run [.park, .recv, .park]).port = ApiPort.opened ∧
      (run [.park, .recv, .park]).pending = false := by
  rw [ApiPort.opened_eq]
  exact ⟨rfl, rfl⟩

/-! ## A burst -/

/-- **Two messages for one readiness**: of a request and what comes right behind it, the second is
left unread, and nothing will wake the port. -/
theorem burst_stalls {s : State} (h : s.port.Listening []) {client : ClientId}
    (hclient : client ≠ []) (data : Bytes) (m : Message) :
    let t := Trace.final step id s
      [.deliver ⟨client, [[], data]⟩, .deliver m, .complete, .recv, .park]
    t.port.Armed ∧ t.pending = false ∧ t.waiting = [m] := by
  intro t
  -- both messages have arrived
  let s' := step (step s (.deliver ⟨client, [[], data]⟩)) (.deliver m)
  have hlisten : s'.port.Listening (client :: [] :: data :: m.frames) :=
    (h.deliver ⟨client, [[], data]⟩).deliver m
  obtain ⟨hport, hpending, harrived⟩ := port_ready hlisten
  obtain ⟨hrest, _⟩ := hlisten.ready_request hclient
  have hframes : t.frames = m.frames := by
    show (Trace.final step id s' [.complete, .recv, .park]).port.server.socket.getD [] = m.frames
    rw [hport, hrest.server, Option.getD_some]
  have harmed : t.port.Armed := by
    show (Trace.final step id s' [.complete, .recv, .park]).port.Armed
    rw [hport]
    exact hrest.armed
  refine ⟨harmed, hpending, ?_⟩
  rw [State.waiting, hframes]
  show untouched m.frames.length (Trace.final step id s' [.complete, .recv, .park]).arrived = [m]
  rw [harrived]
  exact untouched_self _ m

/-- Two requests, one right after the other. -/
def burst : List Event :=
  [.park, .recv, .park, .deliver ⟨[1], [[], [2]]⟩, .deliver ⟨[3], [[], [4]]⟩, .complete, .recv,
    .park]

/-- The second waits, while the port waits for ever. -/
theorem burst_not_drained :
    ¬ Drained (run burst) ∧ (run burst).waiting = [⟨[3], [[], [4]]⟩] := by
  have hlisten : (run [.park, .recv, .park]).port.Listening [] := by
    rw [port_opened.1]
    exact ApiPort.listening_opened.1
  obtain ⟨harmed, hpending, hwaiting⟩ :=
    burst_stalls hlisten (List.cons_ne_nil 1 []) [2] ⟨[3], [[], [4]]⟩
  have hsecond : (run burst).waiting = [⟨[3], [[], [4]]⟩] := hwaiting
  refine ⟨fun h => ?_, hsecond⟩
  have hnil := h harmed hpending
  rw [hsecond] at hnil
  cases hnil

end Readiness

end Fluffycoin.Svc
