import Fluffycoin.Async.UncontrolledSocket
import Fluffycoin.Utils.Trace
import Fluffycoin.Zmq.Server

/-!
# The read loop of `svc::ApiPort`

Model of `ApiPort::openPort` and `ApiPort::read` (`src/svc/api/ApiPort.cpp:37-92`): whenever the
descriptor of the ROUTER socket gets ready, one message is received and handed to `handleRequest`,
and the next read is registered. Only one callback is ever registered, `ApiPort::read` itself, so
the type of the callbacks is `Unit`. `handed` lists what `handleRequest` was spawned with.

A run is any sequence of arriving messages and of the descriptor getting ready (`Event`), from an
opened port on.

* `Listening p frames`: a read is registered and `frames` can be received. One completion takes a
  request off the front, if there is one, and keeps the port listening (`Listening.ready_nil`,
  `Listening.ready_request`).
* On any other frames `recv` reports an error and `read` returns before it registers the next read
  (`ApiPort.cpp:71-76`): `Listening.ready_of_not_reads`. Nothing is ever handed over again
  (`Deaf.run`).
* **`stays_armed_iff`**: so the port stays registered, however the messages and completions
  interleave, exactly when every message consists of requests.
-/

namespace Fluffycoin.Svc

open Fluffycoin.Async Fluffycoin.Zmq

/-- `ApiPort`, as far as reading goes. -/
structure ApiPort where
  server : Server := {}
  socket : UncontrolledSocket Unit := {}
  handed : List (ClientId × Bytes) := []

namespace ApiPort

/-- `ApiPort::read`. The call `UncontrolledSocket::read` makes at once is its last act. -/
def read (p : ApiPort) (details : Details) : Details × ApiPort :=
  if hok : details.isOk = true then
    let r := p.server.recv details
    if hr : r.2.1.isOk = true then
      let p' := { p with server := r.2.2, handed := p.handed ++ r.1.toList }
      match hread : p'.socket.read r.2.1 () with
      | (none, socket) => (r.2.1, { p' with socket })
      | (some details', socket) =>
        have : socket.rank details' < p.socket.rank details :=
          (UncontrolledSocket.rank_read hr hread).trans_eq (UncontrolledSocket.rank_eq hr hok)
        read { p' with socket } details'
    else
      (r.2.1.setError .readError "api_port_read"
        "Received error when reading message on API port.", { p with server := r.2.2 })
  else
    (details.setError .socketError "api_port_read" "Received error when reading on API port.", p)
termination_by p.socket.rank details

/-- `ApiPort::openPort`, with the details `Server::bind` left. -/
def openPort (p : ApiPort) (details : Details) : Bool × ApiPort :=
  if details.isOk then
    let p := { p with server := ⟨some []⟩, socket := .ofFd }
    match p.socket.read details () with
    | (none, socket) => (details.isOk, { p with socket })
    | (some details, socket) =>
      let r := { p with socket : ApiPort }.read details
      (r.1.isOk, r.2)
  else (false, { p with server := {} })

/-- What can happen to an open port. -/
inductive Event where
  | deliver (m : Message)
  | ready

def step (p : ApiPort) : Event → ApiPort
  | .deliver m => { p with server := p.server.deliver m }
  | .ready =>
    match p.socket.complete with
    | (none, socket) => { p with socket }
    | (some ((), details), socket) => ({ p with socket : ApiPort }.read details).2

/-- A port that has been opened. -/
def opened : ApiPort := (openPort {} {}).2

/-- The port after some events. -/
def run (events : List Event) : ApiPort := Trace.final step id opened events

/-- The next read is registered. -/
def Armed (p : ApiPort) : Prop := p.socket.callback.isSome

/-! ## One event -/

/-- A read is registered on an idle socket, from which the frames can be received. -/
structure Listening (p : ApiPort) (frames : List Bytes) : Prop where
  socket : p.socket.Idle
  callback : p.socket.callback = some ()
  server : p.server = ⟨some frames⟩

theorem Listening.armed {p : ApiPort} {frames : List Bytes} (h : Listening p frames) : p.Armed := by
  unfold Armed
  rw [h.callback]
  rfl

/-- One call of `read` on an idle socket. -/
theorem read_of_idle {p : ApiPort} (h : p.socket.Idle) {details : Details}
    (hok : details.isOk = true) :
    p.read details =
      let r := p.server.recv details
      if r.2.1.isOk = true then
        (r.2.1,
          { server := r.2.2
            socket := { p.socket with pendingDetails := r.2.1, callback := some () }
            handed := p.handed ++ r.1.toList })
      else
        (r.2.1.setError .readError "api_port_read"
          "Received error when reading message on API port.", { p with server := r.2.2 }) := by
  rw [read]
  simp only [hok, dif_pos]
  by_cases hr : (p.server.recv details).2.1.isOk = true
  · rw [dif_pos hr, if_pos hr]
    split
    · rename_i socket hread
      rw [h.read] at hread
      cases hread
      rfl
    · rename_i details' socket hread
      rw [h.read] at hread
      cases hread
  · rw [dif_neg hr, if_neg hr]

section Listening

variable {p : ApiPort} {frames : List Bytes}

/-- What a completion does to a listening port. -/
theorem Listening.ready (h : Listening p frames) :
    ∃ details socket, details.isOk = true ∧ UncontrolledSocket.Idle socket ∧
      socket.callback = none ∧ p.step .ready = ({ p with socket : ApiPort }.read details).2 := by
  obtain ⟨details, socket, hcomplete, hok, hidle, hnone⟩ := h.socket.complete h.callback
  exact ⟨details, socket, hok, hidle, hnone, by simp only [step, hcomplete]⟩

theorem Listening.ready_nil (h : Listening p []) :
    Listening (p.step .ready) [] ∧ (p.step .ready).handed = p.handed := by
  obtain ⟨details, socket, hok, hidle, _, hstep⟩ := h.ready
  rw [hstep, read_of_idle hidle hok]
  simp only [h.server, Server.recv_nil hok, hok, if_true]
  exact ⟨⟨hidle.park hok (), rfl, rfl⟩, List.append_nil _⟩

theorem Listening.ready_request {id : ClientId} {data : Bytes}
    (h : Listening p (id :: [] :: data :: frames)) (hid : id ≠ []) :
    Listening (p.step .ready) frames ∧ (p.step .ready).handed = p.handed ++ [(id, data)] := by
  obtain ⟨details, socket, hok, hidle, _, hstep⟩ := h.ready
  rw [hstep, read_of_idle hidle hok]
  simp only [h.server, Server.recv_request hok hid, hok, if_true]
  exact ⟨⟨hidle.park hok (), rfl, rfl⟩, rfl⟩

/-- Nobody is called when the descriptor gets ready. -/
def Deaf (p : ApiPort) : Prop := p.socket.callback = none

theorem Listening.ready_of_not_reads (h : Listening p frames) (hreads : ¬ Server.Reads frames) :
    Deaf (p.step .ready) ∧ (p.step .ready).handed = p.handed := by
  obtain ⟨details, socket, hok, hidle, hnone, hstep⟩ := h.ready
  have hr := Server.recv_of_not_reads hok hreads
  rw [hstep, read_of_idle hidle hok]
  simp only [h.server, hr, Bool.false_eq_true, if_false, and_true]
  exact hnone

theorem Listening.deliver (h : Listening p frames) (m : Message) :
    Listening (p.step (.deliver m)) (frames ++ m.frames) :=
  ⟨h.socket, h.callback, by simp only [step, Server.deliver, h.server, Option.map_some]⟩

end Listening

theorem Deaf.not_armed {p : ApiPort} (h : Deaf p) : ¬ p.Armed := by
  unfold Armed
  rw [show p.socket.callback = none from h]
  exact Bool.false_ne_true

theorem Deaf.step {p : ApiPort} (h : Deaf p) (e : Event) :
    Deaf (p.step e) ∧ (p.step e).handed = p.handed := by
  cases e with
  | deliver m => exact ⟨h, rfl⟩
  | ready =>
    obtain ⟨hnone, hcallback⟩ := UncontrolledSocket.complete_of_none h
    unfold ApiPort.step
    generalize p.socket.complete = r at hnone hcallback
    obtain ⟨called, socket⟩ := r
    obtain rfl : called = none := hnone
    exact ⟨hcallback, rfl⟩

/-- **A port that is not registered hands over nothing, ever.** -/
theorem Deaf.run {p : ApiPort} (h : Deaf p) (events : List Event) :
    Deaf (Trace.final ApiPort.step id p events) ∧
      (Trace.final ApiPort.step id p events).handed = p.handed := by
  induction events generalizing p with
  | nil => exact ⟨h, rfl⟩
  | cons e events ih =>
    obtain ⟨hdeaf, hhanded⟩ := h.step e
    obtain ⟨hrest, hsame⟩ := ih hdeaf
    exact ⟨hrest, hsame.trans hhanded⟩

/-! ## Runs -/

/-- The port after `openPort`: the first call found nothing, and the next read is registered. -/
theorem opened_eq :
    opened =
      { server := ⟨some []⟩
        socket := { isOpen := true, queued := true, wait := some {}, callback := some () } } := by
  have hidle : UncontrolledSocket.Idle
      ({ isOpen := true, queued := true, wait := some {} } : UncontrolledSocket Unit) :=
    ⟨rfl, rfl, rfl, rfl, {}, rfl, rfl⟩
  have hread : opened =
      (read
        { server := ⟨some []⟩, socket := { isOpen := true, queued := true, wait := some {} } }
        {}).2 := rfl
  rw [hread, read_of_idle hidle rfl]
  rfl

theorem listening_opened : Listening opened [] ∧ opened.handed = [] := by
  rw [opened_eq]
  exact ⟨⟨⟨rfl, rfl, rfl, rfl, {}, rfl, rfl⟩, rfl, rfl⟩, rfl⟩

section Runs

variable {p : ApiPort} {frames : List Bytes}

/-- Enough completions take all requests. -/
theorem Listening.drain (h : Listening p frames) (hreq : Requests frames) :
    let q := Trace.final step id p (List.replicate (requests frames).length .ready)
    Listening q [] ∧ q.handed = p.handed ++ requests frames := by
  induction frames using requests.induct generalizing p with
  | case1 id delimiter data frames ih =>
    obtain ⟨⟨hid, rfl⟩, hrest⟩ := hreq
    obtain ⟨hlisten, hhanded⟩ := h.ready_request hid
    obtain ⟨hend, hall⟩ := ih hlisten hrest
    refine ⟨hend, hall.trans ?_⟩
    rw [hhanded, List.append_assoc]
    rfl
  | case2 frames hne =>
    rcases frames with _ | ⟨id, _ | ⟨delimiter, _ | ⟨data, frames⟩⟩⟩
    · exact ⟨h, (List.append_nil _).symm⟩
    · exact hreq.elim
    · exact hreq.elim
    · exact absurd rfl (hne id delimiter data frames)

/-- A port that is still registered after enough completions was given requests. -/
theorem Listening.requests_of_armed (h : Listening p frames) {n : Nat} (hn : frames.length ≤ n)
    (harmed : (Trace.final step id p (List.replicate n .ready)).Armed) : Requests frames := by
  induction frames using requests.induct generalizing p n with
  | case1 id delimiter data frames ih =>
    cases n with
    | zero => cases hn
    | succ n =>
      by_cases hreads : id ≠ [] ∧ delimiter = []
      · obtain ⟨hid, rfl⟩ := hreads
        refine ⟨⟨hid, rfl⟩, ih (h.ready_request hid).1 ?_ harmed⟩
        simp only [List.length_cons] at hn
        omega
      · have hdeaf := (h.ready_of_not_reads hreads).1
        exact absurd harmed (hdeaf.run _).1.not_armed
  | case2 frames hne =>
    by_cases hreads : Server.Reads frames
    · rcases frames with _ | ⟨id, _ | ⟨delimiter, _ | ⟨data, frames⟩⟩⟩
      · exact trivial
      · exact hreads.elim
      · exact hreads.elim
      · exact absurd rfl (hne id delimiter data frames)
    · have hpos : 0 < frames.length := List.length_pos_of_ne_nil fun hnil => by
        subst hnil
        exact hreads trivial
      obtain ⟨n, rfl⟩ := Nat.exists_eq_succ_of_ne_zero (Nat.ne_of_gt (hpos.trans_le hn))
      have hdeaf := (h.ready_of_not_reads hreads).1
      exact absurd harmed (hdeaf.run _).1.not_armed

theorem Listening.deliverAll (h : Listening p frames) (messages : List Message) :
    Listening (Trace.final step id p (messages.map .deliver))
      (frames ++ messages.flatMap Message.frames) := by
  induction messages generalizing p frames with
  | nil =>
    rw [List.flatMap_nil, List.append_nil]
    exact h
  | cons m messages ih =>
    rw [List.flatMap_cons, ← List.append_assoc]
    exact ih (h.deliver m)

end Runs

/-- The messages that arrive. -/
def deliveries (events : List Event) : List Message :=
  events.filterMap fun
    | .deliver m => some m
    | .ready => none

theorem deliveries_map (messages : List Message) :
    deliveries (messages.map .deliver) = messages := by
  unfold deliveries
  rw [List.filterMap_map]
  exact List.filterMap_some

theorem deliveries_ready (n : Nat) : deliveries (List.replicate n .ready) = [] := by
  induction n with
  | zero => rfl
  | succ n ih => exact ih

/-- While only requests arrive, the port listens and only requests wait. -/
theorem listening_run {events : List Event}
    (h : ∀ m ∈ deliveries events, Requests m.frames) {l : List Event} (hl : l <+: events) :
    ∃ frames, Listening (run l) frames ∧ Requests frames := by
  refine Trace.invariant_prefix step id
    (fun p _ => ∃ frames, Listening p frames ∧ Requests frames)
    (fun _ e => ∀ m, e = .deliver m → Requests m.frames) (fun p _ e hp he => ?_)
    ⟨[], listening_opened.1, trivial⟩ (fun l e hle m hm => ?_) hl
  · obtain ⟨frames, hlisten, hreq⟩ := hp
    cases e with
    | deliver m => exact ⟨_, hlisten.deliver m, (hreq.append (he m rfl)).1⟩
    | ready =>
      match frames, hreq with
      | [], _ => exact ⟨[], hlisten.ready_nil.1, trivial⟩
      | id :: delimiter :: data :: frames, ⟨⟨hid, hdelimiter⟩, hrest⟩ =>
        subst hdelimiter
        exact ⟨frames, (hlisten.ready_request hid).1, hrest⟩
  · subst hm
    refine h m (List.mem_filterMap.mpr ⟨.deliver m, hle.subset ?_, rfl⟩)
    exact List.mem_append_right l (List.mem_singleton.mpr rfl)

/-- **When the port stays usable.** Let messages arrive, interleaved with completions in any way.
After every event the next read is registered and a request that arrives then is handed over in the
end, for all interleavings, exactly when each message consists of requests: triples of a non-empty
frame, an empty one and one more. -/
theorem stays_armed_iff (messages : List Message) :
    (∀ events, deliveries events = messages → ∀ l, l <+: events →
      (run l).Armed ∧ ∀ id data, id ≠ [] → ∃ n before,
        (run (l ++ .deliver ⟨id, [[], data]⟩ :: List.replicate n .ready)).handed =
          (run l).handed ++ before ++ [(id, data)]) ↔
      ∀ m ∈ messages, Requests m.frames := by
  constructor
  · intro h
    -- the first `k` messages at once, then as many completions as there are frames
    have htake : ∀ k, Requests ((messages.take k).flatMap Message.frames) := by
      intro k
      have hlisten := listening_opened.1.deliverAll (messages.take k)
      rw [List.nil_append] at hlisten
      refine hlisten.requests_of_armed (Nat.le_refl _) ?_
      rw [← Trace.final_append]
      refine (h (((messages.take k).map .deliver ++ List.replicate _ .ready) ++
        (messages.drop k).map .deliver) ?_ _ (List.prefix_append _ _)).1
      rw [deliveries, List.filterMap_append, List.filterMap_append]
      show deliveries _ ++ deliveries _ ++ deliveries _ = _
      rw [deliveries_map, deliveries_map, deliveries_ready, List.append_nil, List.take_append_drop]
    intro m hm
    obtain ⟨k, hk, rfl⟩ := List.mem_iff_getElem.mp hm
    have hsucc := htake (k + 1)
    rw [List.take_add_one, List.getElem?_eq_getElem hk, List.flatMap_append] at hsucc
    have hframes := (htake k).of_append hsucc
    rwa [Option.toList_some, List.flatMap_singleton] at hframes
  · rintro h events rfl l hl
    obtain ⟨frames, hlisten, hreq⟩ := listening_run h hl
    refine ⟨hlisten.armed, fun id data hid => ?_⟩
    obtain ⟨happend, hrequests⟩ :=
      hreq.append (show Requests [id, [], data] from ⟨⟨hid, rfl⟩, trivial⟩)
    obtain ⟨_, hhanded⟩ := (hlisten.deliver ⟨id, [[], data]⟩).drain happend
    refine ⟨(requests (frames ++ [id, [], data])).length, requests frames, ?_⟩
    rw [run, Trace.final_append]
    refine hhanded.trans ?_
    rw [show Message.frames ⟨id, [[], data]⟩ = [id, [], data] from rfl, hrequests,
      ← List.append_assoc]
    rfl

/-- A client that sends a frame where the empty one should be. -/
def stray : Message := ⟨[1], [[2]]⟩

/-- After it nothing is handed over, whoever sends what. -/
theorem stray_disables_port :
    ¬ (run [.deliver stray, .ready]).Armed ∧
      ∀ events, (run ([.deliver stray, .ready] ++ events)).handed = [] := by
  have hlisten : Listening (opened.step (.deliver stray)) [[1], [2]] :=
    listening_opened.1.deliver stray
  obtain ⟨hdeaf, hhanded⟩ := hlisten.ready_of_not_reads fun hreads => hreads
  refine ⟨hdeaf.not_armed, fun events => ?_⟩
  obtain ⟨_, hsame⟩ := hdeaf.run events
  exact hsame.trans (hhanded.trans listening_opened.2)

end ApiPort

end Fluffycoin.Svc
