import Fluffycoin.Async.UncontrolledSocket
import Fluffycoin.Svc.EventSubscriptionMap
import Fluffycoin.Zmq.Subscriber

/-!
# The read loop of a subscription

Model of `queueRead` and `EventProcessor::startListening` (`src/svc/events/EventProcessor.cpp`):
whenever the descriptor of a SUB socket gets ready, one event is received, `dispatch` finds its
handler, which is posted with the envelope, and the next read is registered. `posted` lists the
handlers, in the order in which they were posted.

Unlike `ApiPort::read`, the callback registers the next read with details of its own, whatever
became of the event. So a subscription goes on for good (`Listening.ready`), and what is posted for
an event depends on that event alone (`handled`).

The first call is made while the subscription is set up, on the details of the setup. An event that
is there already and cannot be handled then makes the setup fail (`startListening_isSome_iff`).

`parse` is `JsonStringToMessage`, with the text of its status.
-/

namespace Fluffycoin.Svc

open Fluffycoin.Async Fluffycoin.Zmq

/-- A frame as a `std::string`. -/
def text (frame : Bytes) : List Char := frame.map Char.ofUInt8

@[simp] theorem text_eq_nil_iff {frame : Bytes} : text frame = [] ↔ frame = [] :=
  List.map_eq_nil_iff

section Parse

variable {E : Type} [Inhabited E] (parse : Bytes → Except String E)

/-- `pb::Json::fromJson`. -/
def fromJson (data : Bytes) (details : Details) : E × Details :=
  match parse data with
  | .ok envelope => (envelope, details)
  | .error status =>
    (default, details.setError .invalidMessageFormat "json" ("Failed to parse message: " ++ status))

end Parse

/-- `EventProcessor::SubSocket`, and what its callback has posted. -/
structure Listener (H E : Type) where
  subscriber : Subscriber := {}
  socket : UncontrolledSocket Unit := {}
  posted : List (H × E) := []

namespace Listener

variable {H E : Type} [Inhabited E] (getHandler : List Char → Option H)
  (parse : Bytes → Except String E)

/-- What becomes of what was received. -/
def outcome (event : Option (Bytes × Bytes)) (details : Details) : Option (H × E) × Details :=
  dispatch getHandler (fromJson parse) (event.map fun e => (text e.1, e.2)) details

/-- The callback of `queueRead`. The call `UncontrolledSocket::read` makes at once is its last
act. -/
def callback (l : Listener H E) (details : Details) : Details × Listener H E :=
  -- Socket closing
  if hok : details.isOk = true then
    let r := l.subscriber.recv details
    let d := outcome getHandler parse r.1 r.2.1
    let l' := { l with subscriber := r.2.2, posted := l.posted ++ d.1.toList }
    -- Requeue the socket read
    match hread : l'.socket.read {} () with
    | (none, socket) => (d.2, { l' with socket })
    | (some qDetails, socket) =>
      have : socket.rank qDetails < l.socket.rank details :=
        (UncontrolledSocket.rank_read rfl hread).trans_eq (UncontrolledSocket.rank_eq rfl hok)
      (d.2, (callback { l' with socket } qDetails).2)
  else (details, l)
termination_by l.socket.rank details

def queueRead (l : Listener H E) (details : Details) : Details × Listener H E :=
  match l.socket.read details () with
  | (none, socket) => (details, { l with socket })
  | (some details, socket) => callback getHandler parse { l with socket } details

/-- `EventProcessor::startListening`. -/
def startListening (subscriber : Subscriber) (details : Details) :
    Details × Option (Listener H E) :=
  if details.isOk then
    let r := queueRead getHandler parse { subscriber, socket := .ofFd } details
    (r.1, if r.1.isOk then some r.2 else none)
  else (details, none)

/-- The descriptor gets ready. -/
def ready (l : Listener H E) : Listener H E :=
  match l.socket.complete with
  | (none, socket) => { l with socket }
  | (some ((), details), socket) => (callback getHandler parse { l with socket } details).2

/-- A message of the publisher arrives. -/
def deliver (l : Listener H E) (m : List Bytes) : Listener H E :=
  { l with subscriber := l.subscriber.deliver m }

/-! ## One event -/

/-- What is posted for an event. -/
def handled (event : Bytes × Bytes) : Option (H × E) :=
  if event.1 = [] ∨ event.2 = [] then none
  else match parse event.2 with
    | .ok envelope => (getHandler (text event.1)).map (·, envelope)
    | .error _ => none

variable {getHandler parse}

/-- What is posted does not depend on the details, and without it there is an error. -/
theorem outcome_some {details : Details} (hok : details.isOk = true) (event : Bytes × Bytes) :
    (outcome getHandler parse (some event) details).1 = handled getHandler parse event ∧
      (outcome getHandler parse (some event) details).2.isOk =
        (handled getHandler parse event).isSome := by
  obtain ⟨topic, data⟩ := event
  by_cases hdata : data = []
  · simp [outcome, dispatch, handled, hok, hdata, Details.isOk_setError]
  by_cases htopic : topic = []
  · simp [outcome, dispatch, handled, hok, hdata, htopic, Details.isOk_setError]
  cases hparse : parse data with
  | error status =>
    simp [outcome, dispatch, handled, hok, hdata, htopic, fromJson, hparse, Details.isOk_setError]
  | ok envelope =>
    cases hhandler : getHandler (text topic) with
    | none =>
      simp [outcome, dispatch, handled, hok, hdata, htopic, fromJson, hparse, hhandler,
        Details.isOk_setError]
    | some handler =>
      simp [outcome, dispatch, handled, hok, hdata, htopic, fromJson, hparse, hhandler]

variable (getHandler parse) in
/-- What is posted for what is received from a socket. -/
theorem outcome_recv {details : Details} (hok : details.isOk = true) (frames topics : List Bytes) :
    (outcome getHandler parse ((Subscriber.on frames topics).recv details).1
        ((Subscriber.on frames topics).recv details).2.1).1 =
      (Subscriber.next frames).1.bind (handled getHandler parse) := by
  obtain ⟨details', -, hsame, hrecv⟩ := Subscriber.recv_eq hok frames topics
  rw [hrecv]
  rcases frames with _ | ⟨topic, _ | ⟨data, frames⟩⟩
  · rfl
  · rfl
  · rw [hsame (by simp)]
    exact (outcome_some hok (topic, data)).1

/-- One call of the callback on an idle socket. -/
theorem callback_of_idle {l : Listener H E} (h : l.socket.Idle) {details : Details}
    (hok : details.isOk = true) :
    callback getHandler parse l details =
      let r := l.subscriber.recv details
      let d := outcome getHandler parse r.1 r.2.1
      (d.2,
        { subscriber := r.2.2
          socket := { l.socket with pendingDetails := {}, callback := some () }
          posted := l.posted ++ d.1.toList }) := by
  rw [callback]
  simp only [hok, dif_pos]
  split
  · rename_i socket hread
    rw [h.read] at hread
    cases hread
    rfl
  · rename_i details' socket hread
    rw [h.read] at hread
    cases hread

/-- A read is registered on an idle socket, with these frames to receive and these topics. -/
structure Listening (l : Listener H E) (frames topics : List Bytes) : Prop where
  socket : l.socket.Idle
  callback : l.socket.callback = some ()
  subscriber : l.subscriber = .on frames topics

variable {l : Listener H E} {frames topics : List Bytes}

omit [Inhabited E] in
theorem Listening.deliver (h : Listening l frames topics) (m : List Bytes) :
    Listening (l.deliver m) (frames ++ if wants topics m then m else []) topics :=
  ⟨h.socket, h.callback, by rw [Listener.deliver, h.subscriber, Subscriber.deliver_on]⟩

variable (getHandler parse) in
/-- **A subscription goes on.** Whatever the next event is, it is taken, what it asks for is posted,
and the next read is registered. -/
theorem Listening.ready (h : Listening l frames topics) :
    Listening (l.ready getHandler parse) (Subscriber.next frames).2 topics ∧
      (l.ready getHandler parse).posted =
        l.posted ++ ((Subscriber.next frames).1.bind (handled getHandler parse)).toList := by
  obtain ⟨details, socket, hcomplete, hok, hidle, -⟩ := h.socket.complete h.callback
  obtain ⟨details', -, -, hrecv⟩ := Subscriber.recv_eq hok frames topics
  have hready : l.ready getHandler parse =
      (Listener.callback getHandler parse { l with socket } details).2 := by
    simp only [Listener.ready, hcomplete]
  have houtcome := outcome_recv getHandler parse hok frames topics
  rw [hready, callback_of_idle hidle hok]
  simp only [h.subscriber]
  rw [houtcome, hrecv]
  exact ⟨⟨hidle.park rfl (), rfl, rfl⟩, rfl⟩

/-! ## The setup -/

theorem isOk_startListening (subscriber : Subscriber) (details : Details) :
    (startListening getHandler parse subscriber details).1.isOk =
      (startListening getHandler parse subscriber details).2.isSome := by
  simp only [startListening]
  split
  · split
    · rename_i h
      exact h
    · rename_i h
      exact Bool.eq_false_iff.mpr h
  · rename_i h
    exact Bool.eq_false_iff.mpr h

theorem startListening_eq {details : Details} (hok : details.isOk = true) :
    startListening getHandler parse (.on frames topics) details =
      let r := (Subscriber.on frames topics).recv details
      let d := outcome getHandler parse r.1 r.2.1
      (d.2, if d.2.isOk then some
        { subscriber := r.2.2
          socket := { isOpen := true, queued := true, wait := some {}, callback := some () }
          posted := d.1.toList }
        else none) := by
  have hidle : UncontrolledSocket.Idle
      ({ isOpen := true, queued := true, wait := some {} } : UncontrolledSocket Unit) :=
    ⟨rfl, rfl, rfl, rfl, {}, rfl, rfl⟩
  have hqueue : queueRead getHandler parse { subscriber := .on frames topics, socket := .ofFd }
      details = callback getHandler parse
        { subscriber := .on frames topics
          socket := { isOpen := true, queued := true, wait := some {} } } details := rfl
  rw [startListening, if_pos hok, hqueue, callback_of_idle hidle hok]
  rfl

/-- **When a subscription can be set up**: nothing is there yet, or an event that can be
handled. -/
theorem startListening_isSome_iff {details : Details} (hok : details.isOk = true) :
    (startListening getHandler parse (.on frames topics) details).2.isSome ↔
      frames = [] ∨ ∃ event ∈ (Subscriber.next frames).1,
        (handled getHandler parse event).isSome := by
  obtain ⟨details', hlength, hsame, hrecv⟩ := Subscriber.recv_eq hok frames topics
  rw [startListening_eq hok, hrecv]
  rcases frames with _ | ⟨topic, _ | ⟨data, frames⟩⟩
  · rw [hsame (by simp)]
    simp [outcome, dispatch, hok, Subscriber.next]
  · simp [outcome, dispatch, hlength, Subscriber.next]
  · rw [hsame (by simp)]
    simp [Subscriber.next, (outcome_some hok (topic, data)).2]

theorem listening_of_startListening {details : Details} (hok : details.isOk = true)
    (h : (startListening getHandler parse (.on frames topics) details).2 = some l) :
    Listening l (Subscriber.next frames).2 topics ∧
      l.posted = ((Subscriber.next frames).1.bind (handled getHandler parse)).toList := by
  obtain ⟨details', -, -, hrecv⟩ := Subscriber.recv_eq hok frames topics
  rw [startListening_eq hok] at h
  have houtcome := outcome_recv getHandler parse hok frames topics
  obtain ⟨-, hl⟩ := Option.ite_none_right_eq_some.mp h
  obtain rfl := Option.some.inj hl
  rw [← houtcome]
  exact ⟨⟨⟨rfl, rfl, rfl, rfl, {}, rfl, rfl⟩, rfl, by rw [hrecv]⟩, rfl⟩

end Listener

end Fluffycoin.Svc
