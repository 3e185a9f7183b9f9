import Fluffycoin.Zmq.Sending

/-!
# `zmq::Subscriber`

Model of `src/zmq/Subscriber.cpp`. A SUB socket holds the frames that can be read and the topics it
is subscribed to. ZMQ takes a message over from the publisher as a whole, and only if its first
frame starts with one of the topics (`deliver`); `recv` reads two frames, the topic and the data.
As in `Server`, the only error of `zmq_recvmsg` that is modelled is `EAGAIN`.

`recv_eq` says what a call does on a socket that is connected and subscribed.
-/

namespace Fluffycoin.Zmq

structure SubSocket where
  frames : List Bytes := []
  topics : List Bytes := []
  deriving DecidableEq, Repr

/-- `zmq::Subscriber`. -/
structure Subscriber where
  socket : Option SubSocket := none
  subscribed : Bool := false
  deriving DecidableEq, Repr

/-- One of the topics is a beginning of the first frame of a message. -/
def wants (topics : List Bytes) : List Bytes → Bool
  | [] => false
  | topic :: _ => topics.any (·.isPrefixOf topic)

namespace Subscriber

/-- `Subscriber::close`. -/
def close (s : Subscriber) : Subscriber :=
  match s.socket with
  | none => s
  | some _ => {}

/-- `Subscriber::connect`, with the details `connectSocket` left. -/
def connect (s : Subscriber) (details : Details) : Details × Subscriber :=
  (details, if details.isOk then { s.close with socket := some {} } else s.close)

/-- `Subscriber::subscribe`; `refused` is the text of `Errno::error()` if `zmq_setsockopt` fails. -/
def subscribe (s : Subscriber) (topic : Bytes) (refused : Option String) (details : Details) :
    Details × Subscriber :=
  match s.socket with
  | none => (details.setError .notConnected "zmq_subscribe" "Not connected.", s)
  | some socket =>
    if !details.isOk then (details, s)
    else match refused with
      | some errno =>
        (details.setError .writeError "zmq_subscribe"
          ("Failed to subscribe to topic '" ++ Publisher.topicText topic ++ "': " ++ errno ++ "."),
          s)
      | none =>
        (details, { socket := some { socket with topics := socket.topics ++ [topic] }
                    subscribed := true })

/-- `Subscriber::recv`: topic and data of an event, if there was one. -/
def recv (s : Subscriber) (details : Details) : Option (Bytes × Bytes) × Details × Subscriber :=
  let details :=
    if s.socket.isNone then details.setError .notConnected "zmq_event" "Not connected."
    else details
  let details :=
    if !s.subscribed then details.setError .internalError "zmq_event" "Not subscribed."
    else details
  match s.socket with
  | none => (none, details, s)
  | some socket =>
    if !details.isOk then (none, details, s)
    else
      match recvmsg socket.frames with
      | (none, _) => (none, details, s)
      | (some topic, frames) =>
        match recvmsg frames with
        | (none, frames) =>
          (none, details.setError .readError "zmq_event"
            ("Error while reading subscription from server: " ++ errnoError ++ "."),
            { s with socket := some { socket with frames } })
        | (some data, frames) =>
          (some (topic, data), details, { s with socket := some { socket with frames } })

/-- A message of the publisher arrives. -/
def deliver (s : Subscriber) (m : List Bytes) : Subscriber :=
  { s with socket := s.socket.map fun socket =>
      if wants socket.topics m then { socket with frames := socket.frames ++ m } else socket }

/-- Connected and subscribed. -/
def on (frames topics : List Bytes) : Subscriber := ⟨some ⟨frames, topics⟩, true⟩

/-- The next two frames, and what is behind them. -/
def next : List Bytes → Option (Bytes × Bytes) × List Bytes
  | topic :: data :: frames => (some (topic, data), frames)
  | _ => (none, [])

/-- **A call takes two frames**, or as many as there are; a single one is an error. -/
theorem recv_eq {details : Details} (hok : details.isOk = true) (frames topics : List Bytes) :
    ∃ details', details'.isOk = decide (frames.length ≠ 1) ∧
      (frames.length ≠ 1 → details' = details) ∧
      (on frames topics).recv details = ((next frames).1, details', on (next frames).2 topics) := by
  rcases frames with _ | ⟨topic, _ | ⟨data, frames⟩⟩
  · exact ⟨details, hok, fun _ => rfl, by simp [recv, on, recvmsg, next, hok]⟩
  · refine ⟨details.setError .readError "zmq_event"
      ("Error while reading subscription from server: " ++ errnoError ++ "."), ?_, ?_, ?_⟩
    · simp [Details.isOk_setError]
    · exact fun h => absurd rfl h
    · simp [recv, on, recvmsg, next, hok]
  · exact ⟨details, by simp [hok], fun _ => rfl, by simp [recv, on, recvmsg, next, hok]⟩

theorem deliver_on (frames topics m : List Bytes) :
    (on frames topics).deliver m = on (frames ++ if wants topics m then m else []) topics := by
  by_cases h : wants topics m = true <;> simp [deliver, on, h]

end Subscriber

end Fluffycoin.Zmq
