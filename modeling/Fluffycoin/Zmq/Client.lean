import Fluffycoin.Zmq.Server

/-!
# `zmq::Client`

Model of `src/zmq/Client.cpp`. A REQ socket sends a request, then reads the reply, and so on in
turns; what is not its turn fails with `EFSM`. It puts an empty frame before the data of a request
and takes it off a reply; a message without one is dropped. A new request drops the replies that
were not read.

Any error closes the socket, also one that was in the details before the call.
-/

namespace Fluffycoin.Zmq

/-- A REQ socket: whether the reply is due, and the replies that can be read. -/
structure ReqSocket where
  waiting : Bool := false
  inbox : List Bytes := []
  deriving DecidableEq, Repr

/-- `zmq::Client`. -/
structure Client where
  socket : Option ReqSocket := none
  deriving DecidableEq, Repr

/-- `Errno::error()` after `EFSM`. -/
def efsmError : String := "Error number 156384763"

namespace Client

/-- `Client::connect`, with the details `connectSocket` left. -/
def connect (details : Details) : Details × Client :=
  (details, ⟨if details.isOk then some {} else none⟩)

/-- `Client::send`: whether the request is under way. When it is the socket's turn, `ret` is what
`zmq_send` returns, `none` for -1, and `errno` is then the text of `Errno::error()`. -/
def send (c : Client) (data : Bytes) (ret : Option Nat) (errno : String) (details : Details) :
    Bool × Details × Client :=
  match c.socket with
  | none => (false, details.setError .notConnected "zmq_send" "Not connected to server.", {})
  | some socket =>
    if !details.isOk then (false, details, {})
    else if socket.waiting then
      (false, details.setError .writeError "zmq_send"
        ("Failed to request to server: " ++ efsmError ++ "."), {})
    else match ret with
      | none =>
        (false, details.setError .writeError "zmq_send"
          ("Failed to request to server: " ++ errno ++ "."), {})
      | some ret =>
        if ret ≠ data.length then
          -- the socket has taken the request all the same
          (true, details.setError .writeError "zmq_send"
            ("Failed to send full request (" ++ toString ret ++ "/" ++ toString data.length ++
              " bytes sent)."), {})
        else (true, details, ⟨some { waiting := true }⟩)

/-- `Client::recv`: the reply, if there is one. -/
def recv (c : Client) (details : Details) : Option Bytes × Details × Client :=
  match c.socket with
  | none => (none, details.setError .notConnected "zmq_recv" "Not connected to server.", {})
  | some socket =>
    if !details.isOk then (none, details, {})
    else if !socket.waiting then
      (none, details.setError .readError "zmq_recv"
        ("Error while reading response from server: " ++ efsmError ++ "."), {})
    else match socket.inbox with
      | [] => (none, details, c)
      | data :: inbox => (some data, details, ⟨some { inbox }⟩)

/-- A message of the server arrives. -/
def deliver (c : Client) : List Bytes → Client
  | [[], data] =>
    ⟨c.socket.map fun socket => { socket with inbox := socket.inbox ++ [data] }⟩
  | _ => c

/-- The replies that can be read. -/
def inbox (c : Client) : List Bytes := (c.socket.map ReqSocket.inbox).getD []

variable {c : Client}

/-- **What `send` can do**: close the socket without a request, or send one when it is the socket's
turn, and then wait or close. -/
theorem send_cases (c : Client) (data : Bytes) (ret : Option Nat) (errno : String)
    (details : Details) :
    ((c.send data ret errno details).1 = false ∧ (c.send data ret errno details).2.2 = {}) ∨
      ∃ inbox, c = ⟨some { inbox }⟩ ∧ (c.send data ret errno details).1 = true ∧
        ((c.send data ret errno details).2.2 = {} ∨
          (c.send data ret errno details).2.2 = ⟨some { waiting := true }⟩) := by
  obtain ⟨_ | ⟨waiting, inbox⟩⟩ := c
  · exact .inl ⟨rfl, rfl⟩
  · cases hok : details.isOk with
    | false => simp [send, hok]
    | true =>
      cases waiting with
      | true => simp [send, hok]
      | false =>
        cases ret with
        | none => simp [send, hok]
        | some ret =>
          refine .inr ⟨inbox, rfl, ?_⟩
          by_cases hret : ret = data.length <;> simp [send, hok, hret]

/-- **What `recv` can do**: close the socket, find nothing, or take the next reply. -/
theorem recv_cases (c : Client) (details : Details) :
    ((c.recv details).1 = none ∧ ((c.recv details).2.2 = {} ∨ (c.recv details).2.2 = c)) ∨
      ∃ data inbox, c = ⟨some ⟨true, data :: inbox⟩⟩ ∧ (c.recv details).1 = some data ∧
        (c.recv details).2.2 = ⟨some { inbox }⟩ := by
  obtain ⟨_ | ⟨waiting, inbox⟩⟩ := c
  · exact .inl ⟨rfl, .inl rfl⟩
  · cases hok : details.isOk with
    | false => simp [recv, hok]
    | true =>
      cases waiting with
      | false => simp [recv, hok]
      | true => cases inbox <;> simp [recv, hok]

end Client

end Fluffycoin.Zmq
