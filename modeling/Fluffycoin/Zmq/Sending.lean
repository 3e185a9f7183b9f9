import Fluffycoin.Utils.Multipart
import Fluffycoin.Zmq.Server

/-!
# Sending replies and events

Model of `Server::reply` (`src/zmq/Server.cpp:177-254`) and `Publisher::publish`
(`src/zmq/Publisher.cpp:93-166`). Both hand a message to the socket frame by frame: a reply is the
client's id, an empty frame and the data, an event is the topic and the data. Each frame can be
refused, and `zmq_send` can return another length than that of the frame; either is reported, and
the frames after it are not sent. Empty frames are then sent in their place, so that the message is
complete all the same, and a refusal of one of those is only logged.

The sending half of a socket is an `Outbox` of frames. What `zmq_send` returns is an input, for each
frame of each message.

## Results

* `sendMessage_eq`: what is left on the socket depends on the number of frames taken, what is
  reported on the first one that was not taken well.
* `Server.replies_apart_iff`, `Publisher.events_apart_iff`: over any number of calls, each call
  leaves one message of the right length or none, exactly if no empty frame is ever refused.
* `Server.reply_joined`: otherwise the frames of two calls can make one message, and a reply goes to
  the client of the call before.
-/

namespace Fluffycoin.Zmq

open Multipart (Outbox Send)

/-- What `zmq_send` returns for the frames of a message, counted from the first, and for the empty
ones that complete it, by the number of frames to follow; `none` is -1, and `errno` is then the
text of `Errno::error()`. -/
structure Sends where
  send : Nat → Option Nat
  fill : Nat → Option Nat
  errno : String

/-- An error to report. -/
structure Report where
  code : ErrorCode
  field : String
  text : String
  text_ne : text ≠ ""

def Report.set (report : Report) (details : Details) : Details :=
  details.setError report.code report.field report.text

@[simp] theorem Report.isOk_set (report : Report) (details : Details) :
    (report.set details).isOk = false := by
  rw [set, Details.isOk_setError]
  exact decide_eq_false report.text_ne

/-- A frame, what is reported if it is refused, and what is reported of a length returned for it. -/
structure Frame where
  data : Bytes
  refused : Report
  complaint : Nat → Option Report

/-- `static_cast<size_t>(ret) != size`. -/
def lengthCheck (data : Bytes) (report : Nat → Report) (ret : Nat) : Option Report :=
  if ret = data.length then none else some (report ret)

/-- The frames of a message, up to the first error: how many were taken, the socket, the errors. -/
def sendFrames (sends : Sends) : List Frame → Nat → Outbox Bytes → Details →
    Nat × Outbox Bytes × Details
  | [], sent, o, details => (sent, o, details)
  | frame :: frames, sent, o, details =>
    match sends.send sent with
    | none => (sent, o, frame.refused.set details)
    | some ret =>
      let o := o.push frame.data (!frames.isEmpty)
      match frame.complaint ret with
      | some report => (sent + 1, o, report.set details)
      | none => sendFrames sends frames (sent + 1) o details

/-- A message: its frames, then the ones that are missing if it was begun. -/
def sendMessage (frames : List Frame) (sends : Sends) (o : Outbox Bytes) (details : Details) :
    Details × Outbox Bytes :=
  let (sent, o, details) := sendFrames sends frames 0 o details
  let missing := if sent = 0 then 0 else frames.length - sent
  (details, o.fill [] (fun k => (sends.fill k).isSome) missing)

/-- What is found wrong with the arguments. -/
def invalidInput : List (Bool × Report) → Option Report
  | [] => none
  | (wrong, report) :: checks => if wrong then some report else invalidInput checks

/-- A call that sends one message: what it reports without a socket, how it checks its arguments,
and the frames. -/
structure Call where
  unbound : Report
  checks : List (Bool × Report)
  frames : List Frame
  sends : Sends
  details : Details

def Call.run (socket : Option (Outbox Bytes)) (c : Call) : Details × Option (Outbox Bytes) :=
  match socket with
  | none => (c.unbound.set c.details, none)
  | some o =>
    if !c.details.isOk then (c.details, some o)
    else match invalidInput c.checks with
      | some report => (report.set c.details, some o)
      | none =>
        let (details, o) := sendMessage c.frames c.sends o c.details
        (details, some o)

namespace Server

/-- The frames of a reply. -/
def replyFrames (client : ClientId) (data : Bytes) (errno : String) : List Frame :=
  [{ data := client
     refused := ⟨.writeError, "zmq_reply", "Failed to send reply client ID: " ++ errno ++ ".",
       by simp⟩
     complaint := lengthCheck client fun ret => ⟨.writeError, "zmq_reply",
       "Failed to send full client ID (" ++ toString ret ++ "/" ++ toString client.length ++
         " bytes sent).", by simp⟩ },
   { data := []
     refused := ⟨.writeError, "zmq_reply", "Failed to send delimiter frame: " ++ errno ++ ".",
       by simp⟩
     -- a length other than 0 is only logged
     complaint := fun _ => none },
   { data := data
     refused := ⟨.writeError, "zmq_reply", "Failed to send reply: " ++ errno ++ ".", by simp⟩
     complaint := lengthCheck data fun ret => ⟨.writeError, "zmq_reply",
       "Failed to send full reply (" ++ toString ret ++ "/" ++ toString data.length ++
         " bytes sent).", by simp⟩ }]

/-- A call of `reply`. -/
structure ReplyCall where
  client : ClientId
  data : Bytes
  sends : Sends
  details : Details

def ReplyCall.toCall (c : ReplyCall) : Call where
  unbound := ⟨.notConnected, "zmq_reply", "No server socket.", by simp⟩
  checks := [(c.client.isEmpty,
    ⟨.internalError, "zmq_reply_clientid", "No client ID provided.", by simp⟩)]
  frames := replyFrames c.client c.data c.sends.errno
  sends := c.sends
  details := c.details

/-- `Server::reply`, on the sending half of the socket. -/
def reply (socket : Option (Outbox Bytes)) (c : ReplyCall) : Details × Option (Outbox Bytes) :=
  c.toCall.run socket

end Server

namespace Publisher

/-- A topic in an error text. -/
def topicText (topic : Bytes) : String := String.ofList (topic.map Char.ofUInt8)

/-- The frames of an event. -/
def eventFrames (topic data : Bytes) (errno : String) : List Frame :=
  [{ data := topic
     refused := ⟨.writeError, "zmq_publish",
       "Failed to publish topic '" ++ topicText topic ++ "': " ++ errno ++ ".", by simp⟩
     complaint := lengthCheck topic fun ret => ⟨.writeError, "zmq_topic",
       "Failed to send full topic '" ++ topicText topic ++ "' (" ++ toString ret ++ "/" ++
         toString topic.length ++ " bytes sent).", by simp⟩ },
   { data := data
     refused := ⟨.writeError, "zmq_publish",
       "Failed to send event '" ++ topicText topic ++ "': " ++ errno ++ ".", by simp⟩
     complaint := lengthCheck data fun ret => ⟨.writeError, "zmq_publish",
       "Failed to send full event '" ++ topicText topic ++ "' (" ++ toString ret ++ "/" ++
         toString data.length ++ " bytes sent).", by simp⟩ }]

/-- A call of `publish`. -/
structure PublishCall where
  topic : Bytes
  data : Bytes
  sends : Sends
  details : Details

def PublishCall.toCall (c : PublishCall) : Call where
  unbound := ⟨.notConnected, "zmq_publish", "No event socket.", by simp⟩
  checks := [(c.topic.isEmpty, ⟨.internalError, "zmq_publish", "Empty topic.", by simp⟩),
    (c.data.isEmpty, ⟨.internalError, "zmq_publish", "No event data.", by simp⟩)]
  frames := eventFrames c.topic c.data c.sends.errno
  sends := c.sends
  details := c.details

/-- `Publisher::publish`, on the socket. -/
def publish (socket : Option (Outbox Bytes)) (c : PublishCall) :
    Details × Option (Outbox Bytes) :=
  c.toCall.run socket

end Publisher

/-! ## One message -/

section Message

variable (sends : Sends)

/-- How many frames are taken, the ones before being `sent`. -/
def sentCount : List Frame → Nat → Nat
  | [], _ => 0
  | frame :: frames, sent =>
    match sends.send sent with
    | none => 0
    | some ret => if (frame.complaint ret).isSome then 1 else sentCount frames (sent + 1) + 1

/-- What is reported. -/
def report : List Frame → Nat → Option Report
  | [], _ => none
  | frame :: frames, sent =>
    match sends.send sent with
    | none => some frame.refused
    | some ret => (frame.complaint ret).or (report frames (sent + 1))

/-- The errors after a message. -/
def reported (frames : List Frame) (sent : Nat) (details : Details) : Details :=
  ((report sends frames sent).map fun report => report.set details).getD details

variable {sends}

theorem sentCount_le (frames : List Frame) (sent : Nat) :
    sentCount sends frames sent ≤ frames.length := by
  induction frames generalizing sent with
  | nil => exact Nat.le_refl 0
  | cons frame frames ih =>
    rw [sentCount, List.length_cons]
    cases sends.send sent with
    | none => exact Nat.zero_le _
    | some ret =>
      dsimp only
      split
      · exact Nat.le_add_left 1 _
      · exact Nat.succ_le_succ (ih (sent + 1))

theorem sendFrames_eq (frames : List Frame) (sent : Nat) (o : Outbox Bytes) (details : Details) :
    sendFrames sends frames sent o details =
      (sent + sentCount sends frames sent,
        o.pushFirst (sentCount sends frames sent) (frames.map Frame.data),
        reported sends frames sent details) := by
  induction frames generalizing sent o with
  | nil => rfl
  | cons frame frames ih =>
    rw [sendFrames, sentCount, reported, report]
    cases sends.send sent with
    | none => rfl
    | some ret =>
      dsimp only
      cases frame.complaint ret with
      | some report => simp [Outbox.pushFirst]
      | none =>
        dsimp only
        rw [ih, Nat.add_assoc, Nat.add_comm 1]
        simp [Outbox.pushFirst, reported]

/-- **What a message leaves on the socket and in the errors.** -/
theorem sendMessage_eq (frames : List Frame) (o : Outbox Bytes) (details : Details) :
    sendMessage frames sends o details =
      (reported sends frames 0 details,
        o.send (frames.map Frame.data) (sentCount sends frames 0) []
          fun k => (sends.fill k).isSome) := by
  rw [sendMessage, sendFrames_eq]
  dsimp only
  rw [Nat.zero_add, Outbox.send, List.length_map]
  split
  · rename_i h
    rw [h]
    cases frames <;> rfl
  · rfl

/-- Without an error all frames are taken. -/
theorem sentCount_of_isOk {frames : List Frame} {sent : Nat} {details : Details}
    (h : (reported sends frames sent details).isOk = true) :
    sentCount sends frames sent = frames.length := by
  induction frames generalizing sent with
  | nil => rfl
  | cons frame frames ih =>
    rw [reported, report] at h
    rw [sentCount]
    cases hsend : sends.send sent with
    | none => simp [hsend] at h
    | some ret =>
      rw [hsend] at h
      cases hcomplaint : frame.complaint ret with
      | some report => simp [hcomplaint] at h
      | none =>
        simp only [hcomplaint, Option.none_or] at h
        simp [hcomplaint, ih h]

end Message

/-! ## Calls one after the other -/

namespace Call

variable (c : Call)

/-- The frames the call is to send. -/
def parts : List Bytes := c.frames.map Frame.data

/-- How many of them are taken. -/
def sent : Nat :=
  if c.details.isOk && (invalidInput c.checks).isNone then sentCount c.sends c.frames 0 else 0

theorem sent_le : c.sent ≤ c.parts.length := by
  rw [parts, List.length_map]
  unfold sent
  split
  · exact sentCount_le c.frames 0
  · exact Nat.zero_le _

/-- The call as its message and what is taken of it. -/
def toSend : Send Bytes where
  frames := c.parts
  n := c.sent
  n_le := c.sent_le
  takes k := (c.sends.fill k).isSome

/-- The message that is to come of the call. -/
def message : Option (List Bytes) := c.toSend.message []

/-- No frame that completes the message is refused. -/
def Completed : Prop := c.toSend.Filled

theorem run_socket (o : Outbox Bytes) : (c.run (some o)).2 = some (c.toSend.step [] o) := by
  simp only [run, Send.step, toSend, sent, parts]
  by_cases hok : c.details.isOk = true
  · cases hinput : invalidInput c.checks with
    | some report => simp [hok, Outbox.send_zero]
    | none => simp [hok, sendMessage_eq]
  · simp [hok, Outbox.send_zero]

/-- A call after which nothing is left begun. -/
theorem run_of_completed {c : Call} (h : c.Completed) (messages : List (List Bytes)) :
    (c.run (some { messages })).2 = some { messages := messages ++ c.message.toList } := by
  rw [run_socket]
  exact congrArg some ((Send.step_eq_iff [] c.toSend messages).mpr h)

theorem length_message {c : Call} {m : List Bytes} (h : c.message = some m) :
    m.length = c.frames.length := by
  obtain ⟨-, hm⟩ := Option.ite_none_left_eq_some.mp h
  rw [← Option.some.inj hm, Outbox.length_filled c.toSend.n_le]
  exact List.length_map _

theorem sent_of_isOk {c : Call} {socket : Option (Outbox Bytes)}
    (h : (c.run socket).1.isOk = true) : c.sent = c.parts.length := by
  cases socket with
  | none => simp [run] at h
  | some o =>
    by_cases hok : c.details.isOk = true
    · cases hinput : invalidInput c.checks with
      | some report => simp [run, hok, hinput] at h
      | none =>
        simp only [run, hok, hinput, sendMessage_eq] at h
        rw [parts, List.length_map, ← sentCount_of_isOk h, sent, hok, hinput]
        rfl
    · simp [run, hok] at h

/-- What reports no error is on its way. -/
theorem message_of_isOk {c : Call} (hparts : c.parts ≠ []) {socket : Option (Outbox Bytes)}
    (h : (c.run socket).1.isOk = true) : c.message = some c.parts := by
  show (if c.sent = 0 then none else some (Outbox.filled c.parts c.sent [])) = some c.parts
  rw [sent_of_isOk h, if_neg (mt List.length_eq_zero_iff.mp hparts), Outbox.filled_length]

/-- A call that stops in the middle and gets no further leaves its frames to the next one. -/
theorem run_joined {c c' : Call} {o : Outbox Bytes} (hc : c.sent < c.parts.length)
    (hfill : ∀ k, c.sends.fill k = none) (hparts : c'.parts ≠ [])
    (hc' : (c'.run (c.run (some o)).2).1.isOk = true) :
    (c'.run (c.run (some o)).2).2 =
      some { messages := o.messages ++ [o.begun ++ c.parts.take c.sent ++ c'.parts] } := by
  have hleft : (c.run (some o)).2 = some { o with begun := o.begun ++ c.parts.take c.sent } := by
    rw [run_socket]
    exact congrArg some (Outbox.send_of_refuses hc fun k => congrArg Option.isSome (hfill k))
  have hsent : c'.toSend.n = c'.parts.length := sent_of_isOk hc'
  rw [hleft, run_socket, Send.step, hsent]
  exact congrArg some (Outbox.send_length hparts)

section Calls

variable {γ : Type} (toCall : γ → Call)

theorem final_run (calls : List γ) :
    Trace.final (fun socket c => (toCall c).run socket) Prod.snd (some {}) calls =
      some (Send.sendAll [] (calls.map fun c => (toCall c).toSend)) := by
  induction calls using List.reverseRecOn with
  | nil => rfl
  | append_singleton calls c ih =>
    rw [Trace.final_append, ih, Trace.final, Trace.final, run_socket, Send.sendAll, Send.sendAll,
      List.map_append, List.foldl_append]
    rfl

/-- **When the messages of calls stay apart.** -/
theorem apart_iff (calls : List γ) :
    (∀ l, l <+: calls →
        Trace.final (fun socket c => (toCall c).run socket) Prod.snd (some {}) l =
          some { messages := l.filterMap fun c => (toCall c).message }) ↔
      ∀ c ∈ calls, (toCall c).Completed := by
  have hsends := Send.sendAll_apart_iff [] (calls.map fun c => (toCall c).toSend)
  rw [List.forall_mem_map] at hsends
  refine Iff.trans ?_ hsends
  constructor
  · intro h l hl
    obtain ⟨l, hcalls, rfl⟩ := List.prefix_map_iff.mp hl
    have hfinal := h l hcalls
    rw [final_run, Option.some.injEq] at hfinal
    rw [hfinal, List.filterMap_map]
    rfl
  · intro h l hl
    rw [final_run, h _ (hl.map _), List.filterMap_map]
    rfl

end Calls

end Call

/-- **When replies stay apart.** After every call the socket holds one message for each call that
got its first frame through, addressed to the client of that call, and nothing is begun, exactly if
no frame that completes a reply is refused; and a call without an error has sent all of its own. -/
theorem Server.replies_apart_iff (calls : List ReplyCall) :
    ((∀ l, l <+: calls → Trace.final reply Prod.snd (some {}) l =
        some { messages := l.filterMap fun c => c.toCall.message }) ↔
        ∀ c ∈ calls, c.toCall.Completed) ∧
      ∀ c ∈ calls, ∀ socket, (reply socket c).1.isOk = true →
        c.toCall.message = some [c.client, [], c.data] :=
  ⟨Call.apart_iff ReplyCall.toCall calls,
    fun _ _ _ h => Call.message_of_isOk (List.cons_ne_nil _ _) h⟩

/-- **A reply to the wrong client.** If a reply stops after its client's id and nothing more of it
is taken, the next one that reports no error, whoever it is for, is addressed to that client. -/
theorem Server.reply_joined (messages : List (List Bytes)) (c c' : ReplyCall)
    (hc : c.toCall.sent = 1) (hfill : ∀ k, c.sends.fill k = none)
    (hc' : (reply (reply (some { messages }) c).2 c').1.isOk = true) :
    (reply (reply (some { messages }) c).2 c').2 =
      some { messages := messages ++ [[c.client, c'.client, [], c'.data]] } := by
  have hlt : c.toCall.sent < c.toCall.parts.length := by
    rw [hc]
    exact (by decide : 1 < 3)
  have hparts : c'.toCall.parts ≠ [] := List.cons_ne_nil _ _
  have hjoined := Call.run_joined hlt hfill hparts hc'
  rw [hc] at hjoined
  exact hjoined

/-- A reply whose null frame is refused, and all after it. -/
def Server.stopped : ReplyCall where
  client := [1]
  data := [5]
  sends := ⟨fun i => if i = 0 then some 1 else none, fun _ => none, "Error number 11"⟩
  details := {}

/-- A reply that goes through. -/
def Server.whole : ReplyCall where
  client := [2]
  data := [6]
  sends := ⟨fun i => if i = 1 then some 0 else some 1, fun _ => none, ""⟩
  details := {}

theorem Server.reply_joined_stopped :
    (reply (reply (some { messages := [] }) stopped).2 whole).2 =
      some { messages := [] ++ [[[1], [2], [], [6]]] } :=
  Server.reply_joined [] stopped whole (by decide) (fun _ => rfl) (by decide)

/-- **When events stay apart**, as for replies. -/
theorem Publisher.events_apart_iff (calls : List PublishCall) :
    ((∀ l, l <+: calls → Trace.final publish Prod.snd (some {}) l =
        some { messages := l.filterMap fun c => c.toCall.message }) ↔
        ∀ c ∈ calls, c.toCall.Completed) ∧
      ∀ c ∈ calls, ∀ socket, (publish socket c).1.isOk = true →
        c.toCall.message = some [c.topic, c.data] :=
  ⟨Call.apart_iff PublishCall.toCall calls,
    fun _ _ _ h => Call.message_of_isOk (List.cons_ne_nil _ _) h⟩

end Fluffycoin.Zmq
