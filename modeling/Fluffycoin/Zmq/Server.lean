import Fluffycoin.Ossl.Convert
import Fluffycoin.Utils.Details
import Fluffycoin.Utils.Trace

/-!
# `zmq::Server`

Model of `Server::recv` (`src/zmq/Server.cpp:95-175`). A bound ROUTER socket is the list of the
frames that can be read from it. ZMQ delivers a multipart message whole, so the frames of a message
join the list together, the client's id in front; `zmq_recvmsg` takes the next frame, whichever
message it belongs to, and fails with `EAGAIN` only when there is none. The other errors of
`zmq_recvmsg` are left out.

A request is three frames: the id, an empty one and the data. `recv` is right about frames that
start like this (`recv_request`) and silent when there are none (`recv_nil`). On all others it
reports an error (`recv_of_not_reads`), having taken one to three of them.

`recv` does not ask whether more frames of the message follow, it takes three (`recv_socket`). So
calls go through the messages one by one only when these have three frames
(`recv_never_mixes_iff`); after a message with more or fewer they are out of step.
-/

namespace Fluffycoin.Zmq

/-- `zmq::ClientId`. -/
abbrev ClientId := Bytes

/-- A multipart message as a ROUTER socket delivers it. -/
structure Message where
  id : ClientId
  parts : List Bytes
  deriving DecidableEq, Repr

def Message.frames (m : Message) : List Bytes := m.id :: m.parts

/-- `zmq_recvmsg` with `ZMQ_DONTWAIT`. -/
def recvmsg : List Bytes → Option Bytes × List Bytes
  | [] => (none, [])
  | frame :: frames => (some frame, frames)

/-- `Errno::error()` after `EAGAIN`. -/
def errnoError : String := "Error number 11"

/-- `zmq::Server`: the frames on its socket, if it is bound. -/
structure Server where
  socket : Option (List Bytes) := none
  deriving DecidableEq, Repr

namespace Server

/-- `Server::recv`: what was received, if there was something. -/
def recv (s : Server) (details : Details) : Option (ClientId × Bytes) × Details × Server :=
  match s.socket with
  | none => (none, details.setError .notConnected "zmq_server" "No server socket.", s)
  | some frames =>
    if !details.isOk then (none, details, s)
    else
      match recvmsg frames with
      | (none, _) => (none, details, s)
      | (some client, frames) =>
        match recvmsg frames with
        | (none, frames) =>
          (none, details.setError .socketError "zmq_server"
            ("Failed to read delimiter frame: " ++ errnoError ++ "."), ⟨some frames⟩)
        | (some delimiter, frames) =>
          if delimiter ≠ [] then
            -- the frame behind it is dropped
            (none, details.setError .protocolError "zmq_router"
              ("Expected null frame but received " ++ toString delimiter.length ++ " bytes."),
              ⟨some (recvmsg frames).2⟩)
          else
            match recvmsg frames with
            | (none, frames) =>
              (none, details.setError .socketError "zmq_server"
                ("Failed to read data frame: " ++ errnoError ++ "."), ⟨some frames⟩)
            | (some data, frames) =>
              if client = [] then
                (none, details.setError .protocolError "zmq_clientid" "Empty ZMQ client ID.",
                  ⟨some frames⟩)
              else (some (client, data), details, ⟨some frames⟩)

/-- A message arrives. -/
def deliver (s : Server) (m : Message) : Server := ⟨s.socket.map (· ++ m.frames)⟩

variable {details : Details}

/-! ## What `recv` reads -/

/-- The frames start with a request, or there are none. -/
def Reads : List Bytes → Prop
  | [] => True
  | id :: delimiter :: _ :: _ => id ≠ [] ∧ delimiter = []
  | _ => False

theorem recv_nil (hok : details.isOk = true) :
    recv ⟨some []⟩ details = (none, details, ⟨some []⟩) := by
  simp [recv, recvmsg, hok]

theorem recv_request (hok : details.isOk = true) {id : ClientId} (hid : id ≠ [])
    (data : Bytes) (frames : List Bytes) :
    recv ⟨some (id :: [] :: data :: frames)⟩ details =
      (some (id, data), details, ⟨some frames⟩) := by
  simp [recv, recvmsg, hok, hid]

/-- Everything else is an error. -/
theorem recv_of_not_reads (hok : details.isOk = true) {frames : List Bytes}
    (h : ¬ Reads frames) : (recv ⟨some frames⟩ details).2.1.isOk = false := by
  match frames, h with
  | [], h => exact absurd trivial h
  | [id], _ => simp [recv, recvmsg, hok, Details.isOk_setError, errnoError]
  | [id, delimiter], _ =>
    by_cases hd : delimiter = []
    · simp [recv, recvmsg, hok, hd, Details.isOk_setError, errnoError]
    · simp [recv, recvmsg, hok, hd, Details.isOk_setError]
  | id :: delimiter :: data :: frames, h =>
    by_cases hd : delimiter = []
    · have hid : id = [] := by
        by_contra hid
        exact h ⟨hid, hd⟩
      simp [recv, recvmsg, hok, hd, hid, Details.isOk_setError]
    · simp [recv, recvmsg, hok, hd, Details.isOk_setError]

end Server

/-! ## Messages made of requests -/

/-- The frames are those of requests, one after the other. -/
def Requests : List Bytes → Prop
  | [] => True
  | id :: delimiter :: _ :: frames => (id ≠ [] ∧ delimiter = []) ∧ Requests frames
  | _ => False

/-- What they ask. -/
def requests : List Bytes → List (ClientId × Bytes)
  | id :: _ :: data :: frames => (id, data) :: requests frames
  | _ => []

theorem Requests.append {l l' : List Bytes} (h : Requests l) (h' : Requests l') :
    Requests (l ++ l') ∧ requests (l ++ l') = requests l ++ requests l' := by
  induction l using requests.induct with
  | case1 id delimiter data frames ih =>
    obtain ⟨hreq, hframes⟩ := ih h.2
    exact ⟨⟨h.1, hreq⟩, congrArg ((id, data) :: ·) hframes⟩
  | case2 l hl =>
    match l, h with
    | [], _ => exact ⟨h', rfl⟩
    | id :: delimiter :: data :: frames, _ => exact absurd rfl (hl id delimiter data frames)

/-- What follows requests and makes requests together with them is requests. -/
theorem Requests.of_append {l l' : List Bytes} (h : Requests l) (hl : Requests (l ++ l')) :
    Requests l' := by
  induction l using requests.induct with
  | case1 id delimiter data frames ih => exact ih h.2 hl.2
  | case2 l hne =>
    match l, h with
    | [], _ => exact hl
    | id :: delimiter :: data :: frames, _ => exact absurd rfl (hne id delimiter data frames)

/-! ## Messages one by one -/

/-- The request a message makes, if it is the client's id, an empty frame and the data. -/
def Message.request : Message → Option (ClientId × Bytes)
  | ⟨id, [[], data]⟩ => some (id, data)
  | _ => none

theorem Message.request_eq_none {m : Message} (h : m.parts.length ≠ 2) : m.request = none := by
  unfold request
  split
  · exact absurd rfl h
  · rfl

/-- The frames of messages, one after the other. -/
def frames (ms : List Message) : List Bytes := ms.flatMap Message.frames

theorem length_frames_pos {ms : List Message} (h : ms ≠ []) : 0 < (frames ms).length := by
  cases ms with
  | nil => exact absurd rfl h
  | cons m ms => exact Nat.succ_pos _

namespace Server

variable {details : Details} {m : Message} {ms : List Message}

/-- **A call takes three frames**, or as many as there are. It does not look at where a message
ends. -/
theorem recv_socket (hok : details.isOk = true) (fs : List Bytes) :
    (recv ⟨some fs⟩ details).2.2 = ⟨some (fs.drop 3)⟩ := by
  rcases fs with _ | ⟨id, _ | ⟨delimiter, _ | ⟨data, fs⟩⟩⟩
  · rw [recv_nil hok]
    rfl
  · simp [recv, recvmsg, hok]
  · by_cases hd : delimiter = [] <;> simp [recv, recvmsg, hok, hd]
  · by_cases hd : delimiter = []
    · by_cases hid : id = [] <;> simp [recv, recvmsg, hok, hd, hid]
    · simp [recv, recvmsg, hok, hd]

/-- What is no request gives nothing. -/
theorem recv_eq_none_of_not_reads (hok : details.isOk = true) {fs : List Bytes} (h : ¬ Reads fs) :
    (recv ⟨some fs⟩ details).1 = none := by
  rcases fs with _ | ⟨id, _ | ⟨delimiter, _ | ⟨data, fs⟩⟩⟩
  · exact absurd trivial h
  · simp [recv, recvmsg, hok]
  · by_cases hd : delimiter = [] <;> simp [recv, recvmsg, hok, hd]
  · by_cases hd : delimiter = []
    · have hid : id = [] := by
        by_contra hid
        exact h ⟨hid, hd⟩
      simp [recv, recvmsg, hok, hd, hid]
    · simp [recv, recvmsg, hok, hd]

/-- With the messages `ms` to read, a call takes the first of them whole: it gives its request, or
an error if it makes none. -/
def TakesFirst (ms : List Message) (details : Details) : Prop :=
  let r := recv ⟨some (frames ms)⟩ details
  match ms with
  | [] => r = (none, details, ⟨some []⟩)
  | m :: ms =>
    r.2.2 = ⟨some (frames ms)⟩ ∧ r.1 = m.request ∧ r.2.1.isOk = m.request.isSome

/-- Calls of `recv`, one after the other, never mix two of the messages `ms`: after any number of
calls the next one takes the next message whole, and what they gave are the requests in order. -/
def NeverMixes (ms : List Message) : Prop :=
  ∀ calls : List Details, (∀ details ∈ calls, details.isOk = true) →
    Trace.final recv (·.2.2) ⟨some (frames ms)⟩ calls = ⟨some (frames (ms.drop calls.length))⟩ ∧
      (∀ details, details.isOk = true → TakesFirst (ms.drop calls.length) details) ∧
      (Trace.trace recv (·.2.2) ⟨some (frames ms)⟩ calls).filterMap (·.ret.1) =
        (ms.take calls.length).filterMap Message.request

theorem neverMixes_nil : NeverMixes [] := by
  intro calls hcalls
  rw [List.drop_nil, List.take_nil]
  induction calls with
  | nil => exact ⟨rfl, fun details hok => recv_nil hok, rfl⟩
  | cons details calls ih =>
    obtain ⟨hok, hcalls⟩ := List.forall_mem_cons.mp hcalls
    obtain ⟨hfinal, htakes, htrace⟩ := ih hcalls
    have hrecv : recv ⟨some (frames [])⟩ details = (none, details, ⟨some []⟩) := recv_nil hok
    rw [Trace.final, Trace.trace, hrecv, List.filterMap_cons_none (by rw [Trace.entry, hrecv])]
    exact ⟨hfinal, htakes, htrace⟩

/-- The calls after the first are calls for the messages after the first. -/
theorem neverMixes_cons_iff :
    NeverMixes (m :: ms) ↔
      (∀ details, details.isOk = true → TakesFirst (m :: ms) details) ∧ NeverMixes ms := by
  have hrest {details : Details} (h : TakesFirst (m :: ms) details) (calls : List Details) :
      Trace.final recv (·.2.2) ⟨some (frames (m :: ms))⟩ (details :: calls) =
          Trace.final recv (·.2.2) ⟨some (frames ms)⟩ calls ∧
        (Trace.trace recv (·.2.2) ⟨some (frames (m :: ms))⟩ (details :: calls)).filterMap
            (·.ret.1) =
          m.request.toList ++
            (Trace.trace recv (·.2.2) ⟨some (frames ms)⟩ calls).filterMap (·.ret.1) := by
    obtain ⟨hsocket, hret, _⟩ := h
    rw [Trace.final, Trace.trace, hsocket, List.filterMap_cons, Trace.entry, hret]
    cases m.request <;> exact ⟨rfl, rfl⟩
  have hrequests (n : Nat) : ((m :: ms).take (n + 1)).filterMap Message.request =
      m.request.toList ++ (ms.take n).filterMap Message.request := by
    rw [List.take_succ_cons, List.filterMap_cons]
    cases m.request <;> rfl
  constructor
  · intro h
    have hfirst : ∀ details, details.isOk = true → TakesFirst (m :: ms) details :=
      (h [] (List.forall_mem_nil _)).2.1
    refine ⟨hfirst, fun calls hcalls => ?_⟩
    obtain ⟨hfinal, htakes, htrace⟩ :=
      h ({} :: calls) (List.forall_mem_cons.mpr ⟨rfl, hcalls⟩)
    obtain ⟨hfinal', htrace'⟩ := hrest (hfirst {} rfl) calls
    rw [hfinal'] at hfinal
    rw [htrace', List.length_cons, hrequests, List.append_cancel_left_eq] at htrace
    exact ⟨hfinal, htakes, htrace⟩
  · rintro ⟨hfirst, h⟩ calls hcalls
    cases calls with
    | nil => exact ⟨rfl, hfirst, rfl⟩
    | cons details calls =>
      obtain ⟨hok, hcalls⟩ := List.forall_mem_cons.mp hcalls
      obtain ⟨hfinal, htakes, htrace⟩ := h calls hcalls
      obtain ⟨hfinal', htrace'⟩ := hrest (hfirst details hok) calls
      rw [hfinal', htrace', List.length_cons, hrequests, htrace]
      exact ⟨hfinal, htakes, rfl⟩

/-- The frames after the third are those of the messages after the first, exactly if the first has
three frames or it is the last and has fewer. -/
theorem drop_frames_cons_iff :
    (frames (m :: ms)).drop 3 = frames ms ↔
      m.parts.length = 2 ∨ (ms = [] ∧ m.parts.length ≤ 2) := by
  have hsplit : frames (m :: ms) = m.frames ++ frames ms := List.flatMap_cons
  have hlen : m.frames.length = m.parts.length + 1 := rfl
  rw [hsplit]
  constructor
  · intro h
    have hlength := congrArg List.length h
    rw [List.length_drop, List.length_append, hlen] at hlength
    by_cases hms : ms = []
    · subst hms
      rw [show (frames []).length = 0 from rfl] at hlength
      exact .inr ⟨rfl, by omega⟩
    · have hpos := length_frames_pos hms
      exact .inl (by omega)
  · rintro (h | ⟨rfl, h⟩)
    · exact List.drop_left' (by omega)
    · rw [show frames [] = [] from rfl, List.append_nil]
      exact List.drop_of_length_le (by omega)

/-- When a call takes a message whole. -/
theorem takesFirst_cons_iff (hok : details.isOk = true) :
    TakesFirst (m :: ms) details ↔
      (m.parts.length = 2 ∨ (ms = [] ∧ m.parts.length ≤ 2)) ∧ ∀ r ∈ m.request, r.1 ≠ [] := by
  unfold TakesFirst
  simp only [recv_socket hok, Server.mk.injEq, Option.some.injEq, drop_frames_cons_iff]
  refine and_congr_right fun hlen => ?_
  -- an error is right for a message that makes no request, and only for one
  have herror (hreads : ¬ Reads (frames (m :: ms))) (hrequest : m.request = none) :
      ((recv ⟨some (frames (m :: ms))⟩ details).1 = m.request ∧
        (recv ⟨some (frames (m :: ms))⟩ details).2.1.isOk = m.request.isSome) ↔
        ∀ r ∈ m.request, r.1 ≠ [] := by
    rw [recv_eq_none_of_not_reads hok hreads, recv_of_not_reads hok hreads, hrequest]
    exact iff_of_true ⟨rfl, rfl⟩ (fun r hr => by cases hr)
  rcases m with ⟨id, _ | ⟨delimiter, _ | ⟨data, _ | ⟨part, parts⟩⟩⟩⟩
  · obtain ⟨rfl, _⟩ := hlen.resolve_left (by simp)
    exact herror (fun h => h) (Message.request_eq_none (by simp))
  · obtain ⟨rfl, _⟩ := hlen.resolve_left (by simp)
    exact herror (fun h => h) (Message.request_eq_none (by simp))
  · rcases delimiter with _ | ⟨byte, delimiter⟩
    · by_cases hid : id = []
      · subst hid
        have hreads : ¬ Reads (frames (⟨[], [[], data]⟩ :: ms)) := fun h => h.1 rfl
        rw [recv_eq_none_of_not_reads hok hreads]
        exact iff_of_false (fun h => by cases h.1) (fun h => h _ rfl rfl)
      · have hrecv : recv ⟨some (frames (⟨id, [[], data]⟩ :: ms))⟩ details =
            (some (id, data), details, ⟨some (frames ms)⟩) := recv_request hok hid data (frames ms)
        rw [hrecv, hok]
        refine iff_of_true ⟨rfl, rfl⟩ fun r hr => ?_
        rw [← Option.some.inj hr]
        exact hid
    · exact herror (fun h => List.cons_ne_nil _ _ h.2) rfl
  · exfalso
    rcases hlen with hlen | ⟨_, hlen⟩ <;> simp at hlen

/-- **When `recv` never mixes two messages**: exactly if all messages have three frames, the last
one at most three, and no request is without an id. -/
theorem recv_never_mixes_iff (ms : List Message) :
    NeverMixes ms ↔
      (∀ m ∈ ms.dropLast, m.parts.length = 2) ∧ (∀ m ∈ ms.getLast?, m.parts.length ≤ 2) ∧
        ∀ m ∈ ms, ∀ r ∈ m.request, r.1 ≠ [] := by
  induction ms with
  | nil => exact iff_of_true neverMixes_nil ⟨by simp, by simp, by simp⟩
  | cons m ms ih =>
    have htakes : (∀ details, details.isOk = true → TakesFirst (m :: ms) details) ↔
        (m.parts.length = 2 ∨ (ms = [] ∧ m.parts.length ≤ 2)) ∧ ∀ r ∈ m.request, r.1 ≠ [] :=
      ⟨fun h => (takesFirst_cons_iff rfl).mp (h {} rfl),
        fun h details hok => (takesFirst_cons_iff hok).mpr h⟩
    rw [neverMixes_cons_iff, ih, htakes]
    cases ms with
    | nil =>
      have hlen : m.parts.length = 2 ∨ m.parts.length ≤ 2 ↔ m.parts.length ≤ 2 :=
        or_iff_right_of_imp Nat.le_of_eq
      simp [hlen]
    | cons m' ms =>
      rw [List.dropLast_cons_cons, List.getLast?_cons_cons, List.forall_mem_cons (a := m),
        List.forall_mem_cons (a := m)]
      simp only [List.cons_ne_nil, false_and, or_false]
      constructor
      · rintro ⟨⟨hm, hid⟩, hinit, hlast, hids⟩
        exact ⟨⟨hm, hinit⟩, hlast, hid, hids⟩
      · rintro ⟨⟨hm, hinit⟩, hlast, hid, hids⟩
        exact ⟨⟨hm, hid⟩, hinit, hlast, hids⟩

/-- A message with two frames too many, and a request of another client behind it. -/
def overlong : List Message := [⟨[1], [[], [2], [4], []]⟩, ⟨[5], [[], [6]]⟩]

/-- The second call takes the surplus frames for a client's id and a delimiter, and the id of the
other client for the data. -/
theorem overlong_mixed :
    ¬ NeverMixes overlong ∧
      (Trace.trace recv (·.2.2) ⟨some (frames overlong)⟩ [{}, {}]).filterMap (·.ret.1) =
        [([1], [2]), ([4], [5])] := by
  refine ⟨fun h => ?_, rfl⟩
  have hfirst := (neverMixes_cons_iff.mp h).1 {} rfl
  have hlen := ((takesFirst_cons_iff rfl).mp hfirst).1
  rcases hlen with hlen | ⟨hnil, _⟩
  · cases hlen
  · cases hnil

end Server

end Fluffycoin.Zmq
