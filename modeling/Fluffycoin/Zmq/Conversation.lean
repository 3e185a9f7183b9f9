import Fluffycoin.Utils.Lockstep
import Fluffycoin.Zmq.Client
import Fluffycoin.Zmq.Sending
import Mathlib.Logic.Function.Basic

/-!
# Clients and a server

Any number of `zmq::Client`s, each from one `connect` on, and one `zmq::Server`. A request travels
to the ROUTER socket and gets there under an id of the client, is read by `Server::recv`, is
answered by `Server::reply` at some time, in any order and at most once, and the reply travels back
to the client whose id is its first frame. A run is any interleaving of all this, over all clients.
Every call can fail in the ways the sources know, and an error at a client closes its socket; its
request then goes on, and the reply is dropped. A client that calls `connect` again is another one.

What ZMQ may do is assumed: a request may travel for ever, so one that is lost is covered. ZMQ
connects an open client anew when it has to, and the client then has another id. The ROUTER socket
drops what is for an id it does not know any more, so any reply may be dropped.

`Net.conversed_run`: as long as every reply that is begun is completed, no client gets a reply to
the request of another one or to another request of its own. For each client the reply number `k` is
the one that was given to its request number `k`, at most one message is under way or was dropped,
and that is all an open client has not got. Without the condition this fails
(`Server.reply_joined`).

The proof looks at one client at a time (`view`). What happens anywhere in the system is for it a
step of a party that sends one request at a time (`Lockstep.Step`), or nothing.
-/

namespace Fluffycoin.Zmq

open Multipart (Outbox)

/-- Which client ZMQ gives an id to. A client may have several, none is empty or given twice. -/
structure Routing (ι : Type) where
  owner : ClientId → Option ι
  owner_nil : owner [] = none

theorem Routing.requests_frames {ι : Type} (r : Routing ι) {id : ClientId} {i : ι}
    (h : r.owner id = some i) (data : Bytes) : Requests [id, [], data] := by
  refine ⟨⟨?_, rfl⟩, trivial⟩
  rintro rfl
  rw [r.owner_nil] at h
  cases h

/-- What is sent of a reply: its data, or an empty frame in their place. -/
def Server.ReplyCall.replied (c : ReplyCall) : Option Bytes :=
  c.toCall.message.bind (·[2]?)

structure Net (ι : Type) where
  client : ι → Client := fun _ => (Client.connect {}).2
  /-- Requests on their way to the server. -/
  flight : ι → List Bytes := fun _ => []
  server : Server := ⟨some []⟩
  /-- Requests that have been read and not been answered. -/
  pending : List (ClientId × Bytes) := []
  outbox : Option (Outbox Bytes) := some {}
  /-- How many messages of the server have been carried to a client, or dropped. -/
  routed : Nat := 0
  /-- The replies that were dropped on their way. -/
  dropped : List (ClientId × Bytes) := []
  /-- The requests of a client, and the replies that it has read. -/
  sent : ι → List Bytes := fun _ => []
  got : ι → List Bytes := fun _ => []
  /-- Which requests were answered, and what was sent. -/
  answers : List (ClientId × Bytes × Option Bytes) := []

namespace Net

/-- What can happen. -/
inductive Act (ι : Type) where
  | send (i : ι) (data : Bytes) (ret : Option Nat) (errno : String) (details : Details)
  | arrive (id : ClientId)
  | recv (details : Details)
  | reply (n : Nat) (data : Bytes) (sends : Sends) (details : Details)
  | route (carried : Bool)
  | read (i : ι) (details : Details)

/-- No frame that completes a reply is refused, whoever it is for. -/
def Act.Completed {ι : Type} : Act ι → Prop
  | .reply _ data sends details =>
    ∀ client, (Server.ReplyCall.mk client data sends details).toCall.Completed
  | _ => True

/-- Whom a message is for, and the reply. -/
def replyOf : List Bytes → Option (ClientId × Bytes)
  | [client, [], data] => some (client, data)
  | _ => none

variable {ι : Type} (r : Routing ι)

def messages (s : Net ι) : List (List Bytes) := (s.outbox.map (·.messages)).getD []

def unrouted (s : Net ι) : List (ClientId × Bytes) :=
  (s.messages.drop s.routed).filterMap replyOf

def requested (s : Net ι) : List (ClientId × Bytes) := requests (s.server.socket.getD [])

variable [DecidableEq ι]

def step (s : Net ι) : Act ι → Net ι
  | .send i data ret errno details =>
    let result := (s.client i).send data ret errno details
    let s := { s with client := Function.update s.client i result.2.2 }
    if result.1 then
      { s with
        flight := Function.update s.flight i (s.flight i ++ [data])
        sent := Function.update s.sent i (s.sent i ++ [data]) }
    else s
  | .arrive id =>
    match r.owner id with
    | none => s
    | some i =>
      match s.flight i with
      | [] => s
      | data :: flight =>
        { s with
          flight := Function.update s.flight i flight
          server := s.server.deliver ⟨id, [[], data]⟩ }
  | .recv details =>
    let result := s.server.recv details
    { s with server := result.2.2, pending := s.pending ++ result.1.toList }
  | .reply n data sends details =>
    match s.pending[n]? with
    | none => s
    | some (client, request) =>
      let c : Server.ReplyCall := ⟨client, data, sends, details⟩
      { s with
        pending := s.pending.eraseIdx n
        outbox := (Server.reply s.outbox c).2
        answers := s.answers ++ [(client, request, c.replied)] }
  | .route carried =>
    match s.messages[s.routed]? with
    | none => s
    | some m =>
      let s := { s with routed := s.routed + 1 }
      if carried then
        { s with
          client := fun i =>
            if m.head?.bind r.owner = some i then (s.client i).deliver m.tail else s.client i }
      else { s with dropped := s.dropped ++ (replyOf m).toList }
  | .read i details =>
    let result := (s.client i).recv details
    { s with
      client := Function.update s.client i result.2.2
      got := Function.update s.got i (s.got i ++ result.1.toList) }

/-- The state after some events. -/
def run (acts : List (Act ι)) : Net ι := Trace.final (step r) id {} acts

/-! ## One client -/

/-- What belongs to a client. -/
def ofClient {α : Type} (i : ι) (l : List (ClientId × α)) : List α :=
  l.filterMap fun e => if r.owner e.1 = some i then some e.2 else none

def turn (c : Client) : Lockstep.Turn :=
  match c.socket with
  | none => .closed
  | some socket => if socket.waiting then .await else .ask

/-- The system as one client sees it. -/
def view (s : Net ι) (i : ι) : Lockstep.State Bytes Bytes where
  turn := turn (s.client i)
  sent := s.sent i
  got := s.got i
  unanswered := ofClient r i (s.pending ++ s.requested) ++ s.flight i
  undelivered := (s.client i).inbox ++ ofClient r i s.unrouted
  answered := ofClient r i s.answers
  lost := ofClient r i s.dropped

structure Inv (s : Net ι) : Prop where
  server : ∃ frames, s.server = ⟨some frames⟩ ∧ Requests frames
  outbox : s.outbox = some { messages := s.messages }
  replies : ∀ m ∈ s.messages, ∃ client data, m = [client, [], data]
  routed : s.routed ≤ s.messages.length
  talk : ∀ i, Lockstep.Inv (view r s i)

section OfClient

variable {r} {α : Type} {i : ι} {client : ClientId}

@[simp] theorem ofClient_nil : ofClient r i ([] : List (ClientId × α)) = [] := rfl

@[simp] theorem ofClient_append (l l' : List (ClientId × α)) :
    ofClient r i (l ++ l') = ofClient r i l ++ ofClient r i l' := List.filterMap_append

theorem ofClient_cons_self (h : r.owner client = some i) (a : α) (l : List (ClientId × α)) :
    ofClient r i ((client, a) :: l) = a :: ofClient r i l := by
  simp [ofClient, h]

theorem ofClient_cons_of_ne (h : r.owner client ≠ some i) (a : α) (l : List (ClientId × α)) :
    ofClient r i ((client, a) :: l) = ofClient r i l := by
  simp [ofClient, h]

end OfClient

/-- A reply that is begun and completed is for the client of the call. -/
theorem message_eq (c : Server.ReplyCall) :
    c.toCall.message = c.replied.map fun data => [c.client, [], data] := by
  have hle : c.toCall.toSend.n ≤ 3 := c.toCall.toSend.n_le
  have hmessage : c.toCall.message = if c.toCall.toSend.n = 0 then none else
      some (Outbox.filled [c.client, [], c.data] c.toCall.toSend.n []) := rfl
  rw [Server.ReplyCall.replied, hmessage]
  generalize c.toCall.toSend.n = n at hle
  match n, hle with
  | 0, _ | 1, _ | 2, _ | 3, _ => rfl

/-! ## What an event is for a client -/

section Steps

variable {r} {s s' : Net ι} {j : ι}

theorem stays {v v' : Lockstep.State Bytes Bytes} (h : v' = v) : Lockstep.Step v v' := by
  rw [h]
  exact .stay _

/-- A client closes its socket. -/
theorem closes (h : view r s' j = { view r s j with
      turn := .closed, undelivered := ofClient r j s.unrouted }) :
    Lockstep.Step (view r s j) (view r s' j) := by
  rw [h]
  exact .close _ _ (List.sublist_append_right _ _)

/-- What `Server::recv` does with requests. -/
theorem recv_of_requests {frames : List Bytes} (h : Requests frames) (details : Details) :
    Server.recv ⟨some frames⟩ details = (none, details, ⟨some frames⟩) ∨
      ∃ id data rest, frames = id :: [] :: data :: rest ∧
        Server.recv ⟨some frames⟩ details = (some (id, data), details, ⟨some rest⟩) := by
  cases hok : details.isOk with
  | false => exact .inl (by simp [Server.recv, hok])
  | true =>
    rcases frames with _ | ⟨id, _ | ⟨delimiter, _ | ⟨data, rest⟩⟩⟩
    · exact .inl (Server.recv_nil hok)
    · exact h.elim
    · exact h.elim
    · obtain ⟨⟨hid, rfl⟩, -⟩ := h
      exact .inr ⟨id, data, rest, rfl, Server.recv_request hok hid data rest⟩

/-- What is pending for a client when a request of its own, or of another one, is answered. -/
theorem ofClient_eraseIdx (i : ι) {client : ClientId} {request : Bytes} {n : Nat}
    {pending : List (ClientId × Bytes)} (h : pending[n]? = some (client, request)) :
    (r.owner client ≠ some i ∧ ofClient r i (pending.eraseIdx n) = ofClient r i pending) ∨
      r.owner client = some i ∧ ∃ before after, ofClient r i pending = before ++ request :: after ∧
        ofClient r i (pending.eraseIdx n) = before ++ after := by
  obtain ⟨hn, hget⟩ := List.getElem?_eq_some_iff.mp h
  have hsplit : pending = pending.take n ++ (client, request) :: pending.drop (n + 1) := by
    rw [← hget, ← List.drop_eq_getElem_cons hn, List.take_append_drop]
  have herase : ofClient r i (pending.eraseIdx n) =
      ofClient r i (pending.take n) ++ ofClient r i (pending.drop (n + 1)) := by
    rw [List.eraseIdx_eq_take_drop_succ, ofClient_append]
  by_cases howner : r.owner client = some i
  · refine .inr ⟨howner, _, _, ?_, herase⟩
    conv_lhs => rw [hsplit]
    rw [ofClient_append, ofClient_cons_self howner]
  · refine .inl ⟨howner, ?_⟩
    conv_rhs => rw [hsplit]
    rw [herase, ofClient_append, ofClient_cons_of_ne howner]

/-- What an answer leaves. -/
theorem messages_reply (h : Inv r s) {c : Server.ReplyCall} (hc : c.toCall.Completed) :
    (Server.reply s.outbox c).2 =
      some { messages := s.messages ++ (c.replied.map fun data => [c.client, [], data]).toList } :=
    by
  rw [h.outbox, ← message_eq]
  exact Call.run_of_completed hc _

theorem filterMap_replyOf (client : ClientId) (reply : Option Bytes) :
    (reply.map fun data => [client, [], data]).toList.filterMap replyOf =
      (reply.map (client, ·)).toList := by
  cases reply <;> rfl

theorem step_send (h : Inv r s) (i : ι) (data : Bytes) (ret : Option Nat) (errno : String)
    (details : Details) (j : ι) :
    Lockstep.Step (view r s j) (view r (step r s (.send i data ret errno details)) j) := by
  by_cases hj : j = i
  case neg =>
    refine stays ?_
    unfold step
    dsimp only
    split <;> simp [view, hj, unrouted, messages, requested]
  subst hj
  rcases (s.client j).send_cases data ret errno details with
    ⟨hsent, hnext⟩ | ⟨inbox, hclient, hsent, hnext⟩
  · refine closes ?_
    simp [step, hsent, hnext, view, turn, Client.inbox, unrouted, messages, requested]
  · have hask : (view r s j).turn = .ask := by simp [view, hclient, turn]
    -- it drops replies that were not read, and there are none
    have hinbox : inbox = [] := by
      have hundelivered := ((h.talk j).ask hask).2
      simp only [view, hclient, Client.inbox, Option.map_some, Option.getD_some,
        List.append_eq_nil_iff] at hundelivered
      exact hundelivered.1.1
    have hview : view r (step r s (.send j data ret errno details)) j =
        { view r s j with
          turn := turn ((s.client j).send data ret errno details).2.2
          sent := s.sent j ++ [data]
          unanswered := (view r s j).unanswered ++ [data] } := by
      have hinbox' : ((s.client j).send data ret errno details).2.2.inbox = (s.client j).inbox := by
        rcases hnext with hnext | hnext <;> rw [hnext, hclient, hinbox] <;> rfl
      simp [step, hsent, view, hinbox', unrouted, messages, requested]
    rw [hview]
    refine .send _ data _ hask ?_
    rcases hnext with hnext | hnext <;> rw [hnext] <;> exact Lockstep.Turn.noConfusion

theorem step_read (i : ι) (details : Details) (j : ι) :
    Lockstep.Step (view r s j) (view r (step r s (.read i details)) j) := by
  by_cases hj : j = i
  case neg => exact stays (by simp [step, view, hj, unrouted, messages, requested])
  subst hj
  rcases (s.client j).recv_cases details with
    ⟨hgot, hnext | hnext⟩ | ⟨data, inbox, hclient, hgot, hnext⟩
  · refine closes ?_
    simp [step, hgot, hnext, view, turn, Client.inbox, unrouted, messages, requested]
  · refine stays ?_
    simp [step, hgot, hnext, view, unrouted, messages, requested]
  · have hview : view r (step r s (.read j details)) j =
        { view r s j with
          turn := .ask
          got := s.got j ++ [data]
          undelivered := inbox ++ ofClient r j s.unrouted } := by
      simp [step, hgot, hnext, view, turn, Client.inbox, unrouted, messages, requested]
    rw [hview]
    refine .get _ data _ ?_ ?_
    · simp [view, hclient, turn]
    · simp [view, hclient, Client.inbox]

/-- A request that arrives, wherever it comes from, is still unanswered. -/
theorem step_arrive (h : Inv r s) (id : ClientId) (j : ι) :
    view r (step r s (.arrive id)) j = view r s j := by
  obtain ⟨frames, hserver, hrequests⟩ := h.server
  cases howner : r.owner id with
  | none => simp [step, howner]
  | some i =>
    cases hflight : s.flight i with
    | nil => simp [step, howner, hflight]
    | cons data flight =>
      have hrequested : requests (frames ++ [id, [], data]) = requests frames ++ [(id, data)] :=
        (hrequests.append (r.requests_frames howner data)).2
      by_cases hj : j = i
      · subst hj
        simp [step, howner, hflight, view, unrouted, messages, requested, hserver, Server.deliver,
          Message.frames, hrequested, ofClient_cons_self howner]
      · have hne : r.owner id ≠ some j := fun heq => hj (Option.some.inj (heq.symm.trans howner))
        simp [step, howner, hflight, view, unrouted, messages, requested, hserver, Server.deliver,
          Message.frames, hrequested, ofClient_cons_of_ne hne, hj]

/-- So is one that is read. -/
theorem step_recv (h : Inv r s) (details : Details) (j : ι) :
    view r (step r s (.recv details)) j = view r s j := by
  obtain ⟨frames, hserver, hrequests⟩ := h.server
  rcases recv_of_requests hrequests details with hrecv | ⟨id, data, rest, rfl, hrecv⟩
  · simp [step, hserver, hrecv, view, unrouted, messages, requested]
  · simp [step, hserver, hrecv, view, unrouted, messages, requested, requests, ofClient]

/-- A request is answered, of this connection or of another one. -/
theorem step_reply (h : Inv r s) (n : Nat) (data : Bytes) (sends : Sends) (details : Details)
    (hc : ∀ client, (Server.ReplyCall.mk client data sends details).toCall.Completed) (j : ι) :
    Lockstep.Step (view r s j) (view r (step r s (.reply n data sends details)) j) := by
  cases hpending : s.pending[n]? with
  | none => exact stays (by simp [step, hpending])
  | some e =>
    obtain ⟨client, request⟩ := e
    have hunrouted : (step r s (.reply n data sends details)).unrouted = s.unrouted ++
        ((Server.ReplyCall.mk client data sends details).replied.map (client, ·)).toList := by
      simp only [step, hpending, unrouted, messages]
      rw [messages_reply h (hc client)]
      simp only [Option.map_some, Option.getD_some]
      rw [List.drop_append_of_le_length h.routed, List.filterMap_append, filterMap_replyOf]
      rfl
    generalize hreplied : (Server.ReplyCall.mk client data sends details).replied = reply
      at hunrouted
    have hview : view r (step r s (.reply n data sends details)) j =
        { view r s j with
          unanswered := ofClient r j (s.pending.eraseIdx n) ++
            (ofClient r j s.requested ++ s.flight j)
          answered := ofClient r j s.answers ++ ofClient r j [(client, request, reply)]
          undelivered := (view r s j).undelivered ++
            ofClient r j (reply.map (client, ·)).toList } := by
      rw [view, hunrouted]
      simp [step, hpending, hreplied, view, requested]
    rw [hview]
    rcases ofClient_eraseIdx (r := r) j hpending with
      ⟨hne, herase⟩ | ⟨howner, before, after, hbefore, herase⟩
    · refine stays ?_
      rw [herase, ofClient_cons_of_ne hne]
      cases reply <;> simp [view, ofClient_cons_of_ne hne]
    · have hreply : ofClient r j (reply.map (client, ·)).toList = reply.toList := by
        cases reply with
        | none => rfl
        | some reply => exact ofClient_cons_self howner reply []
      rw [herase, ofClient_cons_self howner, hreply, List.append_assoc]
      refine .answer (view r s j) before _ request reply ?_
      simp [view, hbefore]

/-- A reply is carried to this client, or dropped on its way or because the client is closed, or it
is for another one. -/
theorem step_route (h : Inv r s) (carried : Bool) (j : ι) :
    Lockstep.Step (view r s j) (view r (step r s (.route carried)) j) := by
  cases hm : s.messages[s.routed]? with
  | none => exact stays (by simp [step, hm])
  | some m =>
    obtain ⟨hlt, hget⟩ := List.getElem?_eq_some_iff.mp hm
    obtain ⟨client, data, rfl⟩ := h.replies m (hget ▸ List.getElem_mem hlt)
    have hunrouted : s.unrouted = (client, data) :: (step r s (.route carried)).unrouted := by
      rw [unrouted, List.drop_eq_getElem_cons hlt, hget]
      cases carried <;> simp only [step, hm] <;> rfl
    by_cases howner : r.owner client = some j
    case neg =>
      refine stays ?_
      simp only [view, hunrouted, ofClient_cons_of_ne howner]
      cases carried <;> simp [step, hm, howner, requested, replyOf, ofClient_cons_of_ne howner]
    cases carried with
    | false =>
      have hview : view r (step r s (.route false)) j = { view r s j with
          undelivered := (s.client j).inbox ++ ofClient r j (step r s (.route false)).unrouted
          lost := (view r s j).lost ++ [data] } := by
        simp [step, hm, view, requested, replyOf, ofClient_cons_self howner]
      rw [hview]
      refine .lose _ _ _ data ?_
      simp only [view, hunrouted, ofClient_cons_self howner]
    | true =>
      cases hsocket : (s.client j).socket with
      | none =>
        have hview : view r (step r s (.route true)) j = { view r s j with
            turn := .closed
            undelivered := ofClient r j (step r s (.route true)).unrouted } := by
          simp [step, hm, howner, view, turn, Client.deliver, Client.inbox, hsocket, requested]
        rw [hview]
        refine .close _ _ ?_
        simp [view, Client.inbox, hsocket, hunrouted, ofClient_cons_self howner]
      | some socket =>
        refine stays ?_
        simp only [view, hunrouted, ofClient_cons_self howner]
        simp [step, hm, howner, turn, Client.deliver, Client.inbox, hsocket, requested]

/-- **What an event is for a client**: a step of its own, or nothing. -/
theorem step_view (h : Inv r s) {a : Act ι} (ha : a.Completed) (j : ι) :
    Lockstep.Step (view r s j) (view r (step r s a) j) := by
  cases a with
  | send i data ret errno details => exact step_send h i data ret errno details j
  | arrive id => exact stays (step_arrive h id j)
  | recv details => exact stays (step_recv h details j)
  | reply n data sends details => exact step_reply h n data sends details ha j
  | route carried => exact step_route h carried j
  | read i details => exact step_read i details j

/-! ## Runs -/

/-- A client that sends changes nothing at the server. -/
theorem step_send_frame (i : ι) (data : Bytes) (ret : Option Nat) (errno : String)
    (details : Details) :
    (step r s (.send i data ret errno details)).server = s.server ∧
      (step r s (.send i data ret errno details)).outbox = s.outbox ∧
      (step r s (.send i data ret errno details)).routed = s.routed := by
  unfold step
  dsimp only
  split <;> exact ⟨rfl, rfl, rfl⟩

/-- A request that arrives has nothing to do with the replies. -/
theorem step_arrive_frame (id : ClientId) :
    (step r s (.arrive id)).outbox = s.outbox ∧ (step r s (.arrive id)).routed = s.routed := by
  simp only [step]
  split
  · exact ⟨rfl, rfl⟩
  · split <;> exact ⟨rfl, rfl⟩

/-- A reply that is carried or dropped has nothing to do with the requests. -/
theorem step_route_frame (carried : Bool) :
    (step r s (.route carried)).server = s.server ∧
      (step r s (.route carried)).outbox = s.outbox := by
  simp only [step]
  split
  · exact ⟨rfl, rfl⟩
  · split <;> exact ⟨rfl, rfl⟩

/-- The server's socket holds requests. -/
theorem server_step (h : Inv r s) (a : Act ι) :
    ∃ frames, (step r s a).server = ⟨some frames⟩ ∧ Requests frames := by
  obtain ⟨frames, hserver, hrequests⟩ := h.server
  have hsame (heq : (step r s a).server = s.server) :
      ∃ frames, (step r s a).server = ⟨some frames⟩ ∧ Requests frames :=
    ⟨frames, heq.trans hserver, hrequests⟩
  cases a with
  | send i data ret errno details => exact hsame (step_send_frame i data ret errno details).1
  | arrive id =>
    cases howner : r.owner id with
    | none => exact hsame (by simp [step, howner])
    | some i =>
      cases hflight : s.flight i with
      | nil => exact hsame (by simp [step, howner, hflight])
      | cons data flight =>
        refine ⟨frames ++ [id, [], data], ?_,
          (hrequests.append (r.requests_frames howner data)).1⟩
        simp [step, howner, hflight, hserver, Server.deliver, Message.frames]
  | recv details =>
    rcases recv_of_requests hrequests details with hrecv | ⟨id, data, rest, rfl, hrecv⟩
    · exact ⟨frames, by simp [step, hserver, hrecv], hrequests⟩
    · exact ⟨rest, by simp [step, hserver, hrecv], hrequests.2⟩
  | reply n =>
    cases hpending : s.pending[n]? <;> exact hsame (by simp [step, hpending])
  | route carried => exact hsame (step_route_frame carried).1
  | read => exact hsame rfl

/-- Its outbox holds whole replies, and only more of them. -/
theorem outbox_step (h : Inv r s) {a : Act ι} (ha : a.Completed) :
    ∃ replies, (∀ m ∈ replies, ∃ client data, m = [client, [], data]) ∧
      (step r s a).outbox = some { messages := s.messages ++ replies } := by
  have hsame (heq : (step r s a).outbox = s.outbox) :
      ∃ replies, (∀ m ∈ replies, ∃ client data, m = [client, [], data]) ∧
        (step r s a).outbox = some { messages := s.messages ++ replies } := by
    refine ⟨[], List.forall_mem_nil _, ?_⟩
    rw [heq, List.append_nil]
    exact h.outbox
  cases a with
  | send i data ret errno details => exact hsame (step_send_frame i data ret errno details).2.1
  | arrive id => exact hsame (step_arrive_frame id).1
  | route carried => exact hsame (step_route_frame carried).2
  | recv | read => exact hsame rfl
  | reply n data sends details =>
    cases hpending : s.pending[n]? with
    | none => exact hsame (by simp [step, hpending])
    | some e =>
      obtain ⟨client, request⟩ := e
      have hreply := messages_reply h (ha client)
      refine ⟨_, fun m hm => ?_, Eq.trans (by simp only [step, hpending]) hreply⟩
      obtain ⟨reply, -, rfl⟩ := Option.mem_map.mp (Option.mem_toList.mp hm)
      exact ⟨client, reply, rfl⟩

theorem routed_step (h : Inv r s) (a : Act ι) : (step r s a).routed ≤ s.messages.length := by
  cases a with
  | send i data ret errno details =>
    exact (step_send_frame i data ret errno details).2.2.trans_le h.routed
  | arrive id => exact (step_arrive_frame id).2.trans_le h.routed
  | route =>
    cases hm : s.messages[s.routed]? with
    | none =>
      simp only [step, hm]
      exact h.routed
    | some m =>
      have hlt : s.routed + 1 ≤ s.messages.length := (List.getElem?_eq_some_iff.mp hm).1
      simp only [step, hm]
      split <;> exact hlt
  | reply n =>
    cases hpending : s.pending[n]? <;> simp only [step, hpending] <;> exact h.routed
  | recv | read => exact h.routed

theorem Inv.step (h : Inv r s) {a : Act ι} (ha : a.Completed) : Inv r (step r s a) := by
  obtain ⟨replies, hreplies, houtbox⟩ := outbox_step h ha
  have hmessages : (Net.step r s a).messages = s.messages ++ replies := by
    rw [messages, houtbox]
    rfl
  refine ⟨server_step h a, ?_, ?_, ?_, fun i => (step_view h ha i).inv (h.talk i)⟩
  · rw [hmessages, houtbox]
  · rw [hmessages]
    exact List.forall_mem_append.mpr ⟨h.replies, hreplies⟩
  · rw [hmessages, List.length_append]
    exact Nat.le_add_right_of_le (routed_step h a)

theorem inv_initial : Inv r {} :=
  ⟨⟨[], rfl, trivial⟩, rfl, List.forall_mem_nil _, Nat.le_refl 0, fun _ => Lockstep.inv_initial⟩

theorem inv_run {acts : List (Act ι)} (h : ∀ a ∈ acts, a.Completed) : Inv r (run r acts) :=
  Trace.invariant_along (Inv r) (fun _ _ hinv ha => hinv.step ha) inv_initial
    (Trace.along_of_forall fun a ha _ => h a ha) (List.prefix_refl acts)

end Steps

/-- What a client can rely on. -/
structure Conversed (s : Net ι) (i : ι) : Prop where
  /-- A reply is the one that was given to the request of the same number. -/
  answers : ∀ (k : Nat) (reply : Bytes), (s.got i)[k]? = some reply →
    ∃ request, (s.sent i)[k]? = some request ∧
      (ofClient r i s.answers)[k]? = some (request, some reply)
  /-- An open client has got all replies, can still get them, or they were dropped. -/
  complete : (s.client i).socket.isSome →
    s.got i ++ (((s.client i).inbox ++ ofClient r i s.unrouted) ++ ofClient r i s.dropped) =
      (ofClient r i s.answers).filterMap Prod.snd
  /-- At most one request or reply is under way or was dropped. -/
  one : (ofClient r i (s.pending ++ s.requested) ++ s.flight i).length +
    (((s.client i).inbox ++ ofClient r i s.unrouted) ++ ofClient r i s.dropped).length ≤ 1

/-- **Every client gets the replies to its own requests, in order.** Whatever the clients, the
server and the network do and however it interleaves, as long as every reply that is begun is
completed. -/
theorem conversed_run (acts : List (Act ι)) (h : ∀ a ∈ acts, a.Completed) (i : ι) :
    Conversed r (run r acts) i := by
  have htalk : Lockstep.Inv (view r (run r acts) i) := (inv_run h).talk i
  refine ⟨fun k reply hk => htalk.answers hk, fun hopen => htalk.got fun hclosed => ?_, htalk.one⟩
  obtain ⟨socket, hsocket⟩ := Option.isSome_iff_exists.mp hopen
  simp only [view, turn, hsocket] at hclosed
  split at hclosed <;> cases hclosed

/-- Two clients, of which the first has been connected anew. -/
def twoClients : Routing Bool where
  owner id := if id = [1] ∨ id = [3] then some false else if id = [2] then some true else none
  owner_nil := rfl

def takesAll : Sends := ⟨fun k => [some 1, some 0, some 1][k]?.join, fun _ => some 0, ""⟩

/-- Both send a request, and they are answered in the other order. The reply to the next request of
the first one is dropped, since it is connected anew before. -/
def crossed : List (Act Bool) :=
  [.send false [10] (some 1) "" {}, .send true [20] (some 1) "" {}, .arrive [1], .arrive [2],
    .recv {}, .recv {}, .reply 1 [21] takesAll {}, .reply 0 [11] takesAll {}, .route true,
    .route true, .read false {}, .read true {}, .send false [12] (some 1) "" {}, .arrive [3],
    .recv {}, .reply 0 [13] takesAll {}, .route false]

theorem completed_takesAll (client : ClientId) (data : Bytes) (details : Details) :
    (Server.ReplyCall.mk client data takesAll details).toCall.Completed := fun _ _ _ => rfl

theorem crossed_completed : ∀ a ∈ crossed, a.Completed := by
  simp [crossed, Act.Completed, completed_takesAll]

theorem conversed_run_crossed :
    (run twoClients crossed).got false = [[11]] ∧ (run twoClients crossed).got true = [[21]] ∧
      (run twoClients crossed).dropped = [([3], [13])] ∧
      ∀ i, Conversed twoClients (run twoClients crossed) i :=
  ⟨by decide, by decide, by decide, conversed_run twoClients crossed crossed_completed⟩

end Net

end Fluffycoin.Zmq
