import Fluffycoin.Async.TreasureTrove
import Fluffycoin.Utils.Trace
import Fluffycoin.Zmq.Server
import Mathlib.Data.List.Nodup
import Mathlib.Data.List.Perm.Basic

/-!
# The requests of `svc::ApiPort`

Model of `ApiPort::handleRequest` and `ApiPort::handleResponse` (`src/svc/api/ApiPort.cpp:94-211`).
A message handed over by `read` becomes a coroutine. It starts at some later time, and up to the
`co_await` of its handler, or to its end, it runs alone; when the handler has finished, the rest
runs alone. The order of all this is any sequence of `Event`s.

`M` is the type of the protobuf messages, `Protobuf M` the library and the catalogue of registered
types, and `Api M` a port with its authenticator and handlers. What a handler does is part of the
event that it finishes. The JSON text of the replies and the log are left out.

Two things can keep the port from going on (`Halt`):

* `handleResponse` names the type of the request (`ApiPort.cpp:174-176`), also when there is none
  because the message could not be parsed or its type is not known.
* `TreasureTrove::cleanup` does not return unless the trove is empty or the scene its first entry.

**`answered_iff`** says that nothing else goes wrong.
-/

namespace Fluffycoin.Svc

open Fluffycoin.Async Fluffycoin.Zmq

/-- `google::protobuf::Any`. -/
structure Any where
  typeUrl : String
  value : Bytes

/-- `fcpb::comm::Request`. -/
structure Envelope where
  body : Any
  auth : Option Any

/-- Protobuf, and the message types that have been registered. -/
structure Protobuf (M : Type) where
  /-- `JsonStringToMessage`, or the text of its status. -/
  fromJson : Bytes → Except String Envelope
  /-- `Catalog::newMsg`. -/
  newMsg : String → Option M
  /-- `Any::UnpackTo`. -/
  unpackTo : Any → M → Bool × M
  /-- `Catalog::getTypeId`. -/
  getTypeId : M → Nat

/-- `RequestScene`. -/
structure RequestScene (M : Type) where
  details : Details := {}
  msg : Option M := none

/-- `IAuthenticator`. -/
structure Authenticator (M : Type) where
  authenticateScene : RequestScene M → Any → RequestScene M
  noAuth : RequestScene M → RequestScene M
  setResponseAuth : RequestScene M → RequestScene M × Any

/-- The parts of an `ApiPort` its requests depend on. -/
structure Api (M : Type) where
  pb : Protobuf M
  authenticator : Option (Authenticator M)
  /-- Whether `ApiHandlerMap::get` finds a handler. -/
  handlers : Nat → Bool

/-- `fcpb::comm::Response`. -/
structure Response (M : Type) where
  body : Option M
  auth : Option Any
  errorField : Option String
  errorString : Option String
  code : ErrorCode

namespace Api

variable {M : Type} (a : Api M)

/-- `AnyMessage::fromAny`. -/
def fromAny (input : Any) (details : Details) : Option M × Details :=
  match a.pb.newMsg input.typeUrl with
  | none =>
    (none, details.setError .internalError "from_any"
      ("Unknown message type '" ++ input.typeUrl ++ "'."))
  | some output =>
    if details.isOk then
      match a.pb.unpackTo input output with
      | (true, output) => (some output, details)
      | (false, output) =>
        (some output, details.setError .internalError "from_any"
          ("Failed to deserialize any '" ++ input.typeUrl ++ "'."))
    else (some output, details)

/-- The authentication of a request (`ApiPort.cpp:120-132`). -/
def authenticate (auth : Option Any) (scene : RequestScene M) : RequestScene M :=
  match a.authenticator, auth with
  | some authenticator, some auth => authenticator.authenticateScene scene auth
  | some authenticator, none => authenticator.noAuth scene
  | none, _ => scene

/-- Whether there is a handler for the request. -/
def hasHandler : Option M → Bool
  | none => false
  | some request => a.handlers (a.pb.getTypeId request)

/-- `handleRequest` up to `setRequest` (`ApiPort.cpp:98-149`). -/
def scene (msgData : Bytes) : RequestScene M :=
  match a.pb.fromJson msgData with
  | .error status =>
    { details := ({} : Details).setError .invalidMessageFormat "json"
        ("Failed to parse message: " ++ status) }
  | .ok envelope =>
    let (request, details) := a.fromAny envelope.body {}
    let scene : RequestScene M := { details }
    let scene := if scene.details.isOk then a.authenticate envelope.auth scene else scene
    let details :=
      if scene.details.isOk && !a.hasHandler request then
        scene.details.setError .unknownCommand "request_type" "Unknown request type '%s'."
      else scene.details
    { scene with details, msg := request }

/-- The response `handleResponse` builds (`ApiPort.cpp:173-198`). -/
def response (scene : RequestScene M) (msg : Option M) : Response M :=
  let body := if scene.details.isOk then msg else none
  let (scene, auth) :=
    match a.authenticator with
    | none => (scene, none)
    | some authenticator => (authenticator.setResponseAuth scene).map id some
  let error := scene.details.errorStatus
  if scene.details.isOk then
    { body, auth, errorField := none, errorString := none, code := .none }
  else
    { body, auth
      errorField := if error.errorField = "" then none else some error.errorField
      errorString := if error.errorStr = "" then none else some error.errorStr
      code := error.errorCode }

end Api

/-- Why a port does not go on. -/
inductive Halt where
  | nullRequest
  | cleanup
  deriving DecidableEq, Repr

/-- A coroutine that has been spawned. -/
structure Spawned where
  number : Nat
  client : ClientId
  data : Bytes

/-- A coroutine that waits for its handler. -/
structure Running (M : Type) where
  number : Nat
  client : ClientId
  scene : RequestScene M

/-- A call of `server.reply`. -/
structure Reply (M : Type) where
  number : Nat
  client : ClientId
  response : Response M

/-- The requests of a port. The messages it received are numbered, and their scenes with them. -/
structure ApiState (M : Type) where
  received : List ClientId := []
  spawned : List Spawned := []
  running : List (Running M) := []
  trove : List Nat := []
  replies : List (Reply M) := []
  halted : Option Halt := none

/-- What can happen: a message is handed over, the `i`-th spawned coroutine starts, or the handler
of the `i`-th waiting one finishes. -/
inductive RequestEvent (M : Type) where
  | receive (client : ClientId) (data : Bytes)
  | start (i : Nat)
  | finish (i : Nat) (details : Details) (msg : Option M)

namespace Api

variable {M : Type} (a : Api M)

/-- `ApiPort::handleResponse`. -/
def handleResponse (p : ApiState M) (number : Nat) (client : ClientId) (scene : RequestScene M)
    (msg : Option M) : ApiState M :=
  match scene.msg with
  | none => { p with halted := some .nullRequest }
  | some _ =>
    let reply : Reply M := ⟨number, client, a.response scene msg⟩
    let p := { p with replies := p.replies ++ [reply] }
    match TreasureTrove.cleanup p.trove number with
    | none => { p with halted := some .cleanup }
    | some trove => { p with trove }

/-- `ApiPort::handleRequest` up to the `co_await`. -/
def handleRequest (p : ApiState M) (r : Spawned) : ApiState M :=
  let scene := a.scene r.data
  if !scene.details.isOk then a.handleResponse p r.number r.client scene none
  else
    { p with
      trove := TreasureTrove.add p.trove r.number
      running := p.running ++ [⟨r.number, r.client, scene⟩] }

/-- One event. A port that has halted stays as it is. -/
def step (p : ApiState M) (e : RequestEvent M) : ApiState M :=
  match p.halted, e with
  | some _, _ => p
  | none, .receive client data =>
    { p with
      received := p.received ++ [client]
      spawned := p.spawned ++ [⟨p.received.length, client, data⟩] }
  | none, .start i =>
    match p.spawned[i]? with
    | none => p
    | some r => a.handleRequest { p with spawned := p.spawned.eraseIdx i } r
  | none, .finish i details msg =>
    match p.running[i]? with
    | none => p
    | some r =>
      a.handleResponse { p with running := p.running.eraseIdx i } r.number r.client
        { r.scene with details } msg

/-- The requests after some events. -/
def run (events : List (RequestEvent M)) : ApiState M := Trace.final a.step id {} events

/-! ## Which messages get how far -/

/-- The message is an envelope, and the type of its body is registered. -/
def HasRequest (msgData : Bytes) : Prop :=
  ∃ envelope request, a.pb.fromJson msgData = .ok envelope ∧
    a.pb.newMsg envelope.body.typeUrl = some request

/-- It also unpacks, passes the authentication and has a handler. -/
def Dispatched (msgData : Bytes) : Prop :=
  ∃ envelope new request, a.pb.fromJson msgData = .ok envelope ∧
    a.pb.newMsg envelope.body.typeUrl = some new ∧
    a.pb.unpackTo envelope.body new = (true, request) ∧
    (a.authenticate envelope.auth {}).details.isOk = true ∧
    a.handlers (a.pb.getTypeId request) = true

variable {a}

/-- There is a request object exactly when the type is known. -/
theorem isSome_msg_scene_iff (msgData : Bytes) :
    (a.scene msgData).msg.isSome ↔ a.HasRequest msgData := by
  unfold scene HasRequest
  cases hjson : a.pb.fromJson msgData with
  | error status => simp
  | ok envelope =>
    cases hnew : a.pb.newMsg envelope.body.typeUrl with
    | none => simp [fromAny, hnew]
    | some request =>
      simp only [fromAny, hnew, Details.isOk_default, if_true]
      cases hunpack : a.pb.unpackTo envelope.body request with
      | mk ok output => cases ok <;> simp [hnew]

/-- The handler is called exactly when the message is one for it. -/
theorem isOk_scene_iff (msgData : Bytes) :
    (a.scene msgData).details.isOk = true ↔ a.Dispatched msgData := by
  unfold scene Dispatched
  cases hjson : a.pb.fromJson msgData with
  | error status => simp [Details.isOk_setError]
  | ok envelope =>
    cases hnew : a.pb.newMsg envelope.body.typeUrl with
    | none => simp [fromAny, hnew, Details.isOk_setError]
    | some new =>
      cases hunpack : a.pb.unpackTo envelope.body new with
      | mk ok request =>
        cases ok with
        | false => simp [fromAny, hnew, hunpack, Details.isOk_default, Details.isOk_setError]
        | true =>
          by_cases hauth : (a.authenticate envelope.auth {}).details.isOk = true
          · by_cases hhandler : a.handlers (a.pb.getTypeId request) = true
            · simp [fromAny, hnew, hunpack, hauth, hasHandler, hhandler, Details.isOk_default]
            · simp [fromAny, hnew, hunpack, hauth, hasHandler, hhandler, Details.isOk_default,
                Details.isOk_setError]
          · simp [fromAny, hnew, hunpack, hauth, Details.isOk_default]

/-! ## The property -/

end Api

namespace ApiState

variable {M : Type}

/-- The coroutine of a message has not got to its end. -/
def Waiting (p : ApiState M) (n : Nat) : Prop :=
  n ∈ p.spawned.map Spawned.number ∨ n ∈ p.running.map Running.number

/-- The replies to a message. -/
def repliesTo (p : ApiState M) (n : Nat) : List (Reply M) :=
  p.replies.filter fun r => r.number = n

/-- The port goes on, each message has been replied to once when its coroutine is through and not
before, to its client, and the trove holds the scenes in flight. -/
structure Answered (p : ApiState M) : Prop where
  halted : p.halted = none
  waiting : ∀ n, p.Waiting n → p.repliesTo n = []
  replied : ∀ n client, p.received[n]? = some client → ¬ p.Waiting n →
    ∃ r, p.repliesTo n = [r] ∧ r.client = client
  trove : ∀ n, n ∈ p.trove ↔ n ∈ p.running.map Running.number

/-- The messages whose coroutines are spawned, waiting or through, with their clients. -/
def tickets (p : ApiState M) : List (Nat × ClientId) :=
  p.spawned.map (fun r => (r.number, r.client)) ++ p.running.map (fun r => (r.number, r.client)) ++
    p.replies.map fun r => (r.number, r.client)

/-- What holds of a port that goes on: every message is at one place. -/
structure Inv (p : ApiState M) : Prop where
  halted : p.halted = none
  trove : p.trove = p.running.map Running.number
  tickets : p.tickets.Perm (p.received.mapIdx fun n client => (n, client))
  msg : ∀ r ∈ p.running, r.scene.msg.isSome

variable {p : ApiState M}

theorem inv_empty : Inv ({} : ApiState M) := ⟨rfl, rfl, .nil, fun r hr => by cases hr⟩

theorem Inv.nodup (h : Inv p) : (p.spawned.map Spawned.number ++ p.running.map Running.number ++
    p.replies.map Reply.number).Nodup := by
  have hperm := h.tickets.map Prod.fst
  have hrange : (p.received.mapIdx fun n client => (n, client)).map Prod.fst =
      List.range p.received.length := by
    exact List.ext_getElem (by simp) fun n h₁ h₂ => by simp
  rw [hrange] at hperm
  have hnodup := hperm.nodup_iff.mpr List.nodup_range
  simpa [ApiState.tickets, Function.comp_def] using hnodup

/-- A list without repeated keys holds one entry for each. -/
theorem filter_eq_singleton {α : Type} {f : α → Nat} {l : List α} (h : (l.map f).Nodup) {x : α}
    (hx : x ∈ l) : l.filter (fun y => f y = f x) = [x] := by
  induction l with
  | nil => cases hx
  | cons y l ih =>
    obtain ⟨hy, hl⟩ := List.nodup_cons.mp h
    rcases List.mem_cons.mp hx with rfl | hx
    · rw [List.filter_cons_of_pos (by simp)]
      refine congrArg (x :: ·) (List.filter_eq_nil_iff.mpr fun z hz hzx => hy ?_)
      exact List.mem_map.mpr ⟨z, hz, of_decide_eq_true hzx⟩
    · have hne : f y ≠ f x := fun he => hy (List.mem_map.mpr ⟨x, hx, he.symm⟩)
      rw [List.filter_cons_of_neg (by simpa using hne)]
      exact ih hl hx

theorem Inv.toAnswered (h : Inv p) : Answered p := by
  obtain ⟨hwaiting, hreplies, hdisjoint⟩ := List.nodup_append.mp h.nodup
  refine ⟨h.halted, fun n hn => ?_, fun n client hclient hn => ?_, fun n => by rw [h.trove]⟩
  · refine List.filter_eq_nil_iff.mpr fun r hr hrn => ?_
    exact hdisjoint n (List.mem_append.mpr hn) r.number (List.mem_map_of_mem hr)
      (of_decide_eq_true hrn).symm
  · have hmem : (n, client) ∈ p.tickets := by
      refine h.tickets.mem_iff.mpr (List.mem_mapIdx.mpr ?_)
      obtain ⟨hlt, hget⟩ := List.getElem?_eq_some_iff.mp hclient
      exact ⟨n, hlt, by rw [hget]⟩
    simp only [ApiState.tickets, List.mem_append, List.mem_map, Prod.mk.injEq] at hmem
    rcases hmem with (⟨r, hr, hrn, _⟩ | ⟨r, hr, hrn, _⟩) | ⟨r, hr, hrn, hrc⟩
    · exact absurd (.inl (List.mem_map.mpr ⟨r, hr, hrn⟩)) hn
    · exact absurd (.inr (List.mem_map.mpr ⟨r, hr, hrn⟩)) hn
    · refine ⟨r, ?_, hrc⟩
      rw [← hrn]
      exact filter_eq_singleton hreplies hr

end ApiState

namespace Api

variable {M : Type} {a : Api M} {p : ApiState M}

open ApiState

/-- When a step can be taken: a message that starts must have a request object and, unless it is
accepted, find no other request in flight; a handler that finishes must be that of the oldest
request in flight. -/
def Safe (a : Api M) (p : ApiState M) : RequestEvent M → Prop
  | .receive _ _ => True
  | .start i => ∀ r, p.spawned[i]? = some r →
      a.HasRequest r.data ∧ (a.Dispatched r.data ∨ p.running = [])
  | .finish i _ _ => i < p.running.length → i = 0

/-! ## One event -/

/-- **What `handleResponse` does.** -/
theorem halted_handleResponse_iff (h : p.halted = none) {number : Nat} {client : ClientId}
    {scene : RequestScene M} {msg : Option M} :
    (a.handleResponse p number client scene msg).halted = none ↔
      scene.msg.isSome ∧ (p.trove = [] ∨ ∃ trove, p.trove = number :: trove) := by
  unfold handleResponse
  cases scene.msg with
  | none => simp
  | some m =>
    cases hclean : TreasureTrove.cleanup p.trove number with
    | none =>
      refine iff_of_false (by simp [hclean]) fun ⟨_, htrove⟩ => ?_
      rcases htrove with hnil | ⟨trove, hcons⟩
      · rw [TreasureTrove.cleanup_eq_some_iff.mpr (.inl ⟨hnil, rfl⟩)] at hclean
        cases hclean
      · rw [TreasureTrove.cleanup_eq_some_iff.mpr (.inr hcons)] at hclean
        cases hclean
    | some trove =>
      refine iff_of_true (by simp [hclean, h]) ⟨rfl, ?_⟩
      rcases TreasureTrove.cleanup_eq_some_iff.mp hclean with ⟨hnil, _⟩ | hcons
      · exact .inl hnil
      · exact .inr ⟨trove, hcons⟩

theorem handleResponse_eq {number : Nat} {client : ClientId} {scene : RequestScene M}
    {msg : Option M} {trove : List Nat} (hmsg : scene.msg.isSome)
    (htrove : (p.trove = [] ∧ trove = []) ∨ p.trove = number :: trove) :
    a.handleResponse p number client scene msg =
      { p with replies := p.replies ++ [⟨number, client, a.response scene msg⟩], trove } := by
  obtain ⟨m, hm⟩ := Option.isSome_iff_exists.mp hmsg
  unfold handleResponse
  simp only [hm, TreasureTrove.cleanup_eq_some_iff.mpr htrove]

end Api

namespace ApiState

open Api

variable {M : Type} {a : Api M} {p : ApiState M}

/-- The entries without the `i`-th one, and that one. -/
theorem map_eraseIdx_perm {α β : Type} (f : α → β) {l : List α} {i : Nat} {x : α}
    (h : l[i]? = some x) : (f x :: (l.eraseIdx i).map f).Perm (l.map f) := by
  obtain ⟨hi, rfl⟩ := List.getElem?_eq_some_iff.mp h
  exact (List.getElem_cons_eraseIdx_perm hi).map f

/-- An entry that is taken out in one place and put back further on. -/
theorem perm_move {α : Type} {x : α} {l l' : List α} (m n : List α) (h : (x :: l').Perm l) :
    (l' ++ m ++ x :: n).Perm (l ++ m ++ n) :=
  List.perm_middle.trans ((h.append_right m).append_right n)

/-- A message that is handed over is at one place. -/
theorem Inv.receive (h : Inv p) (client : ClientId) (data : Bytes) :
    Inv (a.step p (.receive client data)) := by
  unfold step
  rw [h.halted]
  refine ⟨rfl, h.trove, ?_, h.msg⟩
  show List.Perm _ (List.mapIdx _ (p.received ++ [client]))
  rw [List.mapIdx_concat]
  refine List.Perm.trans ?_ ((h.tickets.cons _).trans (List.perm_append_singleton _ _).symm)
  simp [ApiState.tickets, List.perm_middle]

theorem step_start (h : p.halted = none) {i : Nat} {r : Spawned} (hr : p.spawned[i]? = some r) :
    a.step p (.start i) = a.handleRequest { p with spawned := p.spawned.eraseIdx i } r := by
  unfold step
  rw [h]
  simp only [hr]

theorem step_finish (h : p.halted = none) {i : Nat} {r : Running M} (hr : p.running[i]? = some r)
    (details : Details) (msg : Option M) : a.step p (.finish i details msg) =
      a.handleResponse { p with running := p.running.eraseIdx i } r.number r.client
        { r.scene with details } msg := by
  unfold step
  rw [h]
  simp only [hr]

/-- A message that has not started is not the oldest in flight, if any is. -/
theorem Inv.trove_iff_of_spawned (h : Inv p) {r : Spawned} (hr : r ∈ p.spawned) :
    (p.trove = [] ∨ ∃ trove, p.trove = r.number :: trove) ↔ p.running = [] := by
  have hnot : r.number ∉ p.running.map Running.number := fun hmem =>
    (List.nodup_append.mp (List.nodup_append.mp h.nodup).1).2.2 r.number
      (List.mem_map_of_mem hr) r.number hmem rfl
  rw [h.trove, List.map_eq_nil_iff]
  refine ⟨fun ht => ht.resolve_right ?_, .inl⟩
  rintro ⟨trove, htrove⟩
  exact hnot (htrove ▸ List.mem_cons_self)

/-- A coroutine that starts leaves its place. -/
theorem Inv.start_iff (h : Inv p) {i : Nat} {r : Spawned} (hr : p.spawned[i]? = some r) :
    ((a.step p (.start i)).halted = none ↔
      a.HasRequest r.data ∧ (a.Dispatched r.data ∨ p.running = [])) ∧
    ((a.step p (.start i)).halted = none → Inv (a.step p (.start i))) := by
  have hmove := map_eraseIdx_perm (fun r : Spawned => (r.number, r.client)) hr
  rw [step_start h.halted hr]
  unfold handleRequest
  by_cases hok : (a.scene r.data).details.isOk = true
  · have haccepted := (isOk_scene_iff r.data).mp hok
    have hrequest : a.HasRequest r.data := by
      obtain ⟨envelope, new, _, hjson, hnew, _⟩ := haccepted
      exact ⟨envelope, new, hjson, hnew⟩
    simp only [hok, Bool.not_true, Bool.false_eq_true, if_false]
    refine ⟨iff_of_true h.halted ⟨hrequest, .inl haccepted⟩, fun _ => ⟨h.halted, ?_, ?_, ?_⟩⟩
    · simp [TreasureTrove.add, h.trove]
    · refine List.Perm.trans ?_ h.tickets
      simpa [ApiState.tickets] using perm_move (p.running.map fun r => (r.number, r.client))
        (p.replies.map fun r => (r.number, r.client)) hmove
    · intro q hq
      rcases List.mem_append.mp hq with hq | hq
      · exact h.msg q hq
      · obtain rfl := List.mem_singleton.mp hq
        exact (isSome_msg_scene_iff r.data).mpr hrequest
  · have hrefused : ¬ a.Dispatched r.data := fun hacc => hok ((isOk_scene_iff r.data).mpr hacc)
    have hempty := h.trove_iff_of_spawned (List.mem_of_getElem? hr)
    simp only [Bool.not_eq_true] at hok
    simp only [hok, Bool.not_false, if_true]
    rw [halted_handleResponse_iff (by exact h.halted), isSome_msg_scene_iff]
    refine ⟨by rw [hempty]; simp [hrefused], fun ⟨hmsg, htrove⟩ => ?_⟩
    have hrunning := hempty.mp htrove
    have hnil : p.trove = [] := by rw [h.trove, hrunning]; rfl
    rw [handleResponse_eq (p := { p with spawned := p.spawned.eraseIdx i })
      ((isSome_msg_scene_iff r.data).mpr hmsg) (.inl ⟨hnil, rfl⟩)]
    refine ⟨h.halted, by simp [hrunning], List.Perm.trans ?_ h.tickets, h.msg⟩
    simpa [ApiState.tickets] using perm_move (p.running.map (fun r => (r.number, r.client)) ++
      p.replies.map fun r => (r.number, r.client)) [] hmove

theorem Inv.trove_of_head (h : Inv p) {r : Running M} (hr : p.running[0]? = some r) :
    p.trove = r.number :: (p.running.eraseIdx 0).map Running.number := by
  rw [h.trove]
  cases hrunning : p.running with
  | nil =>
    rw [hrunning] at hr
    cases hr
  | cons q running =>
    rw [hrunning] at hr
    obtain rfl := Option.some.inj hr
    rfl

/-- The numbers differ, so only the first request in flight has the first number. -/
theorem Inv.trove_iff_of_running (h : Inv p) {i : Nat} {r : Running M}
    (hr : p.running[i]? = some r) :
    (p.trove = [] ∨ ∃ trove, p.trove = r.number :: trove) ↔ i = 0 := by
  have hnodup : (p.running.map Running.number).Nodup :=
    (List.nodup_append.mp (List.nodup_append.mp h.nodup).1).2.1
  obtain ⟨hi, hget⟩ := List.getElem?_eq_some_iff.mp hr
  have hlen : i < (p.running.map Running.number).length := by simpa using hi
  have hn : (p.running.map Running.number)[i] = r.number := by
    rw [List.getElem_map, hget]
  constructor
  · rw [h.trove]
    rintro (hnil | ⟨trove, hmap⟩)
    · rw [hnil] at hlen
      cases hlen
    · have h0 : (p.running.map Running.number)[0]? = some r.number := by
        rw [hmap]
        rfl
      obtain ⟨hpos, h0⟩ := List.getElem?_eq_some_iff.mp h0
      exact (List.Nodup.getElem_inj_iff hnodup).mp (hn.trans h0.symm)
  · rintro rfl
    exact .inr ⟨_, h.trove_of_head hr⟩

/-- So does one whose handler finishes. -/
theorem Inv.finish_iff (h : Inv p) {i : Nat} {r : Running M} (hr : p.running[i]? = some r)
    (details : Details) (msg : Option M) :
    ((a.step p (.finish i details msg)).halted = none ↔ i = 0) ∧
    ((a.step p (.finish i details msg)).halted = none →
      Inv (a.step p (.finish i details msg))) := by
  have hmove := map_eraseIdx_perm (fun r : Running M => (r.number, r.client)) hr
  have hmsg : { r.scene with details : RequestScene M }.msg.isSome :=
    h.msg r (List.mem_of_getElem? hr)
  have hfirst := h.trove_iff_of_running hr
  rw [step_finish h.halted hr, halted_handleResponse_iff (by exact h.halted)]
  refine ⟨by simp only [hmsg, true_and]; exact hfirst, fun ⟨_, htrove⟩ => ?_⟩
  obtain rfl := hfirst.mp htrove
  rw [handleResponse_eq (p := { p with running := p.running.eraseIdx 0 }) hmsg
    (.inr (h.trove_of_head hr))]
  refine ⟨h.halted, rfl, List.Perm.trans ?_ h.tickets,
    fun q hq => h.msg q (List.mem_of_mem_eraseIdx hq)⟩
  simpa [ApiState.tickets] using (perm_move (p.replies.map fun r => (r.number, r.client)) []
    hmove).append_left (p.spawned.map fun r => (r.number, r.client))

/-- **One event** is survived exactly when it is safe, and then every message is at one place
again. -/
theorem Inv.step_iff (h : Inv p) (e : RequestEvent M) :
    ((a.step p e).halted = none ↔ Safe a p e) ∧
      ((a.step p e).halted = none → Inv (a.step p e)) := by
  cases e with
  | receive client data =>
    have hinv := h.receive (a := a) client data
    exact ⟨iff_of_true hinv.halted trivial, fun _ => hinv⟩
  | start i =>
    cases hr : p.spawned[i]? with
    | none =>
      have hstep : a.step p (.start i) = p := by
        unfold step
        rw [h.halted]
        simp only [hr]
      rw [hstep]
      refine ⟨iff_of_true h.halted fun r hr' => ?_, fun _ => h⟩
      rw [hr] at hr'
      cases hr'
    | some r =>
      obtain ⟨hiff, hinv⟩ := h.start_iff (a := a) hr
      refine ⟨hiff.trans ⟨fun hsafe r' hr' => ?_, fun hsafe => hsafe r hr⟩, hinv⟩
      obtain rfl := Option.some.inj (hr.symm.trans hr')
      exact hsafe
  | finish i details msg =>
    cases hr : p.running[i]? with
    | none =>
      have hstep : a.step p (.finish i details msg) = p := by
        unfold step
        rw [h.halted]
        simp only [hr]
      rw [hstep]
      have hle := List.getElem?_eq_none_iff.mp hr
      exact ⟨iff_of_true h.halted fun hi => absurd hi (by omega), fun _ => h⟩
    | some r =>
      obtain ⟨hiff, hinv⟩ := h.finish_iff (a := a) hr details msg
      have hi := (List.getElem?_eq_some_iff.mp hr).1
      exact ⟨hiff.trans ⟨fun hsafe _ => hsafe, fun hsafe => hsafe hi⟩, hinv⟩

end ApiState

/-! ## Runs -/

namespace Api

variable {M : Type}

open ApiState

/-- **When every request gets its reply.** Along any run, the port goes on in every state reached,
each message has exactly one reply once its coroutine is through, addressed to its client, and the
trove holds exactly the scenes in flight; if and only if every message that starts has a request
object and is accepted or finds nothing in flight, and the handlers finish in the order the requests
were accepted in. -/
theorem answered_iff (a : Api M) (events : List (RequestEvent M)) :
    (∀ l, l <+: events → Answered (a.run l)) ↔
      ∀ l e, l ++ [e] <+: events → Safe a (a.run l) e := by
  constructor
  · intro h l e hle
    have hinv : Inv (a.run l) :=
      Trace.invariant_prefix a.step id (fun p _ => Inv p) (fun p e => (a.step p e).halted = none)
        (fun p _ e hp he => (hp.step_iff e).2 he) inv_empty
        (fun l e hle => by
          have hnext := (h _ hle).halted
          rwa [run, Trace.final_append] at hnext)
        ((List.prefix_append l [e]).trans hle)
    have hnext := (h _ hle).halted
    rw [run, Trace.final_append] at hnext
    exact (hinv.step_iff e).1.mp hnext
  · intro h l hl
    have hinv : Inv (a.run l) :=
      Trace.invariant_prefix a.step id (fun p _ => Inv p) (Safe a)
        (fun p _ e hp he => (hp.step_iff e).2 ((hp.step_iff e).1.mpr he)) inv_empty h hl
    exact hinv.toAnswered

/-- A port with one type of message and a handler for it, for which no bytes are not JSON. -/
def oneType : Api Unit where
  pb :=
    { fromJson := fun data => if data = [] then .error "empty" else .ok ⟨⟨"Message", data⟩, none⟩
      newMsg := fun type => if type = "Message" then some () else none
      unpackTo := fun _ _ => (true, ())
      getTypeId := fun _ => 0 }
  authenticator := none
  handlers _ := true

/-- A message that is not JSON is not replied to, and of two requests in flight the second one must
not finish first. -/
theorem oneType_not_answered :
    ¬ Answered (oneType.run [.receive [1] [], .start 0]) ∧
    ¬ Answered (oneType.run [.receive [1] [1], .receive [2] [1], .start 0, .start 0,
      .finish 1 {} none]) := by
  constructor
  · intro h
    cases h.halted
  · intro h
    cases h.halted

end Api

end Fluffycoin.Svc
