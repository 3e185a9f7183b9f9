import Fluffycoin.Ossl.Convert
import Fluffycoin.Utils.Details
import Fluffycoin.Utils.SortedMap

/-!
# The routing of events

Model of `src/svc/events/EventSubscriptionMap.cpp`, generic in the handlers `H`, and of what
`EventProcessor` does with an event it has received (`queueRead`, `EventProcessor.cpp:35-90`).

A service routes events in two places. ZMQ delivers the events whose topic starts with a topic that
was subscribed to, and all events if the empty topic was; the map then finds the handler for the
topic of an event. For the events of local services the handler of the empty topic stands in where
there is none for the topic itself (`getServiceHandler`). For those of peers nothing does
(`getPeerHandler`).

## Results

* `mapPeerHandlers_after`, `mapServiceHandlers_after`: the two maps hold the registrations, a later
  one for a topic in place of an earlier.
* `peer_routing_agrees_iff`: with the same registrations for peers and for a port, a topic is routed
  alike exactly if it is registered itself or the empty topic is not.
* `dispatch_peer_unregistered`: an event that the empty topic subscribed to is received and dropped.
-/

namespace Fluffycoin.Svc

open Std (ExtTreeMap)

structure EventSubscriptionMap (H : Type) where
  mapPeerHandlers : ExtTreeMap (List Char) H := ∅
  mapServiceHandlers : ExtTreeMap UInt16 (ExtTreeMap (List Char) H) := ∅

namespace EventSubscriptionMap

variable {H : Type}

def getServiceHandler (m : EventSubscriptionMap H) (port : UInt16) (topic : List Char) : Option H :=
  -- Find event port
  match m.mapServiceHandlers[port]? with
  | none => none
  | some handlers =>
    -- Find topic
    match handlers[topic]? with
    | some handler => some handler
    -- Find empty topic (all topics)
    | none => handlers[([] : List Char)]?

def getPeerHandler (m : EventSubscriptionMap H) (topic : List Char) : Option H :=
  m.mapPeerHandlers[topic]?

def addHandler (m : EventSubscriptionMap H) (port : UInt16) (topic : List Char) (handler : H) :
    EventSubscriptionMap H :=
  let handlers := (SortedMap.under m.mapServiceHandlers port).insert topic handler
  { m with mapServiceHandlers := m.mapServiceHandlers.insert port handlers }

def addPeerHandler (m : EventSubscriptionMap H) (topic : List Char) (handler : H) :
    EventSubscriptionMap H :=
  { m with mapPeerHandlers := m.mapPeerHandlers.insert topic handler }

def getPeerSubscriptions (m : EventSubscriptionMap H) : List (List Char) := m.mapPeerHandlers.keys

/-- `EventSubscriptionMap::getServiceSubscriptions`. A port without topics gets no list. -/
def getServiceSubscriptions (m : EventSubscriptionMap H) : ExtTreeMap UInt16 (List (List Char)) :=
  m.mapServiceHandlers.filterMap fun _ handlers =>
    if handlers.isEmpty then none else some handlers.keys

/-! ## Registrations -/

/-- A call of `addPeerHandler` or of `addHandler`. -/
inductive Registration (H : Type)
  | peer (topic : List Char) (handler : H)
  | service (port : UInt16) (topic : List Char) (handler : H)
deriving DecidableEq, Repr

namespace Registration

/-- What the call registers for peers. -/
def forPeers : Registration H → Option (List Char × H)
  | peer topic handler => some (topic, handler)
  | service _ _ _ => none

/-- What the call registers for a port. -/
def forPort (port : UInt16) : Registration H → Option (List Char × H)
  | peer _ _ => none
  | service p topic handler => if p = port then some (topic, handler) else none

end Registration

def register (m : EventSubscriptionMap H) : Registration H → EventSubscriptionMap H
  | .peer topic handler => m.addPeerHandler topic handler
  | .service port topic handler => m.addHandler port topic handler

/-- The map after the registrations. -/
def after (rs : List (Registration H)) : EventSubscriptionMap H := rs.foldl register {}

theorem after_append_singleton (rs : List (Registration H)) (r : Registration H) :
    after (rs ++ [r]) = (after rs).register r := List.foldl_append

/-- The handlers of a list of topics, the last one for each. -/
def table (l : List (List Char × H)) : ExtTreeMap (List Char) H :=
  l.foldl (fun t e => t.insert e.1 e.2) ∅

theorem table_append_singleton (l : List (List Char × H)) (topic : List Char) (handler : H) :
    table (l ++ [(topic, handler)]) = (table l).insert topic handler := List.foldl_append

theorem mem_table_iff {l : List (List Char × H)} {topic : List Char} :
    topic ∈ table l ↔ topic ∈ l.map Prod.fst := by
  induction l using List.reverseRecOn with
  | nil => exact iff_of_false ExtTreeMap.not_mem_empty List.not_mem_nil
  | append_singleton l e ih =>
    rw [table_append_singleton, ExtTreeMap.mem_insert, Std.LawfulEqCmp.compare_eq_iff_eq, ih,
      List.map_append, List.mem_append, or_comm, List.map_singleton, List.mem_singleton, eq_comm]

/-- The handlers for peers are those registered for peers. -/
theorem mapPeerHandlers_after (rs : List (Registration H)) :
    (after rs).mapPeerHandlers = table (rs.filterMap Registration.forPeers) := by
  induction rs using List.reverseRecOn with
  | nil => rfl
  | append_singleton rs r ih =>
    rw [after_append_singleton, List.filterMap_append]
    cases r with
    | peer topic handler =>
      show (after rs).mapPeerHandlers.insert topic handler = _
      rw [ih, ← table_append_singleton]
      rfl
    | service port topic handler =>
      show (after rs).mapPeerHandlers = _
      rw [ih]
      exact congrArg table (List.append_nil _).symm

/-- The handlers for a port are those registered for the port. -/
theorem mapServiceHandlers_after (rs : List (Registration H)) (port : UInt16) :
    SortedMap.under (after rs).mapServiceHandlers port =
      table (rs.filterMap (Registration.forPort port)) := by
  induction rs using List.reverseRecOn with
  | nil => rfl
  | append_singleton rs r ih =>
    rw [after_append_singleton, List.filterMap_append]
    cases r with
    | peer topic handler =>
      show SortedMap.under (after rs).mapServiceHandlers port = _
      rw [ih]
      exact congrArg table (List.append_nil _).symm
    | service p topic handler =>
      show SortedMap.under ((after rs).mapServiceHandlers.insert p _) port = _
      rw [SortedMap.under_insert]
      by_cases hp : p = port
      · subst hp
        rw [if_pos rfl, ih, ← table_append_singleton]
        simp [Registration.forPort]
      · rw [if_neg (Ne.symm hp), ih]
        simp [Registration.forPort, hp]

/-- The handler for a port and a topic, from the handlers of the port. -/
theorem getServiceHandler_eq (m : EventSubscriptionMap H) (port : UInt16) (topic : List Char) :
    m.getServiceHandler port topic =
      (SortedMap.under m.mapServiceHandlers port)[topic]?.or
        (SortedMap.under m.mapServiceHandlers port)[([] : List Char)]? := by
  unfold getServiceHandler SortedMap.under
  cases m.mapServiceHandlers[port]? with
  | none => rfl
  | some handlers =>
    dsimp only [Option.getD_some]
    cases handlers[topic]? <;> rfl

/-! ## The two routes -/

/-- The topics that are registered for peers. -/
def peerTopics (rs : List (Registration H)) : List (List Char) :=
  (rs.filterMap Registration.forPeers).map Prod.fst

theorem mem_getPeerSubscriptions_iff {rs : List (Registration H)} {topic : List Char} :
    topic ∈ (after rs).getPeerSubscriptions ↔ topic ∈ peerTopics rs := by
  rw [getPeerSubscriptions, ExtTreeMap.mem_keys, mapPeerHandlers_after, mem_table_iff, peerTopics]

theorem isSome_getPeerHandler_iff {rs : List (Registration H)} {topic : List Char} :
    ((after rs).getPeerHandler topic).isSome ↔ topic ∈ peerTopics rs := by
  rw [getPeerHandler, ← ExtTreeMap.mem_iff_isSome_getElem?, mapPeerHandlers_after, mem_table_iff,
    peerTopics]

/-- **When a topic is routed alike for peers and for a port** that have the same registrations, and
what the empty topic subscribes to finds a handler: exactly if the topic is registered itself, or
the empty topic is not. -/
theorem peer_routing_agrees_iff (rs : List (Registration H)) (port : UInt16)
    (hsame : rs.filterMap Registration.forPeers = rs.filterMap (Registration.forPort port))
    (topic : List Char) :
    ((after rs).getPeerHandler topic = (after rs).getServiceHandler port topic ∧
      ([] ∈ (after rs).getPeerSubscriptions → ((after rs).getPeerHandler topic).isSome)) ↔
      topic ∈ peerTopics rs ∨ [] ∉ peerTopics rs := by
  have hservice : (after rs).getServiceHandler port topic =
      ((after rs).getPeerHandler topic).or ((after rs).getPeerHandler []) := by
    rw [getServiceHandler_eq, mapServiceHandlers_after, ← hsame, ← mapPeerHandlers_after]
    rfl
  rw [hservice, isSome_getPeerHandler_iff, mem_getPeerSubscriptions_iff]
  constructor
  · rintro ⟨_, hdelivered⟩
    by_cases hempty : [] ∈ peerTopics rs
    · exact .inl (hdelivered hempty)
    · exact .inr hempty
  · rintro (htopic | hempty)
    · refine ⟨?_, fun _ => htopic⟩
      obtain ⟨handler, hhandler⟩ :=
        Option.isSome_iff_exists.mp (isSome_getPeerHandler_iff.mpr htopic)
      rw [hhandler, Option.some_or]
    · refine ⟨?_, fun h => absurd h hempty⟩
      have hnone : (after rs).getPeerHandler [] = none := by
        rw [← Option.not_isSome_iff_eq_none, isSome_getPeerHandler_iff]
        exact hempty
      rw [hnone, Option.or_none]

theorem peer_routing_agrees_iff_topic :
    ((after [.peer ['a'] 1, .service 7 ['a'] 1]).getPeerHandler ['a'] =
        (after [.peer ['a'] 1, .service 7 ['a'] 1]).getServiceHandler 7 ['a'] ∧
      ([] ∈ (after [.peer ['a'] 1, .service 7 ['a'] 1]).getPeerSubscriptions →
        ((after [.peer ['a'] 1, .service 7 ['a'] 1]).getPeerHandler ['a']).isSome)) ↔
      ['a'] ∈ peerTopics [Registration.peer ['a'] 1, .service 7 ['a'] 1] ∨
        [] ∉ peerTopics [Registration.peer ['a'] 1, .service 7 ['a'] 1] :=
  peer_routing_agrees_iff [.peer ['a'] 1, .service 7 ['a'] 1] 7 rfl ['a']

/-- Subscribed to all topics, a port finds its handler and a peer does not. -/
theorem peer_wildcard_not_found :
    (after [.peer [] 1, .service 7 [] 1]).getPeerSubscriptions = [[]] ∧
      (after [.peer [] 1, .service 7 [] 1]).getPeerHandler ['a'] = none ∧
      (after [.peer [] 1, .service 7 [] 1]).getServiceHandler 7 ['a'] = some 1 :=
  ⟨rfl, rfl, rfl⟩

end EventSubscriptionMap

/-! ## What becomes of an event -/

section EventProcessor

variable {H E : Type} (getHandler : List Char → Option H)
  (fromJson : Bytes → Details → E × Details)

/-- What the callback of `queueRead` does with what was received, a topic and data: the handler it
posts, with the envelope. `fromJson` deserializes the envelope. -/
def dispatch (event : Option (List Char × Bytes)) (details : Details) : Option (H × E) × Details :=
  match event with
  | none => (none, details)
  | some (topic, data) =>
    -- Sane validate we got something if a message came across
    let details :=
      if details.isOk && data = [] then
        details.setError .readError "pubsub"
          ("Received empty data for topic " ++ String.ofList topic ++ " subscription.")
      else if details.isOk && topic = [] then
        details.setError .readError "pubsub" "Received empty topic for event."
      else details
    if !details.isOk then (none, details)
    else
      -- Deserialize wrapper
      let (envelope, details) := fromJson data details
      if !details.isOk then (none, details)
      else match getHandler topic with
        | none =>
          (none, details.setError .unknownCommand "pubsub"
            ("Failed to find handler for topic " ++ String.ofList topic ++ "."))
        | some handler => (some (handler, envelope), details)

variable {getHandler fromJson} {topic : List Char} {data : Bytes} {details : Details}

/-- A sane event goes to the handler of its topic, if there is one. -/
theorem dispatch_eq (hok : details.isOk = true) (hdata : data ≠ []) (htopic : topic ≠ [])
    (hjson : (fromJson data details).2.isOk = true) :
    (dispatch getHandler fromJson (some (topic, data)) details).1 =
      (getHandler topic).map fun handler => (handler, (fromJson data details).1) := by
  simp only [dispatch, hok, hdata, htopic, hjson, decide_false, Bool.and_false, Bool.false_eq_true,
    if_false, Bool.not_true]
  cases getHandler topic <;> rfl

/-- ZMQ delivers the events whose topic starts with one that was subscribed to. -/
def Delivers (subscriptions : List (List Char)) (topic : List Char) : Prop :=
  ∃ s ∈ subscriptions, s <+: topic

/-- **Received and dropped.** With a handler for all topics of peers, every event of theirs is
delivered, and one whose topic has no handler of its own reaches none. -/
theorem dispatch_peer_unregistered {rs : List (EventSubscriptionMap.Registration H)}
    (hempty : [] ∈ EventSubscriptionMap.peerTopics rs)
    (hother : topic ∉ EventSubscriptionMap.peerTopics rs) (hok : details.isOk = true)
    (hdata : data ≠ []) (hjson : (fromJson data details).2.isOk = true) :
    Delivers (EventSubscriptionMap.after rs).getPeerSubscriptions topic ∧
      (dispatch (EventSubscriptionMap.after rs).getPeerHandler fromJson (some (topic, data))
        details).1 = none := by
  refine ⟨⟨[], EventSubscriptionMap.mem_getPeerSubscriptions_iff.mpr hempty, List.nil_prefix⟩, ?_⟩
  have htopic : topic ≠ [] := fun h => hother (h ▸ hempty)
  rw [dispatch_eq hok hdata htopic hjson, Option.map_eq_none_iff, ← Option.not_isSome_iff_eq_none,
    EventSubscriptionMap.isSome_getPeerHandler_iff]
  exact hother

end EventProcessor

end Fluffycoin.Svc
