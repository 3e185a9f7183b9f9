import Fluffycoin.Svc.EventLoop

/-!
# `svc::EventProcessor`

Model of `EventProcessor::addPeer`, `removePeer` and `subscribeLocal`
(`src/svc/events/EventProcessor.cpp:112-217`). The sockets the processor keeps are `Listener`s (see
`Svc/EventLoop.lean`); a run is any sequence of calls, of messages that arrive at a socket, and of
descriptors that get ready.

What the outside does to a connection while it is set up is a `Connection`: what `connectSocket`
leaves in the details, which topics are refused, and the messages that have arrived when the
callback is called for the first time. That call is part of the setup, on its details, so that an
event without a handler makes `addPeer` fail (`Connection.Works`).

`removePeer` does not take the mutex that `addPeer` takes; here the calls do not overlap.

## Results

* `addPeer_run_iff`: after any run, the keys of the sockets are those of the peers that have been
  added with success and not been removed since, and all sockets go on listening, for all topics
  (`Inv`). So `addPeer` succeeds exactly if there is nothing to subscribe to, or the peer is not
  among those and the connection works.
* `subscribeLocal_iff`: `subscribeLocal` succeeds exactly if the connections of all ports work.
-/

namespace Fluffycoin.Svc

open Fluffycoin.Async Fluffycoin.Zmq
open Std (ExtTreeMap)

/-- A `std::string` as a frame. -/
def bytes (topic : List Char) : Bytes := topic.map Char.toUInt8

structure Connection where
  connected : Details := {}
  refused : List Char → Option String := fun _ => none
  arrived : List (List Bytes) := []

structure EventProcessor (H E : Type) where
  peerTopics : List (List Char) := []
  peerSockets : ExtTreeMap (List Char) (Listener H E) := ∅
  localSockets : List (Listener H E) := []

namespace Connection

variable {H E : Type} [Inhabited E] (getHandler : List Char → Option H)
  (parse : Bytes → Except String E) (c : Connection) (topics : List (List Char))

/-- Subscribe to each topic. -/
def subscribe (details : Details) (subscriber : Subscriber) : Details × Subscriber :=
  topics.foldl (fun r topic => r.2.subscribe (bytes topic) (c.refused topic) r.1)
    (details, subscriber)

/-- Connect, subscribe and give to asio. -/
def listen : Details × Option (Listener H E) :=
  let r := ({} : Subscriber).connect c.connected
  let r := c.subscribe topics r.1 r.2
  Listener.startListening getHandler parse (c.arrived.foldl Subscriber.deliver r.2) r.1

/-- The frames that are there when the callback is called for the first time. -/
def frames : List Bytes := (c.arrived.filter (wants (topics.map bytes))).flatten

/-- Nothing goes wrong with the connection. -/
structure Works : Prop where
  connected : c.connected.isOk = true
  refused : ∀ topic ∈ topics, c.refused topic = none
  arrived : c.frames topics = [] ∨ ∃ event ∈ (Subscriber.next (c.frames topics)).1,
    (Listener.handled getHandler parse event).isSome

variable {c topics} {details : Details} {subscriber : Subscriber}

theorem subscribe_cons (topic : List Char) :
    c.subscribe (topic :: topics) details subscriber =
      let r := subscriber.subscribe (bytes topic) (c.refused topic) details
      c.subscribe topics r.1 r.2 := rfl

/-- An error is not forgotten. -/
theorem isOk_subscribe_of_not (h : details.isOk = false) (topics : List (List Char)) :
    (c.subscribe topics details subscriber).1.isOk = false := by
  induction topics generalizing details subscriber with
  | nil => exact h
  | cons topic topics ih =>
    rw [subscribe_cons]
    refine ih ?_
    simp only [Subscriber.subscribe]
    cases subscriber.socket with
    | none => rfl
    | some socket => simp [h]

/-- All topics are subscribed to, unless one is refused. -/
theorem subscribe_eq (hok : details.isOk = true) (ts : List Bytes) (b : Bool) :
    ((∀ topic ∈ topics, c.refused topic = none) ∧
      c.subscribe topics details ⟨some ⟨[], ts⟩, b⟩ =
        (details, ⟨some ⟨[], ts ++ topics.map bytes⟩, b || !topics.isEmpty⟩)) ∨
    ((∃ topic ∈ topics, c.refused topic ≠ none) ∧
      (c.subscribe topics details ⟨some ⟨[], ts⟩, b⟩).1.isOk = false) := by
  induction topics generalizing ts b with
  | nil => exact .inl ⟨List.forall_mem_nil _, by simp [subscribe]⟩
  | cons topic topics ih =>
    cases hrefused : c.refused topic with
    | some errno =>
      refine .inr ⟨⟨topic, List.mem_cons_self, by simp [hrefused]⟩, ?_⟩
      rw [subscribe_cons]
      refine isOk_subscribe_of_not ?_ topics
      simp [Subscriber.subscribe, hok, hrefused, Details.isOk_setError]
    | none =>
      have hstep : c.subscribe (topic :: topics) details ⟨some ⟨[], ts⟩, b⟩ =
          c.subscribe topics details ⟨some ⟨[], ts ++ [bytes topic]⟩, true⟩ := by
        simp [subscribe, Subscriber.subscribe, hok, hrefused]
      rw [hstep]
      rcases ih (ts ++ [bytes topic]) true with ⟨hall, heq⟩ | ⟨⟨t, ht, hne⟩, hnot⟩
      · exact .inl ⟨List.forall_mem_cons.mpr ⟨hrefused, hall⟩, by simp [heq]⟩
      · exact .inr ⟨⟨t, List.mem_cons_of_mem _ ht, hne⟩, hnot⟩

theorem deliver_arrived (fs ts : List Bytes) (arrived : List (List Bytes)) :
    arrived.foldl Subscriber.deliver (.on fs ts) =
      .on (fs ++ (arrived.filter (wants ts)).flatten) ts := by
  induction arrived generalizing fs with
  | nil => simp
  | cons m arrived ih =>
    rw [List.foldl_cons, Subscriber.deliver_on, ih]
    by_cases hm : wants ts m = true <;> simp [hm]

/-- What connecting and subscribing come to. -/
theorem setup_cases (htopics : topics ≠ []) :
    let r := ({} : Subscriber).connect c.connected
    (c.connected.isOk = true ∧ (∀ topic ∈ topics, c.refused topic = none) ∧
      c.subscribe topics r.1 r.2 = (c.connected, .on [] (topics.map bytes))) ∨
    (¬ (c.connected.isOk = true ∧ ∀ topic ∈ topics, c.refused topic = none) ∧
      (c.subscribe topics r.1 r.2).1.isOk = false) := by
  intro r
  by_cases hok : c.connected.isOk = true
  · have hr : r = (c.connected, ⟨some ⟨[], []⟩, false⟩) := by simp [r, Subscriber.connect, hok,
      Subscriber.close]
    rw [hr]
    rcases subscribe_eq hok [] false with ⟨hall, heq⟩ | ⟨⟨topic, htopic, hne⟩, hnot⟩
    · refine .inl ⟨hok, hall, heq.trans ?_⟩
      rw [List.nil_append, Bool.false_or, List.isEmpty_eq_false_iff.mpr htopics]
      rfl
    · exact .inr ⟨fun h => hne (h.2 topic htopic), hnot⟩
  · refine .inr ⟨fun h => hok h.1, isOk_subscribe_of_not ?_ topics⟩
    exact Bool.eq_false_iff.mpr hok

variable {getHandler parse} {l : Listener H E}

theorem listen_isOk :
    (c.listen getHandler parse topics).1.isOk = (c.listen getHandler parse topics).2.isSome :=
  Listener.isOk_startListening _ _

/-- **When a connection is taken.** -/
theorem listen_isSome_iff (htopics : topics ≠ []) :
    (c.listen getHandler parse topics).2.isSome ↔ c.Works getHandler parse topics := by
  rcases setup_cases (c := c) htopics with ⟨hok, hrefused, hsetup⟩ | ⟨hnot, herror⟩
  · rw [listen, hsetup, deliver_arrived, List.nil_append]
    rw [Listener.startListening_isSome_iff hok]
    exact ⟨fun h => ⟨hok, hrefused, h⟩, fun h => h.arrived⟩
  · refine iff_of_false ?_ fun h => hnot ⟨h.connected, h.refused⟩
    simp only [listen, Listener.startListening]
    rw [if_neg (Bool.eq_false_iff.mp herror)]
    exact Bool.false_ne_true

theorem listening_of_listen (htopics : topics ≠ [])
    (h : (c.listen getHandler parse topics).2 = some l) :
    ∃ fs, l.Listening fs (topics.map bytes) := by
  rcases setup_cases (c := c) htopics with ⟨hok, hrefused, hsetup⟩ | ⟨hnot, herror⟩
  · rw [listen, hsetup, deliver_arrived, List.nil_append] at h
    exact ⟨_, (Listener.listening_of_startListening hok h).1⟩
  · simp only [listen, Listener.startListening] at h
    rw [if_neg (Bool.eq_false_iff.mp herror)] at h
    cases h

end Connection

namespace EventProcessor

/-- `fmt::format("{}:{}", host, port)`. -/
def peerKey (host : List Char) (port : UInt16) : List Char :=
  host ++ ':' :: Nat.toDigits 10 port.toNat

variable {H E : Type} [Inhabited E] (handlers : EventSubscriptionMap H)
  (parse : Bytes → Except String E)

/-- `EventProcessor::addPeer`. -/
def addPeer (p : EventProcessor H E) (host : List Char) (port : UInt16) (c : Connection) :
    Bool × EventProcessor H E :=
  let p :=
    if p.peerTopics = [] then { p with peerTopics := handlers.getPeerSubscriptions } else p
  -- Nothing to subscribe to
  if p.peerTopics = [] then (true, p)
  -- Are we already subscribed to this peer?
  else if peerKey host port ∈ p.peerSockets then (false, p)
  else
    let r := c.listen handlers.getPeerHandler parse p.peerTopics
    -- Save socket
    match r.2 with
    | some sub => (r.1.isOk, { p with peerSockets := p.peerSockets.insert (peerKey host port) sub })
    | none => (r.1.isOk, p)

/-- `EventProcessor::removePeer`. -/
def removePeer (p : EventProcessor H E) (host : List Char) (port : UInt16) : EventProcessor H E :=
  { p with peerSockets := p.peerSockets.erase (peerKey host port) }

/-- The loop of `subscribeLocal`; `c` has the connection to each port. -/
def subscribeLoop (c : UInt16 → Connection) :
    List (UInt16 × List (List Char)) → EventProcessor H E → Bool × EventProcessor H E
  | [], p => (true, p)
  | (port, topics) :: subs, p =>
    match ((c port).listen (handlers.getServiceHandler port) parse topics).2 with
    -- Any local service fails to setup subscription is fatal
    | none => (false, p)
    | some sub => subscribeLoop c subs { p with localSockets := p.localSockets ++ [sub] }

/-- `EventProcessor::subscribeLocal`. -/
def subscribeLocal (p : EventProcessor H E) (c : UInt16 → Connection) :
    Bool × EventProcessor H E :=
  subscribeLoop handlers parse c handlers.getServiceSubscriptions.toList p

/-- What can happen to a socket. -/
inductive SocketEvent where
  | deliver (m : List Bytes)
  | ready

def SocketEvent.apply (getHandler : List Char → Option H) (l : Listener H E) :
    SocketEvent → Listener H E
  | .deliver m => l.deliver m
  | .ready => l.ready getHandler parse

/-- What can happen to a processor; a local socket comes with the port it is connected to. -/
inductive Act where
  | addPeer (host : List Char) (port : UInt16) (c : Connection)
  | removePeer (host : List Char) (port : UInt16)
  | subscribeLocal (c : UInt16 → Connection)
  | peer (key : List Char) (e : SocketEvent)
  | service (i : Nat) (port : UInt16) (e : SocketEvent)

def step (p : EventProcessor H E) : Act → EventProcessor H E
  | .addPeer host port c => (p.addPeer handlers parse host port c).2
  | .removePeer host port => p.removePeer host port
  | .subscribeLocal c => (p.subscribeLocal handlers parse c).2
  | .peer key e =>
    match p.peerSockets[key]? with
    | none => p
    | some l =>
      { p with peerSockets := p.peerSockets.insert key (e.apply parse handlers.getPeerHandler l) }
  | .service i port e =>
    { p with localSockets :=
        p.localSockets.modify i fun l => e.apply parse (handlers.getServiceHandler port) l }

def run (acts : List Act) : EventProcessor H E := Trace.final (step handlers parse) id {} acts

/-- The peers that have been added over a connection that works, and not been removed since. -/
def peers (acts : List Act) : Set (List Char × UInt16) :=
  acts.foldl (fun s a => match a with
    | .addPeer host port c => { q | q ∈ s ∨ (q = (host, port) ∧
        handlers.getPeerSubscriptions ≠ [] ∧
        c.Works handlers.getPeerHandler parse handlers.getPeerSubscriptions) }
    | .removePeer host port => s \ {(host, port)}
    | _ => s) ∅

/-- The port is what stands behind the last colon. -/
theorem peerKey_inj {host host' : List Char} {port port' : UInt16} :
    peerKey host port = peerKey host' port' ↔ (host, port) = (host', port') := by
  refine ⟨fun h => ?_, fun h => by rw [(Prod.mk.inj h).1, (Prod.mk.inj h).2]⟩
  have hdigits (host : List Char) (port : UInt16) :
      (peerKey host port).reverse.takeWhile (· ≠ ':') = (Nat.toDigits 10 port.toNat).reverse := by
    rw [peerKey, List.reverse_append, List.reverse_cons, List.append_assoc,
      List.takeWhile_append_of_pos]
    · simp
    · intro c hc
      have hdigit := Nat.isDigit_of_mem_toDigits (by decide) (by decide) (List.mem_reverse.mp hc)
      exact decide_eq_true fun hcolon => absurd (hcolon ▸ hdigit) (by decide)
  have hrev : (Nat.toDigits 10 port.toNat).reverse = (Nat.toDigits 10 port'.toNat).reverse := by
    rw [← hdigits host port, h, hdigits]
  have hport : Nat.toDigits 10 port.toNat = Nat.toDigits 10 port'.toNat :=
    List.reverse_injective hrev
  rw [peerKey, peerKey, hport, List.append_cancel_right_eq] at h
  have hnat := congrArg (Nat.ofDigitChars 10 · 0) hport
  rw [Nat.ofDigitChars_toDigits (by decide) (by decide),
    Nat.ofDigitChars_toDigits (by decide) (by decide)] at hnat
  rw [h, UInt16.toNat_inj.mp hnat]

variable {handlers parse} {p : EventProcessor H E} {acts : List Act}

theorem SocketEvent.listening {l : Listener H E} {topics : List Bytes}
    (h : ∃ fs, l.Listening fs topics) (getHandler : List Char → Option H) (e : SocketEvent) :
    ∃ fs, (e.apply parse getHandler l).Listening fs topics := by
  obtain ⟨fs, h⟩ := h
  cases e with
  | deliver m => exact ⟨_, h.deliver m⟩
  | ready => exact ⟨_, (h.ready getHandler parse).1⟩

variable (handlers parse) in
/-- What holds of a processor after some events. -/
structure Inv (p : EventProcessor H E) (acts : List Act) : Prop where
  topics : p.peerTopics = [] ∨ p.peerTopics = handlers.getPeerSubscriptions
  keys : ∀ host port, peerKey host port ∈ p.peerSockets ↔ (host, port) ∈ peers handlers parse acts
  sockets : ∀ (key : List Char) (l : Listener H E), p.peerSockets[key]? = some l →
    ∃ fs, l.Listening fs (handlers.getPeerSubscriptions.map bytes)
  services : ∀ l ∈ p.localSockets, ∃ e ∈ handlers.getServiceSubscriptions.toList,
    ∃ fs, l.Listening fs (e.2.map bytes)

omit [Inhabited E] in
theorem mem_peers_addPeer {host host' : List Char} {port port' : UInt16} {c : Connection} :
    (host', port') ∈ peers handlers parse (acts ++ [.addPeer host port c]) ↔
      (host', port') ∈ peers handlers parse acts ∨ ((host', port') = (host, port) ∧
        handlers.getPeerSubscriptions ≠ [] ∧
        c.Works handlers.getPeerHandler parse handlers.getPeerSubscriptions) := by
  rw [peers, List.foldl_append]
  rfl

/-- What `addPeer` does. -/
theorem addPeer_cases (h : Inv handlers parse p acts) (host : List Char) (port : UInt16)
    (c : Connection) :
    let topics := handlers.getPeerSubscriptions
    (topics = [] ∧ p.addPeer handlers parse host port c = (true, { p with peerTopics := [] })) ∨
    (topics ≠ [] ∧ ¬ ((host, port) ∉ peers handlers parse acts ∧
        c.Works handlers.getPeerHandler parse topics) ∧
      p.addPeer handlers parse host port c = (false, { p with peerTopics := topics })) ∨
    (topics ≠ [] ∧ (host, port) ∉ peers handlers parse acts ∧
      c.Works handlers.getPeerHandler parse topics ∧
      ∃ sub fs, sub.Listening fs (topics.map bytes) ∧ p.addPeer handlers parse host port c =
        (true, { p with
          peerTopics := topics
          peerSockets := p.peerSockets.insert (peerKey host port) sub })) := by
  intro topics
  have hp : (if p.peerTopics = [] then { p with peerTopics := topics } else p) =
      { p with peerTopics := topics } := by
    split
    · rfl
    · rename_i hne
      have heq : p.peerTopics = topics := h.topics.resolve_left hne
      rw [← heq]
  by_cases htopics : topics = []
  · refine .inl ⟨htopics, ?_⟩
    simp only [addPeer]
    rw [hp, if_pos htopics, htopics]
  · by_cases hkey : peerKey host port ∈ p.peerSockets
    · refine .inr (.inl ⟨htopics, fun hnot => hnot.1 ((h.keys host port).mp hkey), ?_⟩)
      simp only [addPeer]
      rw [hp, if_neg htopics, if_pos hkey]
    · have hpeer : (host, port) ∉ EventProcessor.peers handlers parse acts :=
        mt (h.keys host port).mpr hkey
      have hadd : p.addPeer handlers parse host port c =
          match (c.listen handlers.getPeerHandler parse topics).2 with
          | some sub => ((c.listen handlers.getPeerHandler parse topics).1.isOk,
              { p with peerTopics := topics
                       peerSockets := p.peerSockets.insert (peerKey host port) sub })
          | none => ((c.listen handlers.getPeerHandler parse topics).1.isOk,
              { p with peerTopics := topics }) := by
        simp only [addPeer]
        rw [hp, if_neg htopics, if_neg hkey]
      rw [hadd, Connection.listen_isOk]
      cases hsub : (c.listen handlers.getPeerHandler parse topics).2 with
      | none =>
        refine .inr (.inl ⟨htopics, fun hworks => ?_, rfl⟩)
        have hsome := (Connection.listen_isSome_iff htopics).mpr hworks.2
        rw [hsub] at hsome
        cases hsome
      | some sub =>
        obtain ⟨fs, hlistening⟩ := Connection.listening_of_listen htopics hsub
        refine .inr (.inr ⟨htopics, hpeer, ?_, sub, fs, hlistening, rfl⟩)
        exact (Connection.listen_isSome_iff htopics).mp (by rw [hsub]; rfl)

theorem Inv.addPeer (h : Inv handlers parse p acts) (host : List Char) (port : UInt16)
    (c : Connection) :
    Inv handlers parse (p.addPeer handlers parse host port c).2
      (acts ++ [.addPeer host port c]) := by
  rcases addPeer_cases h host port c with ⟨hnil, hadd⟩ | ⟨htopics, hnot, hadd⟩ |
    ⟨htopics, hpeer, hworks, sub, fs, hsub, hadd⟩
  · rw [hadd]
    refine ⟨.inl rfl, fun host' port' => ?_, h.sockets, h.services⟩
    rw [mem_peers_addPeer, ← h.keys]
    exact ⟨.inl, fun hor => hor.resolve_right fun hnew => hnew.2.1 hnil⟩
  · rw [hadd]
    refine ⟨.inr rfl, fun host' port' => ?_, h.sockets, h.services⟩
    rw [mem_peers_addPeer, ← h.keys]
    refine ⟨.inl, fun hor => hor.elim id fun hnew => ?_⟩
    -- a peer that is not added was there already
    obtain ⟨heq, -, hworks⟩ := hnew
    rw [peerKey_inj.mpr heq, h.keys]
    by_contra hpeer
    exact hnot ⟨hpeer, hworks⟩
  · rw [hadd]
    refine ⟨.inr rfl, fun host' port' => ?_, fun key l hl => ?_, h.services⟩
    · rw [mem_peers_addPeer, ExtTreeMap.mem_insert, Std.LawfulEqCmp.compare_eq_iff_eq, peerKey_inj,
        h.keys]
      constructor
      · rintro (heq | hmem)
        · exact .inr ⟨heq.symm, htopics, hworks⟩
        · exact .inl hmem
      · rintro (hmem | ⟨heq, -, -⟩)
        · exact .inr hmem
        · exact .inl heq.symm
    · rw [ExtTreeMap.getElem?_insert] at hl
      split at hl
      · exact ⟨fs, Option.some.inj hl ▸ hsub⟩
      · exact h.sockets key l hl

omit [Inhabited E] in
theorem Inv.removePeer (h : Inv handlers parse p acts) (host : List Char) (port : UInt16) :
    Inv handlers parse (p.removePeer host port) (acts ++ [.removePeer host port]) := by
  refine ⟨h.topics, fun host' port' => ?_, fun key l hl => h.sockets key l ?_, h.services⟩
  · have hpeers : EventProcessor.peers handlers parse (acts ++ [.removePeer host port]) =
        EventProcessor.peers handlers parse acts \ {(host, port)} := by
      rw [EventProcessor.peers, List.foldl_append]
      rfl
    rw [hpeers, EventProcessor.removePeer, ExtTreeMap.mem_erase, h.keys]
    rw [Ne, Std.LawfulEqCmp.compare_eq_iff_eq, peerKey_inj]
    exact ⟨fun hmem => ⟨hmem.2, fun heq => hmem.1 heq.symm⟩,
      fun hmem => ⟨fun heq => hmem.2 heq.symm, hmem.1⟩⟩
  · rw [EventProcessor.removePeer, ExtTreeMap.getElem?_erase] at hl
    split at hl
    · cases hl
    · exact hl

/-- No port is listed without topics. -/
theorem topics_ne_nil {e : UInt16 × List (List Char)}
    (h : e ∈ handlers.getServiceSubscriptions.toList) : e.2 ≠ [] := by
  obtain ⟨port, topics⟩ := e
  have hget := ExtTreeMap.mem_toList_iff_getElem?_eq_some.mp h
  rw [EventSubscriptionMap.getServiceSubscriptions, ExtTreeMap.getElem?_filterMap',
    Option.bind_eq_some_iff] at hget
  obtain ⟨table, -, htable⟩ := hget
  obtain ⟨hne, hkeys⟩ := Option.ite_none_left_eq_some.mp htable
  obtain rfl := Option.some.inj hkeys
  rw [← ExtTreeMap.isEmpty_keys, List.isEmpty_iff] at hne
  exact hne

variable (handlers parse) in
/-- The loop opens sockets up to the first port whose connection does not work. -/
theorem subscribeLoop_spec (c : UInt16 → Connection) {subs : List (UInt16 × List (List Char))}
    (hsubs : ∀ e ∈ subs, e.2 ≠ []) (p : EventProcessor H E) :
    ((subscribeLoop handlers parse c subs p).1 = true ↔
        ∀ e ∈ subs, (c e.1).Works (handlers.getServiceHandler e.1) parse e.2) ∧
      ∃ new, (subscribeLoop handlers parse c subs p).2 =
          { p with localSockets := p.localSockets ++ new } ∧
        ∀ l ∈ new, ∃ e ∈ subs, ∃ fs, l.Listening fs (e.2.map bytes) := by
  induction subs generalizing p with
  | nil => exact ⟨by simp [subscribeLoop], [], by simp [subscribeLoop], List.forall_mem_nil _⟩
  | cons e subs ih =>
    obtain ⟨port, topics⟩ := e
    obtain ⟨htopics, hrest⟩ := List.forall_mem_cons.mp hsubs
    have hworks : ((c port).listen (handlers.getServiceHandler port) parse topics).2.isSome ↔
        (c port).Works (handlers.getServiceHandler port) parse topics :=
      Connection.listen_isSome_iff htopics
    rw [subscribeLoop, List.forall_mem_cons]
    cases hsub : ((c port).listen (handlers.getServiceHandler port) parse topics).2 with
    | none =>
      rw [hsub] at hworks
      refine ⟨iff_of_false Bool.false_ne_true fun h => ?_, [], by simp, List.forall_mem_nil _⟩
      exact Bool.false_ne_true (hworks.mpr h.1)
    | some sub =>
      rw [hsub] at hworks
      obtain ⟨hiff, new, hnew, hlisten⟩ :=
        ih hrest { p with localSockets := p.localSockets ++ [sub] }
      obtain ⟨fs, hlistening⟩ := Connection.listening_of_listen htopics hsub
      refine ⟨hiff.trans ⟨fun h => ⟨hworks.mp rfl, h⟩, fun h => h.2⟩, sub :: new, ?_, ?_⟩
      · dsimp only
        rw [hnew]
        simp
      · refine List.forall_mem_cons.mpr ⟨⟨_, List.mem_cons_self, fs, hlistening⟩, fun l hl => ?_⟩
        obtain ⟨e, he, hfs⟩ := hlisten l hl
        exact ⟨e, List.mem_cons_of_mem _ he, hfs⟩

/-- **When the local subscriptions succeed**: all connections work. -/
theorem subscribeLocal_iff (p : EventProcessor H E) (c : UInt16 → Connection) :
    (p.subscribeLocal handlers parse c).1 = true ↔
      ∀ e ∈ handlers.getServiceSubscriptions.toList,
        (c e.1).Works (handlers.getServiceHandler e.1) parse e.2 :=
  (subscribeLoop_spec handlers parse c (fun _ he => topics_ne_nil he) p).1

theorem Inv.subscribeLocal (h : Inv handlers parse p acts) (c : UInt16 → Connection) :
    Inv handlers parse (p.subscribeLocal handlers parse c).2 (acts ++ [.subscribeLocal c]) := by
  obtain ⟨-, new, hnew, hlisten⟩ :=
    subscribeLoop_spec handlers parse c (fun _ he => topics_ne_nil he) p
  rw [EventProcessor.subscribeLocal, hnew]
  refine ⟨h.topics, fun host port => ?_, h.sockets, ?_⟩
  · rw [EventProcessor.peers, List.foldl_append]
    exact h.keys host port
  · exact List.forall_mem_append.mpr ⟨h.services, hlisten⟩

theorem Inv.peer (h : Inv handlers parse p acts) (key : List Char) (e : SocketEvent) :
    Inv handlers parse (step handlers parse p (.peer key e)) (acts ++ [.peer key e]) := by
  have hpeers : EventProcessor.peers handlers parse (acts ++ [.peer key e]) =
      EventProcessor.peers handlers parse acts := by
    rw [EventProcessor.peers, List.foldl_append]
    rfl
  simp only [step]
  cases hl : p.peerSockets[key]? with
  | none => exact ⟨h.topics, hpeers ▸ h.keys, h.sockets, h.services⟩
  | some l =>
    have hkey : key ∈ p.peerSockets := ExtTreeMap.mem_iff_isSome_getElem?.mpr (by rw [hl]; rfl)
    refine ⟨h.topics, fun host port => ?_, fun key' l' hl' => ?_, h.services⟩
    · rw [hpeers, ← h.keys, ExtTreeMap.mem_insert, Std.LawfulEqCmp.compare_eq_iff_eq]
      exact ⟨fun hor => hor.elim (fun heq => heq ▸ hkey) id, .inr⟩
    · rw [ExtTreeMap.getElem?_insert] at hl'
      split at hl'
      · rw [← Option.some.inj hl']
        exact SocketEvent.listening (h.sockets key l hl) _ e
      · exact h.sockets key' l' hl'

theorem Inv.service (h : Inv handlers parse p acts) (i : Nat) (port : UInt16) (e : SocketEvent) :
    Inv handlers parse (step handlers parse p (.service i port e))
      (acts ++ [.service i port e]) := by
  refine ⟨h.topics, fun host port' => ?_, h.sockets, fun l hl => ?_⟩
  · rw [EventProcessor.peers, List.foldl_append]
    exact h.keys host port'
  · simp only [step] at hl
    obtain ⟨j, hj⟩ := List.mem_iff_getElem?.mp hl
    rw [List.getElem?_modify] at hj
    obtain ⟨l', hl', rfl⟩ := Option.map_eq_some_iff.mp hj
    obtain ⟨sub, hsub, hlistening⟩ := h.services l' (List.mem_of_getElem? hl')
    refine ⟨sub, hsub, ?_⟩
    split
    · exact SocketEvent.listening hlistening _ e
    · exact hlistening

theorem inv_run (acts : List Act) : Inv handlers parse (run (E := E) handlers parse acts) acts := by
  refine Trace.invariant_prefix (step handlers parse) id (Inv handlers parse) (fun _ _ => True)
    (fun p l a hp _ => ?_) ⟨.inl rfl, fun host port => ?_, fun key l hl => ?_, ?_⟩
    (fun _ _ _ => trivial) (List.prefix_refl acts)
  · cases a with
    | addPeer host port c => exact hp.addPeer host port c
    | removePeer host port => exact hp.removePeer host port
    | subscribeLocal c => exact hp.subscribeLocal c
    | peer key e => exact hp.peer key e
    | service i port e => exact hp.service i port e
  · exact iff_of_false ExtTreeMap.not_mem_empty (Set.notMem_empty _)
  · rw [ExtTreeMap.getElem?_empty] at hl
    cases hl
  · exact List.forall_mem_nil _

/-- **What `addPeer` comes to after any run**, and what the sockets of the run are. -/
theorem addPeer_run_iff (acts : List Act) (host : List Char) (port : UInt16) (c : Connection) :
    (((run handlers parse acts).addPeer handlers parse host port c).1 = true ↔
        handlers.getPeerSubscriptions = [] ∨ ((host, port) ∉ peers handlers parse acts ∧
          c.Works handlers.getPeerHandler parse handlers.getPeerSubscriptions)) ∧
      Inv handlers parse (run handlers parse acts) acts := by
  have hinv : Inv handlers parse (run handlers parse acts) acts := inv_run acts
  refine ⟨?_, hinv⟩
  rcases addPeer_cases hinv host port c with ⟨hnil, hadd⟩ | ⟨htopics, hnot, hadd⟩ |
    ⟨htopics, hpeer, hworks, sub, fs, -, hadd⟩
  · rw [hadd]
    exact iff_of_true rfl (.inl hnil)
  · rw [hadd]
    exact iff_of_false Bool.false_ne_true fun h => h.elim htopics hnot
  · rw [hadd]
    exact iff_of_true rfl (.inr ⟨hpeer, hworks⟩)

end EventProcessor

end Fluffycoin.Svc
