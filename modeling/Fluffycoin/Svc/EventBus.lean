import Fluffycoin.Svc.EventLoop

/-!
# Events from a publisher to its subscribers

A publishing service and any number of subscriptions to it, in other services or in the same one.
`Publisher::publish` (see `Zmq/Sending.lean`) leaves messages on the PUB socket. ZMQ carries each of
them to each subscription, in order and at a time of its own, or drops it; a subscription takes over
those of its topics (`carry`), and reads them when its descriptor gets ready (see
`Svc/EventLoop.lean`). A run is any interleaving of all this.

`posted_run`: as long as every event that is begun is completed, each subscription stays registered,
and the handlers it posts are those of the published events of its topics, in order, none twice and
none for another event. If ZMQ drops nothing, none is missing in the end. An event that cannot be
handled, at any subscription, changes nothing for the others.
-/

namespace Fluffycoin.Svc

open Fluffycoin.Async Fluffycoin.Zmq
open Multipart (Outbox Send)

structure Bus (ι H E : Type) where
  outbox : Option (Outbox Bytes) := some {}
  /-- How many messages have been carried to a subscription, or dropped. -/
  carried : ι → Nat := fun _ => 0
  listener : ι → Listener H E

namespace Bus

/-- What can happen. -/
inductive Act (ι : Type) where
  | publish (c : Publisher.PublishCall)
  | carry (i : ι) (keep : Bool)
  | ready (i : ι)

variable {ι H E : Type} (getHandler : ι → List Char → Option H)
  (parse : Bytes → Except String E) (topics : ι → List Bytes)

def messages (s : Bus ι H E) : List (List Bytes) := (s.outbox.map (·.messages)).getD []

def step [DecidableEq ι] [Inhabited E] (s : Bus ι H E) : Act ι → Bus ι H E
  | .publish c => { s with outbox := (Publisher.publish s.outbox c).2 }
  | .carry i keep =>
    match s.messages[s.carried i]? with
    | none => s
    | some m =>
      { s with
        carried := Function.update s.carried i (s.carried i + 1)
        listener := if keep then Function.update s.listener i ((s.listener i).deliver m)
          else s.listener }
  | .ready i =>
    { s with listener := Function.update s.listener i ((s.listener i).ready (getHandler i) parse) }

/-- The subscriptions are set up before anything is published. -/
def initial [Inhabited E] : Bus ι H E where
  listener i := ((Listener.startListening (getHandler i) parse (.on [] (topics i)) {}).2).getD {}

/-- The state after some events. -/
def run [DecidableEq ι] [Inhabited E] (acts : List (Act ι)) : Bus ι H E :=
  Trace.final (step getHandler parse) id (initial getHandler parse topics) acts

/-- The message that is published. -/
def Act.message : Act ι → Option (List Bytes)
  | .publish c => c.toCall.message
  | .carry _ _ => none
  | .ready _ => none

def published (acts : List (Act ι)) : List (List Bytes) := acts.filterMap Act.message

/-- What is posted for a message. -/
def handledMessage (i : ι) : List Bytes → Option (H × E)
  | [topic, data] => Listener.handled (getHandler i) parse (topic, data)
  | _ => none

/-! ## What a subscription has taken over -/

/-- The messages carried to a subscription that are of its topics. -/
def wanted (s : Bus ι H E) (i : ι) : List (List Bytes) :=
  (s.messages.take (s.carried i)).filter (wants (topics i))

/-- Messages that have been read, and messages that have not. -/
structure Taken (l : Listener H E) (i : ι) (read unread : List (List Bytes)) : Prop where
  listening : l.Listening unread.flatten (topics i)
  posted : l.posted = read.filterMap (handledMessage getHandler parse i)
  unread : ∀ m ∈ unread, m.length = 2

/-- A subscription has taken over messages of its topics in order, and all if none was dropped. -/
def Follows (s : Bus ι H E) (acts : List (Act ι)) (i : ι) : Prop :=
  ∃ read unread, Taken getHandler parse topics (s.listener i) i read unread ∧
    (read ++ unread).Sublist (wanted topics s i) ∧
    ((∀ keep, Act.carry i keep ∈ acts → keep = true) → read ++ unread = wanted topics s i)

structure Inv (s : Bus ι H E) (acts : List (Act ι)) : Prop where
  outbox : s.outbox = some { messages := published acts }
  carried : ∀ i, s.carried i ≤ (published acts).length
  follows : ∀ i, Follows getHandler parse topics s acts i

variable {getHandler parse topics} {s : Bus ι H E} {acts : List (Act ι)} {i : ι}
  {l : Listener H E} {read unread : List (List Bytes)}

theorem length_of_mem_published {m : List Bytes} (h : m ∈ published acts) : m.length = 2 := by
  obtain ⟨a, -, ha⟩ := List.mem_filterMap.mp h
  cases a with
  | publish c => exact Call.length_message ha
  | carry i keep => cases ha
  | ready i => cases ha

theorem Inv.messages_eq (h : Inv getHandler parse topics s acts) :
    s.messages = published acts := by
  rw [messages, h.outbox]
  rfl

/-- A message is taken over if it is of the topics. -/
theorem Taken.deliver (h : Taken getHandler parse topics l i read unread) {m : List Bytes}
    (hm : m.length = 2) :
    Taken getHandler parse topics (l.deliver m) i read
      (unread ++ [m].filter (wants (topics i))) := by
  have hlistening := h.listening.deliver m
  by_cases hwants : wants (topics i) m = true
  · rw [if_pos hwants] at hlistening
    rw [List.filter_cons_of_pos hwants, List.filter_nil]
    refine ⟨?_, h.posted, ?_⟩
    · rw [List.flatten_append]
      simpa using hlistening
    · exact List.forall_mem_append.mpr ⟨h.unread, List.forall_mem_singleton.mpr hm⟩
  · rw [if_neg hwants, List.append_nil] at hlistening
    rw [List.filter_cons_of_neg hwants, List.filter_nil, List.append_nil]
    exact ⟨hlistening, h.posted, h.unread⟩

/-- One more message has been read, if there is one. -/
theorem Taken.ready [Inhabited E] (h : Taken getHandler parse topics l i read unread) :
    Taken getHandler parse topics (l.ready (getHandler i) parse) i (read ++ unread.take 1)
      (unread.drop 1) := by
  obtain ⟨hlistening, hposted⟩ := h.listening.ready (getHandler i) parse
  match unread, h with
  | [], h => exact ⟨hlistening, by simpa [Subscriber.next, h.posted] using hposted, h.unread⟩
  | m :: unread, h =>
    obtain ⟨hm, hunread⟩ := List.forall_mem_cons.mp h.unread
    obtain ⟨topic, data, rfl⟩ := List.length_eq_two.mp hm
    refine ⟨hlistening, ?_, hunread⟩
    rw [hposted, h.posted, List.take_succ_cons, List.take_zero, List.filterMap_append]
    cases hhandled : Listener.handled (getHandler i) parse (topic, data) <;>
      simp [Subscriber.next, handledMessage, hhandled]

theorem published_append (acts : List (Act ι)) (a : Act ι) :
    published (acts ++ [a]) = published acts ++ a.message.toList := by
  rw [published, List.filterMap_append, List.filterMap_cons]
  cases a.message <;> rfl

/-- What does not change a subscription, and carries nothing to it, leaves it as it is. -/
theorem Follows.of_eq {s' : Bus ι H E} {a : Act ι} (h : Follows getHandler parse topics s acts i)
    (hlistener : s'.listener i = s.listener i)
    (hwanted : wanted topics s' i = wanted topics s i) :
    Follows getHandler parse topics s' (acts ++ [a]) i := by
  obtain ⟨read, unread, htaken, hsub, hall⟩ := h
  refine ⟨read, unread, hlistener ▸ htaken, hwanted ▸ hsub, fun hkeep => ?_⟩
  rw [hwanted]
  exact hall fun keep hmem => hkeep keep (List.mem_append_left _ hmem)

/-! ## Runs -/

section Runs

variable [Inhabited E]

theorem inv_initial : Inv getHandler parse topics (initial getHandler parse topics) [] := by
  refine ⟨rfl, fun _ => Nat.le_refl 0, fun i => ⟨[], [], ?_, List.Sublist.refl _, fun _ => rfl⟩⟩
  have hok : (({} : Details)).isOk = true := rfl
  have hsome : (Listener.startListening (getHandler i) parse (.on [] (topics i)) {}).2.isSome :=
    (Listener.startListening_isSome_iff hok).mpr (.inl rfl)
  obtain ⟨l, hl⟩ := Option.isSome_iff_exists.mp hsome
  obtain ⟨hlistening, hposted⟩ := Listener.listening_of_startListening hok hl
  have hlistener : (initial getHandler parse topics).listener i = l :=
    congrArg (fun o => o.getD {}) hl
  rw [hlistener]
  exact ⟨hlistening, hposted, List.forall_mem_nil _⟩

variable [DecidableEq ι]

/-- What is published. -/
theorem Inv.publish (h : Inv getHandler parse topics s acts) {c : Publisher.PublishCall}
    (hc : c.toCall.Completed) :
    Inv getHandler parse topics (step getHandler parse s (.publish c))
      (acts ++ [.publish c]) := by
  have hpublished : published (acts ++ [.publish c]) =
      published acts ++ c.toCall.message.toList := published_append acts (.publish c)
  have houtbox : (step getHandler parse s (.publish c)).outbox =
      some { messages := published (acts ++ [.publish c]) } := by
    show (Publisher.publish s.outbox c).2 = _
    rw [h.outbox, hpublished]
    exact Call.run_of_completed hc _
  refine ⟨houtbox, fun i => ?_, fun i => (h.follows i).of_eq rfl ?_⟩
  · rw [hpublished, List.length_append]
    exact Nat.le_add_right_of_le (h.carried i)
  · have hmessages : (step getHandler parse s (.publish c)).messages =
        s.messages ++ c.toCall.message.toList := by
      rw [messages, houtbox, h.messages_eq, hpublished]
      rfl
    rw [wanted, hmessages]
    show ((s.messages ++ _).take (s.carried i)).filter _ = _
    rw [List.take_append_of_le_length (h.messages_eq ▸ h.carried i)]
    rfl

theorem step_carry {m : List Bytes} (hm : s.messages[s.carried i]? = some m) (keep : Bool) :
    step getHandler parse s (.carry i keep) =
      { s with
        carried := Function.update s.carried i (s.carried i + 1)
        listener := if keep then Function.update s.listener i ((s.listener i).deliver m)
          else s.listener } := by
  simp only [step, hm]

/-- One more message has been carried to a subscription. -/
theorem wanted_carry {m : List Bytes} (hm : s.messages[s.carried i]? = some m) (keep : Bool) :
    wanted topics (step getHandler parse s (.carry i keep)) i =
      wanted topics s i ++ [m].filter (wants (topics i)) := by
  rw [step_carry hm, wanted]
  show (s.messages.take (Function.update s.carried i (s.carried i + 1) i)).filter _ = _
  rw [Function.update_self, List.take_add_one, hm, Option.toList_some, List.filter_append]
  rfl

/-- Another subscription does not notice. -/
theorem carry_of_ne {m : List Bytes} (hm : s.messages[s.carried i]? = some m) {j : ι} (hj : j ≠ i)
    (keep : Bool) :
    (step getHandler parse s (.carry i keep)).listener j = s.listener j ∧
      wanted topics (step getHandler parse s (.carry i keep)) j = wanted topics s j := by
  rw [step_carry hm]
  constructor
  · cases keep with
    | true => exact Function.update_of_ne hj _ _
    | false => rfl
  · show (s.messages.take (Function.update s.carried i (s.carried i + 1) j)).filter _ = _
    rw [Function.update_of_ne hj]
    rfl

/-- What is carried. -/
theorem Inv.carry (h : Inv getHandler parse topics s acts) (i : ι) (keep : Bool) :
    Inv getHandler parse topics (step getHandler parse s (.carry i keep))
      (acts ++ [.carry i keep]) := by
  have hpublished : published (acts ++ [.carry i keep]) = published acts := by
    rw [published_append]
    exact List.append_nil _
  cases hm : s.messages[s.carried i]? with
  | none =>
    have hstep : step getHandler parse s (.carry i keep) = s := by simp only [step, hm]
    rw [hstep]
    exact ⟨hpublished ▸ h.outbox, hpublished ▸ h.carried, fun j => (h.follows j).of_eq rfl rfl⟩
  | some m =>
    obtain ⟨hlt, hget⟩ := List.getElem?_eq_some_iff.mp hm
    rw [h.messages_eq] at hlt
    refine ⟨?_, fun j => ?_, fun j => ?_⟩
    · rw [hpublished, step_carry hm]
      exact h.outbox
    · rw [hpublished, step_carry hm]
      show Function.update s.carried i (s.carried i + 1) j ≤ _
      by_cases hj : j = i
      · rw [hj, Function.update_self]
        exact hlt
      · rw [Function.update_of_ne hj]
        exact h.carried j
    · by_cases hj : j = i
      · subst hj
        obtain ⟨read, unread, htaken, hsub, hall⟩ := h.follows j
        have htwo : m.length = 2 := length_of_mem_published
          (h.messages_eq ▸ List.mem_of_getElem? hm)
        rw [Follows, wanted_carry hm]
        cases keep with
        | true =>
          refine ⟨read, unread ++ [m].filter (wants (topics j)), ?_, ?_, fun hkeep => ?_⟩
          · rw [step_carry hm]
            simp only [if_true, Function.update_self]
            exact htaken.deliver htwo
          · rw [← List.append_assoc]
            exact hsub.append (List.Sublist.refl _)
          · rw [← List.append_assoc,
              hall fun keep hmem => hkeep keep (List.mem_append_left _ hmem)]
        | false =>
          refine ⟨read, unread, ?_, hsub.trans (List.sublist_append_left _ _), fun hkeep => ?_⟩
          · rw [step_carry hm]
            exact htaken
          · exact absurd (hkeep false (List.mem_append_right _ List.mem_cons_self))
              Bool.false_ne_true
      · obtain ⟨hlistener, hwanted⟩ := carry_of_ne hm hj keep
        exact (h.follows j).of_eq hlistener hwanted

/-- What is read. -/
theorem Inv.ready (h : Inv getHandler parse topics s acts) (i : ι) :
    Inv getHandler parse topics (step getHandler parse s (.ready i)) (acts ++ [.ready i]) := by
  have hpublished : published (acts ++ [.ready i]) = published acts := by
    rw [published_append]
    exact List.append_nil _
  refine ⟨hpublished ▸ h.outbox, hpublished ▸ h.carried, fun j => ?_⟩
  by_cases hj : j = i
  · subst hj
    obtain ⟨read, unread, htaken, hsub, hall⟩ := h.follows j
    have hsplit : read ++ unread.take 1 ++ unread.drop 1 = read ++ unread := by
      rw [List.append_assoc, List.take_append_drop]
    refine ⟨read ++ unread.take 1, unread.drop 1, ?_, ?_, fun hkeep => ?_⟩
    · simp only [step, Function.update_self]
      exact htaken.ready
    · rw [hsplit]
      exact hsub
    · rw [hsplit]
      exact hall fun keep hmem => hkeep keep (List.mem_append_left _ hmem)
  · exact (h.follows j).of_eq (Function.update_of_ne hj _ _) rfl

theorem inv_run (hcompleted : ∀ c, .publish c ∈ acts → c.toCall.Completed) :
    Inv getHandler parse topics (run getHandler parse topics acts) acts := by
  refine Trace.invariant_prefix (step getHandler parse) id (Inv getHandler parse topics)
    (fun _ a => ∀ c, a = .publish c → c.toCall.Completed) (fun s l a hs ha => ?_) inv_initial
    (fun l a hla c hc => hcompleted c ?_) (List.prefix_refl acts)
  · cases a with
    | publish c => exact hs.publish (ha c rfl)
    | carry i keep => exact hs.carry i keep
    | ready i => exact hs.ready i
  · subst hc
    exact hla.subset (List.mem_append_right l List.mem_cons_self)

/-- Enough readings of what has been taken over. -/
theorem Taken.drain (h : Taken getHandler parse topics (s.listener i) i read unread) :
    let s' := Trace.final (step getHandler parse) id s (List.replicate unread.length (.ready i))
    (s'.listener i).posted = (read ++ unread).filterMap (handledMessage getHandler parse i) := by
  induction unread generalizing s read with
  | nil =>
    rw [List.append_nil]
    exact h.posted
  | cons m unread ih =>
    have hready : Taken getHandler parse topics
        ((step getHandler parse s (.ready i)).listener i) i (read ++ [m]) unread := by
      simp only [step, Function.update_self]
      exact h.ready
    have hrest := ih hready
    rw [List.append_assoc] at hrest
    exact hrest

variable (getHandler parse topics) in
/-- What a subscription makes of the events that are published. -/
structure Delivered (acts : List (Act ι)) (i : ι) : Prop where
  /-- The next read is registered. -/
  registered : ((run getHandler parse topics acts).listener i).socket.callback.isSome
  /-- Nothing is posted that was not published, nothing twice, nothing out of order. -/
  in_order : ((run getHandler parse topics acts).listener i).posted.Sublist
    (((published acts).filter (wants (topics i))).filterMap (handledMessage getHandler parse i))
  /-- If all messages have been carried and none was dropped, enough readings post them all. -/
  complete : (∀ keep, .carry i keep ∈ acts → keep = true) →
    (run getHandler parse topics acts).carried i = (published acts).length →
    ∃ n, ((run getHandler parse topics (acts ++ List.replicate n (.ready i))).listener i).posted =
      ((published acts).filter (wants (topics i))).filterMap (handledMessage getHandler parse i)

variable (getHandler parse topics) in
/-- **From the publisher to the handlers.** -/
theorem posted_run (acts : List (Act ι))
    (hcompleted : ∀ c, .publish c ∈ acts → c.toCall.Completed) (i : ι) :
    Delivered getHandler parse topics acts i := by
  have hinv : Inv getHandler parse topics (run getHandler parse topics acts) acts :=
    inv_run hcompleted
  obtain ⟨read, unread, htaken, hsub, hall⟩ := hinv.follows i
  refine ⟨?_, ?_, fun hkeep hcarried => ⟨unread.length, ?_⟩⟩
  · rw [htaken.listening.callback]
    rfl
  · have hwanted : (wanted topics (run getHandler parse topics acts) i).Sublist
        ((published acts).filter (wants (topics i))) := by
      rw [wanted, hinv.messages_eq]
      exact (List.take_sublist _ _).filter _
    rw [htaken.posted]
    exact ((List.sublist_append_left read unread).trans (hsub.trans hwanted)).filterMap _
  · have hevents : wanted topics (run getHandler parse topics acts) i =
        (published acts).filter (wants (topics i)) := by
      rw [wanted, hinv.messages_eq, hcarried, List.take_length]
    rw [run, Trace.final_append]
    exact htaken.drain.trans (by rw [hall hkeep, hevents])

end Runs

/-- Two events, the second of a topic nobody has asked for. -/
def twoEvents : List (Act Unit) :=
  [.publish ⟨[97], [1], ⟨fun _ => some 1, fun _ => some 0, ""⟩, {}⟩,
    .publish ⟨[98], [2], ⟨fun _ => some 1, fun _ => some 0, ""⟩, {}⟩,
    .carry () true, .carry () true, .ready ()]

theorem posted_run_twoEvents :
    Delivered (fun _ topic => some topic) Except.ok (fun _ => [[97]]) twoEvents () :=
  posted_run _ _ _ twoEvents (by
    intro c hc
    simp only [twoEvents, List.mem_cons, Act.publish.injEq, reduceCtorEq, List.not_mem_nil,
      or_false] at hc
    rcases hc with rfl | rfl <;> exact fun _ _ _ => rfl) ()

end Bus

end Fluffycoin.Svc
