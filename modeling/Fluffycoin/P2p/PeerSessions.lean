import Fluffycoin.Ossl.Convert
import Fluffycoin.Utils.Trace
import Fluffycoin.Utils.SortedMap
import Fluffycoin.Utils.SteadyClock

/-!
# The sessions of authenticated peers

`PeerSessions` (`services/p2p/auth`) keeps the sessions that handshakes have started. A session is
to be forgotten when it has not been used for 300 seconds. A lookup uses a session, and does not
look at how long ago the last use was: what drops an idle session is the cleanup, and only
`addSession` makes one.

## Results

* `expired_not_served_iff`: no expired session is served, exactly if every lookup of a session that
  has been idle for too long comes after an `addSession` that was late enough to drop it.
* `latest_of_getElem?`: the session served is the one of the latest `addSession`, in any case.
-/

namespace Fluffycoin.P2p

open Std (ExtTreeMap)
open SteadyClock

/-! ## The code -/

structure PeerSession where
  protocolVersion : UInt32 := 0
  address : List Char := []
  sessionId : List Char := []
  hmacKey : Bytes := []
  lastUse : Int := 0
deriving DecidableEq, Repr

structure PeerSessions where
  sessions : ExtTreeMap (List Char) PeerSession := ∅
  nextCleanup : Int := 0

namespace PeerSessions

def sessionTimeoutSeconds : Nat := 300

/-- `PeerSessions::cleanup`, with the reading `now` of the clock. It does not set `nextCleanup`. -/
def cleanup (s : PeerSessions) (now : Int) : PeerSessions :=
  if now < s.nextCleanup then s
  else
    { s with sessions := s.sessions.filter fun _ session =>
        !decide (session.lastUse + seconds sessionTimeoutSeconds < now) }

/-- `PeerSessions::addSession`. The clock is read by the cleanup, and again for the new session. -/
def addSession (s : PeerSessions) (protocolVersion : UInt32) (peerAddress sessionId : List Char)
    (hmacKey : Bytes) (atCleanup now : Int) : PeerSessions :=
  let s := s.cleanup atCleanup
  let session := { protocolVersion, address := peerAddress, sessionId, hmacKey, lastUse := now }
  { s with sessions := s.sessions.insert sessionId session }

def getSession (s : PeerSessions) (sessionId : List Char) (now : Int) :
    PeerSession × PeerSessions :=
  match s.sessions[sessionId]? with
  | some session =>
    let session := { session with lastUse := now }
    (session, { s with sessions := s.sessions.insert sessionId session })
  | none => ({}, s)

variable {s : PeerSessions} {i id : List Char} {now : Int} {session : PeerSession}

theorem getElem?_cleanup (s : PeerSessions) (now : Int) (id : List Char) :
    (s.cleanup now).sessions[id]? =
      if now < s.nextCleanup then s.sessions[id]?
      else s.sessions[id]?.filter fun session =>
        !decide (session.lastUse + seconds sessionTimeoutSeconds < now) := by
  unfold cleanup
  split
  case isTrue => rfl
  case isFalse => exact ExtTreeMap.getElem?_filter'

@[simp] theorem nextCleanup_cleanup (s : PeerSessions) (now : Int) :
    (s.cleanup now).nextCleanup = s.nextCleanup := by
  unfold cleanup
  split <;> rfl

@[simp] theorem nextCleanup_getSession (s : PeerSessions) (i : List Char) (now : Int) :
    (s.getSession i now).2.nextCleanup = s.nextCleanup := by
  unfold getSession
  split <;> rfl

theorem getElem?_addSession (s : PeerSessions) (v : UInt32) (a i : List Char) (k : Bytes)
    (w now : Int) (id : List Char) :
    (s.addSession v a i k w now).sessions[id]? =
      if i = id then some ⟨v, a, i, k, now⟩ else (s.cleanup w).sessions[id]? := by
  simp only [addSession, ExtTreeMap.getElem?_insert, Std.LawfulEqCmp.compare_eq_iff_eq]

theorem getElem?_getSession (s : PeerSessions) (i : List Char) (now : Int) (id : List Char) :
    (s.getSession i now).2.sessions[id]? =
      if i = id then s.sessions[i]?.map fun session => { session with lastUse := now }
      else s.sessions[id]? := by
  unfold getSession
  cases hi : s.sessions[i]? with
  | none =>
    by_cases hid : i = id
    · subst hid
      rw [if_pos rfl]
      exact hi
    · rw [if_neg hid]
  | some session =>
    simp only [ExtTreeMap.getElem?_insert, Std.LawfulEqCmp.compare_eq_iff_eq]
    rfl

/-- A session with a key is one that is there. -/
theorem getSession_key_ne_nil_iff :
    (s.getSession id now).1.hmacKey ≠ [] ↔
      ∃ session : PeerSession, s.sessions[id]? = some session ∧ session.hmacKey ≠ [] := by
  unfold getSession
  cases s.sessions[id]? with
  | none => simp
  | some session => simp

theorem getSession_of_getElem? (h : s.sessions[id]? = some session) (now : Int) :
    (s.getSession id now).1 = { session with lastUse := now } := by
  unfold getSession
  rw [h]

/-! ## Runs -/

/-- A call, with what the clock showed at it. -/
inductive Call
  | add (protocolVersion : UInt32) (peerAddress sessionId : List Char) (hmacKey : Bytes)
      (atCleanup now : Int)
  | get (sessionId : List Char) (now : Int)
deriving DecidableEq, Repr

namespace Call

def readings : Call → List Int
  | add _ _ _ _ atCleanup now => [atCleanup, now]
  | get _ now => [now]

def sessionId : Call → List Char
  | add _ _ i _ _ _ => i
  | get i _ => i

/-- When the call made a cleanup: not before the epoch of the clock. -/
def cleanupTime : Call → Option Int
  | add _ _ _ _ atCleanup _ => if atCleanup < 0 then none else some atCleanup
  | get _ _ => none

/-- The address and the key the call gave to `id`. -/
def added (id : List Char) : Call → Option (List Char × Bytes)
  | add _ address i key _ _ => if i = id then some (address, key) else none
  | get _ _ => none

/-- A call adds the session `id`, looks it up, or is for another one. -/
theorem cases_sessionId (c : Call) (id : List Char) :
    (∃ v a k w now, c = add v a id k w now) ∨ (∃ now, c = get id now) ∨ c.sessionId ≠ id := by
  by_cases hc : c.sessionId = id
  · subst hc
    cases c with
    | add v a i k w now => exact .inl ⟨v, a, k, w, now, rfl⟩
    | get i now => exact .inr (.inl ⟨now, rfl⟩)
  · exact .inr (.inr hc)

theorem mem_readings_of_cleanupTime {c : Call} {w : Int} (h : w ∈ c.cleanupTime) :
    w ∈ c.readings := by
  cases c with
  | add v a i k w' now =>
    obtain ⟨_, hw⟩ := Option.ite_none_left_eq_some.mp h
    rw [← Option.some.inj hw]
    exact List.mem_cons_self
  | get i now => cases h

end Call

def step (s : PeerSessions) : Call → Option PeerSession × PeerSessions
  | .add protocolVersion peerAddress sessionId hmacKey atCleanup now =>
    (none, s.addSession protocolVersion peerAddress sessionId hmacKey atCleanup now)
  | .get sessionId now => ((s.getSession sessionId now).1, (s.getSession sessionId now).2)

/-- The state after the calls on a fresh `PeerSessions`. -/
def after (calls : List Call) : PeerSessions := Trace.final step Prod.snd {} calls

theorem after_append_singleton (l : List Call) (c : Call) :
    after (l ++ [c]) = (step (after l) c).2 := Trace.final_append ..

/-- The address and the key of the latest `addSession` for `id`. -/
def latest (calls : List Call) (id : List Char) : Option (List Char × Bytes) :=
  calls.reverse.findSome? (Call.added id)

/-- In state `s`, the call adds the session `id`, or returns it, at the time `now`. -/
def Uses (s : PeerSessions) (id : List Char) (now : Int) : Call → Prop
  | .add _ _ i _ _ t => i = id ∧ t = now
  | .get i t => i = id ∧ t = now ∧ (s.getSession i t).1.hmacKey ≠ []

/-- The session `id` was added, or returned, at the time `now`. -/
def Used (calls : List Call) (id : List Char) (now : Int) : Prop :=
  ∃ l c, l ++ [c] <+: calls ∧ Uses (after l) id now c

/-- A session that is served was used no longer ago than a session is kept, and it is the latest one
of its id. -/
def ServesLive (calls : List Call) : Prop :=
  ∀ l id t, l ++ [Call.get id t] <+: calls →
    ((after l).getSession id t).1.hmacKey ≠ [] →
      (∃ t₀, Used l id t₀ ∧ t ≤ t₀ + seconds sessionTimeoutSeconds) ∧
        latest l id = some (((after l).getSession id t).1.address,
          ((after l).getSession id t).1.hmacKey)

/-! ## Leases -/

/-- How a call changes when the session `id` was last used. A session is used no more once it has
been looked up too late. -/
def renew (id : List Char) (lease : Option Int) : Call → Option Int
  | .add _ _ i key _ now => if i = id then (if key = [] then none else some now) else lease
  | .get i now =>
    if i = id then lease.bind fun u =>
      if now ≤ u + seconds sessionTimeoutSeconds then some now else none
    else lease

/-- When the session `id` was last used, if all its lookups came in time. -/
def lease (calls : List Call) (id : List Char) : Option Int := calls.foldl (renew id) none

/-- A lookup of a session that has been idle for too long comes after a cleanup that dropped it. -/
def DroppedInTime (calls : List Call) : Prop :=
  ∀ l id t u, l ++ [Call.get id t] <+: calls → lease l id = some u →
    u + seconds sessionTimeoutSeconds < t →
      ∃ c ∈ l, ∃ w ∈ c.cleanupTime, u + seconds sessionTimeoutSeconds < w

/-! ## What a call does to one session -/

theorem nextCleanup_after (calls : List Call) : (after calls).nextCleanup = 0 := by
  induction calls using List.reverseRecOn with
  | nil => rfl
  | append_singleton l c ih =>
    rw [after_append_singleton]
    cases c with
    | add v a i k w now => exact (nextCleanup_cleanup _ _).trans ih
    | get i now => exact (nextCleanup_getSession _ _ _).trans ih

section Step

variable {l : List Call} {c : Call}

/-- A call for another session keeps this one, unless its cleanup drops it. -/
theorem getElem?_after_of_ne (hc : c.sessionId ≠ id) :
    (after (l ++ [c])).sessions[id]? = some session ↔
      (after l).sessions[id]? = some session ∧
        ∀ w ∈ c.cleanupTime, w ≤ session.lastUse + seconds sessionTimeoutSeconds := by
  rw [after_append_singleton]
  cases c with
  | add v a i k w now =>
    have hi : i ≠ id := hc
    show ((after l).addSession v a i k w now).sessions[id]? = _ ↔ _
    rw [getElem?_addSession, if_neg hi, getElem?_cleanup, nextCleanup_after, Call.cleanupTime]
    by_cases hw : w < 0
    · simp [hw]
    · simp [hw, Option.filter_eq_some_iff]
  | get i now =>
    have hi : i ≠ id := hc
    show ((after l).getSession i now).2.sessions[id]? = _ ↔ _
    rw [getElem?_getSession, if_neg hi]
    simp [Call.cleanupTime]

theorem getElem?_after_add (v : UInt32) (a : List Char) (k : Bytes) (w now : Int) :
    (after (l ++ [Call.add v a id k w now])).sessions[id]? = some ⟨v, a, id, k, now⟩ := by
  rw [after_append_singleton]
  exact (getElem?_addSession _ _ _ _ _ _ _ _).trans (if_pos rfl)

theorem getElem?_after_get (now : Int) :
    (after (l ++ [Call.get id now])).sessions[id]? =
      (after l).sessions[id]?.map fun session => { session with lastUse := now } := by
  rw [after_append_singleton]
  exact (getElem?_getSession _ _ _ _).trans (if_pos rfl)

/-- **Where a session comes from**: the last call added it, looked it up, or was for another one and
did not drop it. -/
theorem getElem?_after_cases (h : (after (l ++ [c])).sessions[id]? = some session) :
    (∃ v a k w now, c = .add v a id k w now ∧ session = ⟨v, a, id, k, now⟩) ∨
      (∃ now before, c = .get id now ∧ (after l).sessions[id]? = some before ∧
        session = { before with lastUse := now }) ∨
      (c.sessionId ≠ id ∧ (after l).sessions[id]? = some session ∧
        ∀ w ∈ c.cleanupTime, w ≤ session.lastUse + seconds sessionTimeoutSeconds) := by
  rcases c.cases_sessionId id with ⟨v, a, k, w, now, rfl⟩ | ⟨now, rfl⟩ | hc
  · rw [getElem?_after_add, Option.some.injEq] at h
    exact .inl ⟨v, a, k, w, now, rfl, h.symm⟩
  · rw [getElem?_after_get, Option.map_eq_some_iff] at h
    obtain ⟨before, hbefore, hsession⟩ := h
    exact .inr (.inl ⟨now, before, rfl, hbefore, hsession.symm⟩)
  · exact .inr (.inr ⟨hc, (getElem?_after_of_ne hc).mp h⟩)

theorem getElem?_after_nil_ne : (after []).sessions[id]? ≠ some session := by
  simp [after, Trace.final]

theorem latest_append_singleton (l : List Call) (c : Call) (id : List Char) :
    latest (l ++ [c]) id = (c.added id).or (latest l id) := by
  rw [latest, List.reverse_append, List.reverse_singleton, List.singleton_append,
    List.findSome?_cons]
  cases c.added id <;> rfl

theorem Call.added_of_ne (hc : c.sessionId ≠ id) : c.added id = none := by
  cases c with
  | add v a i k w now => exact if_neg hc
  | get i now => rfl

theorem used_append_singleton :
    Used (l ++ [c]) id now ↔ Used l id now ∨ Uses (after l) id now c := by
  constructor
  · rintro ⟨m, d, hm, huses⟩
    rcases List.prefix_concat_iff.mp hm with heq | hm
    · obtain ⟨rfl, hd⟩ := List.append_inj' heq rfl
      rw [List.singleton_inj.mp hd] at huses
      exact .inr huses
    · exact .inl ⟨m, d, hm, huses⟩
  · rintro (⟨m, d, hm, huses⟩ | huses)
    · exact ⟨m, d, hm.trans (List.prefix_append l [c]), huses⟩
    · exact ⟨l, c, List.prefix_refl _, huses⟩

theorem lease_append_singleton (l : List Call) (c : Call) (id : List Char) :
    lease (l ++ [c]) id = renew id (lease l id) c := by
  rw [lease, List.foldl_append]
  rfl

theorem renew_of_ne (hc : c.sessionId ≠ id) (u : Option Int) : renew id u c = u := by
  cases c with
  | add v a i k w now => exact if_neg hc
  | get i now => exact if_neg hc

end Step

/-! ## Invariants of every run -/

section Run

variable {l : List Call}

/-- **The session is the one of the latest `addSession`.** -/
theorem latest_of_getElem? (h : (after l).sessions[id]? = some session) :
    latest l id = some (session.address, session.hmacKey) := by
  induction l using List.reverseRecOn generalizing session with
  | nil => exact absurd h getElem?_after_nil_ne
  | append_singleton l c ih =>
    rw [latest_append_singleton]
    rcases getElem?_after_cases h with
      ⟨v, a, k, w, now, rfl, rfl⟩ | ⟨now, before, rfl, hbefore, rfl⟩ | ⟨hc, h, _⟩
    · rw [Call.added, if_pos rfl, Option.some_or]
    · have hlatest := ih hbefore
      exact hlatest
    · rw [Call.added_of_ne hc, Option.none_or]
      exact ih h

/-- The last use of a session is the time at which it was added, or returned. -/
theorem used_lastUse (h : (after l).sessions[id]? = some session) (hkey : session.hmacKey ≠ []) :
    Used l id session.lastUse := by
  induction l using List.reverseRecOn generalizing session with
  | nil => exact absurd h getElem?_after_nil_ne
  | append_singleton l c ih =>
    rw [used_append_singleton]
    rcases getElem?_after_cases h with
      ⟨v, a, k, w, now, rfl, rfl⟩ | ⟨now, before, rfl, hbefore, rfl⟩ | ⟨_, h, _⟩
    · exact .inr ⟨rfl, rfl⟩
    · exact .inr ⟨rfl, rfl, getSession_key_ne_nil_iff.mpr ⟨before, hbefore, hkey⟩⟩
    · exact .inl (ih h hkey)

theorem Used.mem_readings (h : Used l id now) : ∃ c ∈ l, now ∈ c.readings := by
  obtain ⟨m, c, hm, huses⟩ := h
  refine ⟨c, hm.mem (List.mem_append_right m List.mem_cons_self), ?_⟩
  cases c with
  | add v a i k w t =>
    rw [← huses.2]
    exact List.mem_cons_of_mem _ List.mem_cons_self
  | get i t =>
    rw [← huses.2.1]
    exact List.mem_cons_self

/-- The last use is the latest. -/
theorem Used.le_lastUse (hused : Used l id now) (horder : InOrder Call.readings l)
    (h : (after l).sessions[id]? = some session) : now ≤ session.lastUse := by
  induction l using List.reverseRecOn generalizing session with
  | nil => exact absurd h getElem?_after_nil_ne
  | append_singleton l c ih =>
    obtain ⟨d, hd, hnow⟩ := hused.mem_readings
    rcases getElem?_after_cases h with
      ⟨v, a, k, w, t, rfl, rfl⟩ | ⟨t, before, rfl, _, rfl⟩ | ⟨hc, h, _⟩
    · exact horder.le_getLast hd rfl hnow
    · exact horder.le_getLast hd rfl hnow
    · have hnot : ¬ Uses (after l) id now c := by
        intro huses
        cases c with
        | add v a i k w t => exact hc huses.1
        | get i t => exact hc huses.1
      exact ih ((used_append_singleton.mp hused).resolve_right hnot) horder.left h

/-- A session that is there was too young for every cleanup so far. -/
theorem cleanupTime_le (horder : InOrder Call.readings l)
    (h : (after l).sessions[id]? = some session) {c : Call} (hc : c ∈ l) {w : Int}
    (hw : w ∈ c.cleanupTime) : w ≤ session.lastUse + seconds sessionTimeoutSeconds := by
  have hreading := Call.mem_readings_of_cleanupTime hw
  induction l using List.reverseRecOn generalizing session with
  | nil => cases hc
  | append_singleton l d ih =>
    rcases getElem?_after_cases h with
      ⟨v, a, k, w', t, rfl, rfl⟩ | ⟨t, before, rfl, _, rfl⟩ | ⟨_, h, hyoung⟩
    · exact (horder.le_getLast hc rfl hreading).trans
        (le_add_of_nonneg_right (seconds_nonneg _))
    · exact (horder.le_getLast hc rfl hreading).trans
        (le_add_of_nonneg_right (seconds_nonneg _))
    · rcases List.mem_append.mp hc with hc | hc
      · exact ih horder.left h hc
      · rw [List.mem_singleton.mp hc] at hw
        exact hyoung w hw

/-- A session whose lookups came in time is there since its last use, or was dropped. -/
theorem lease_cases (horder : InOrder Call.readings l) {u : Int} (hlease : lease l id = some u) :
    (∃ session : PeerSession, (after l).sessions[id]? = some session ∧ session.lastUse = u ∧
        session.hmacKey ≠ []) ∨
      ∃ c ∈ l, ∃ w ∈ c.cleanupTime, u + seconds sessionTimeoutSeconds < w := by
  induction l using List.reverseRecOn generalizing u with
  | nil => cases hlease
  | append_singleton l c ih =>
    rw [lease_append_singleton] at hlease
    rcases c.cases_sessionId id with ⟨v, a, k, w, t, rfl⟩ | ⟨t, rfl⟩ | hc
    · rw [renew, if_pos rfl, Option.ite_none_left_eq_some, Option.some.injEq] at hlease
      obtain ⟨hk, rfl⟩ := hlease
      exact .inl ⟨_, getElem?_after_add v a k w t, rfl, hk⟩
    · rw [renew, if_pos rfl, Option.bind_eq_some_iff] at hlease
      obtain ⟨u', hlease, ht⟩ := hlease
      rw [Option.ite_none_right_eq_some, Option.some.injEq] at ht
      obtain ⟨hle, rfl⟩ := ht
      rcases ih horder.left hlease with ⟨session, h, rfl, hk⟩ | ⟨d, hd, w, hw, hlt⟩
      · refine .inl ⟨{ session with lastUse := t }, ?_, rfl, hk⟩
        rw [getElem?_after_get, h, Option.map_some]
      · -- what was dropped cannot be looked up in time
        have hwt := horder.le_getLast (List.mem_append_left _ hd) rfl
          (Call.mem_readings_of_cleanupTime hw)
        exact absurd (hlt.trans_le (hwt.trans hle)) (lt_irrefl _)
    · rw [renew_of_ne hc] at hlease
      rcases ih horder.left hlease with ⟨session, h, rfl, hk⟩ | ⟨d, hd, hw⟩
      · by_cases hyoung : ∀ w ∈ c.cleanupTime, w ≤ session.lastUse + seconds sessionTimeoutSeconds
        · exact .inl ⟨session, (getElem?_after_of_ne hc).mpr ⟨h, hyoung⟩, rfl, hk⟩
        · push Not at hyoung
          exact .inr ⟨c, List.mem_append_right l List.mem_cons_self, hyoung⟩
      · exact .inr ⟨d, List.mem_append_left _ hd, hw⟩

/-- If idle sessions are dropped in time, the lookups of a session that is there came in time. -/
theorem lease_of_getElem? (horder : InOrder Call.readings l) (hdropped : DroppedInTime l)
    (h : (after l).sessions[id]? = some session) (hkey : session.hmacKey ≠ []) :
    lease l id = some session.lastUse := by
  induction l using List.reverseRecOn generalizing session with
  | nil => exact absurd h getElem?_after_nil_ne
  | append_singleton l c ih =>
    have hdropped' : DroppedInTime l := fun m i t u hm =>
      hdropped m i t u (hm.trans (List.prefix_append l [c]))
    rw [lease_append_singleton]
    rcases getElem?_after_cases h with
      ⟨v, a, k, w, t, rfl, rfl⟩ | ⟨t, before, rfl, hbefore, rfl⟩ | ⟨hc, h, _⟩
    · rw [renew, if_pos rfl, if_neg hkey]
    · have hlease := ih horder.left hdropped' hbefore hkey
      rw [renew, if_pos rfl, hlease, Option.bind_some]
      refine if_pos (not_lt.mp fun hlt => ?_)
      obtain ⟨d, hd, w, hw, hlate⟩ := hdropped l id t _ (List.prefix_refl _) hlease hlt
      exact absurd (cleanupTime_le horder.left hbefore hd hw) (not_le.mpr hlate)
    · rw [renew_of_ne hc]
      exact ih horder.left hdropped' h hkey

end Run

/-- **When no expired session is served**: exactly if every lookup of a session that has been idle
for too long comes after an `addSession` that dropped it. -/
theorem expired_not_served_iff (calls : List Call) (horder : InOrder Call.readings calls) :
    ServesLive calls ↔ DroppedInTime calls := by
  constructor
  · intro h l id t u hl hlease hlt
    have horder' : InOrder Call.readings l :=
      (horder.of_isPrefix hl).left
    refine (lease_cases horder' hlease).resolve_left ?_
    rintro ⟨session, hsession, rfl, hkey⟩
    -- still there, it is served at `t`, and was not used after its last use
    obtain ⟨⟨t₀, hused, hle⟩, _⟩ := h l id t hl
      (getSession_key_ne_nil_iff.mpr ⟨session, hsession, hkey⟩)
    have hlast := hused.le_lastUse horder' hsession
    omega
  · intro h l id t hl hserved
    have horder' : InOrder Call.readings l := (horder.of_isPrefix hl).left
    have hdropped : DroppedInTime l := fun m i t u hm =>
      h m i t u (hm.trans ((List.prefix_append l _).trans hl))
    obtain ⟨session, hsession, hkey⟩ := getSession_key_ne_nil_iff.mp hserved
    have hlatest := latest_of_getElem? hsession
    rw [getSession_of_getElem? hsession]
    refine ⟨⟨session.lastUse, used_lastUse hsession hkey, not_lt.mp fun hlt => ?_⟩, hlatest⟩
    obtain ⟨c, hc, w, hw, hlate⟩ :=
      h l id t _ hl (lease_of_getElem? horder' hdropped hsession hkey) hlt
    exact absurd (cleanupTime_le horder' hsession hc hw) (not_le.mpr hlate)

/-- A session, and a lookup of it in time. -/
def promptLookup : List Call :=
  [.add 1 ['a'] ['s'] [7] (seconds 1) (seconds 1), .get ['s'] (seconds 2)]

theorem expired_not_served_iff_promptLookup :
    ServesLive promptLookup ↔ DroppedInTime promptLookup :=
  expired_not_served_iff promptLookup (by decide)

/-- A session, and a lookup of it an hour later. -/
def lateLookup : List Call :=
  [.add 1 ['a'] ['s'] [7] (seconds 1) (seconds 1), .get ['s'] (seconds 3601)]

/-- A session is served an hour after its last use. -/
theorem lateLookup_served :
    InOrder Call.readings lateLookup ∧ ¬ ServesLive lateLookup ∧
      ((after (lateLookup.take 1)).getSession ['s'] (seconds 3601)).1.hmacKey = [7] := by
  have hserved : ((after (lateLookup.take 1)).getSession ['s'] (seconds 3601)).1.hmacKey = [7] := by
    have hadded : (after (lateLookup.take 1)).sessions[['s']]? =
        some ⟨1, ['a'], ['s'], [7], seconds 1⟩ :=
      getElem?_after_add (l := []) 1 ['a'] [7] (seconds 1) (seconds 1)
    exact congrArg PeerSession.hmacKey (getSession_of_getElem? hadded _)
  refine ⟨by decide, fun h => ?_, hserved⟩
  obtain ⟨⟨t₀, hused, hle⟩, _⟩ := h (lateLookup.take 1) ['s'] (seconds 3601)
    (List.prefix_refl lateLookup) (by rw [hserved]; decide)
  obtain ⟨c, hc, ht₀⟩ := hused.mem_readings
  have htime : ∀ c ∈ lateLookup.take 1, ∀ t ∈ c.readings, t = seconds 1 := by decide
  rw [htime c hc t₀ ht₀] at hle
  exact absurd hle (by decide)

end PeerSessions

end Fluffycoin.P2p
