import Fluffycoin.Utils.Trace
import Fluffycoin.Utils.SortedMap
import Fluffycoin.Utils.SteadyClock

/-!
# The brute force check of peers

`BruteForce` (`services/p2p/auth`) counts the offenses of a peer address and locks the address out
for a while at the third. The states of one address are a small machine of their own (`Standing`):
an offense moves it on (`Standing.offend`), a cleanup may move it back (`Standing.forgive`). The two
maps of the code are that machine for every address at once (`standing_addOffense`,
`standing_cleanup`), as long as no address is in both (`Apart`).

## Results

* `lockouts_hold`: in every state a run of calls reaches, no address is in both maps, the counts are
  1 or 2, a lockout had three offenses, and it takes hold for its 60 seconds.
* `lockouts_expire_iff`: a lockout and the offenses before it are to be forgotten after 60 seconds,
  at the next cleanup. The guard of `cleanup` returns when the cleanup is due (`nextCleanup < now`),
  and `nextCleanup` starts at the epoch of the clock, so after the epoch none is ever made
  (`cleanup_of_pos`): an address is locked out for good by its third offense. What is left of the
  requirement is what holds of calls too close together to tell the difference.
-/

namespace Fluffycoin.P2p

open Std (ExtTreeMap)
open SteadyClock

/-! ## The code -/

structure BruteForceOffender where
  address : List Char
  offenses : Nat := 0
  lastOffense : Int := 0
deriving DecidableEq, Repr

structure BruteForce where
  offenders : ExtTreeMap (List Char) BruteForceOffender := ∅
  mapAddressToForgiveness : ExtTreeMap (List Char) Int := ∅
  nextCleanup : Int := 0

namespace BruteForce

def maxOffenses : Nat := 3

def lockoutSeconds : Nat := 60

def cleanupIntervalSeconds : Nat := 20

/-- `BruteForce::cleanup`, with the reading `now` of the clock. -/
def cleanup (s : BruteForce) (now : Int) : BruteForce :=
  if s.nextCleanup < now then s
  else
    -- Forgive previous transgressions, and reset pending offenses
    { nextCleanup := now + seconds cleanupIntervalSeconds
      mapAddressToForgiveness :=
        s.mapAddressToForgiveness.filter fun _ forgiveness => !decide (forgiveness < now)
      offenders := s.offenders.filter fun _ offender =>
        !decide (offender.lastOffense + seconds lockoutSeconds < now) }

def checkAddress (s : BruteForce) (now : Int) (address : List Char) : Bool × BruteForce :=
  let s := s.cleanup now
  (!s.mapAddressToForgiveness.contains address, s)

def addOffense (s : BruteForce) (now : Int) (address : List Char) : BruteForce :=
  -- Already blocked?
  if address ∈ s.mapAddressToForgiveness then s
  else match s.offenders[address]? with
    | none =>
      { s with offenders := s.offenders.insert address ⟨address, 1, now⟩ }
    | some offender =>
      let offender := { offender with lastOffense := now, offenses := offender.offenses + 1 }
      if maxOffenses ≤ offender.offenses then
        { s with
          mapAddressToForgiveness :=
            s.mapAddressToForgiveness.insert address (offender.lastOffense + seconds lockoutSeconds)
          offenders := s.offenders.erase address }
      else { s with offenders := s.offenders.insert address offender }

end BruteForce

/-! ## One address -/

/-- What is held against an address. -/
inductive Standing
  | clear
  | offended (offenses : Nat) (lastOffense : Int)
  | locked (forgiveness : Int)
deriving DecidableEq, Repr

namespace Standing

def offend (now : Int) : Standing → Standing
  | clear => offended 1 now
  | offended n _ =>
    if BruteForce.maxOffenses ≤ n + 1 then locked (now + seconds BruteForce.lockoutSeconds)
    else offended (n + 1) now
  | locked t => locked t

def forgive (now : Int) : Standing → Standing
  | clear => clear
  | offended n last =>
    if last + seconds BruteForce.lockoutSeconds < now then clear else offended n last
  | locked t => if t < now then clear else locked t

/-- The standing of an address with these entries in the two maps. -/
def ofEntries : Option Int → Option BruteForceOffender → Standing
  | some forgiveness, _ => locked forgiveness
  | none, some offender => offended offender.offenses offender.lastOffense
  | none, none => clear

def IsLocked : Standing → Prop
  | locked _ => True
  | _ => False

instance : DecidablePred IsLocked := fun s => by cases s <;> unfold IsLocked <;> infer_instance

/-- A pending count has not reached the lockout. -/
def Counted : Standing → Prop
  | offended n _ => 1 ≤ n ∧ n ≤ BruteForce.maxOffenses - 1
  | _ => True

/-- The offenses it takes to get there. -/
def offenses : Standing → Nat
  | clear => 0
  | offended n _ => n
  | locked _ => BruteForce.maxOffenses

theorem Counted.offend {s : Standing} (h : s.Counted) (now : Int) : (s.offend now).Counted := by
  cases s with
  | clear => exact ⟨le_refl 1, by decide⟩
  | offended n last =>
    rw [Standing.offend]
    split
    case isTrue => trivial
    case isFalse hlt => exact ⟨Nat.le_add_left 1 n, by omega⟩
  | locked t => trivial

theorem Counted.forgive {s : Standing} (h : s.Counted) (now : Int) : (s.forgive now).Counted := by
  cases s with
  | clear => trivial
  | offended n last =>
    rw [Standing.forgive]
    split
    case isTrue => trivial
    case isFalse => exact h
  | locked t =>
    rw [Standing.forgive]
    split <;> trivial

theorem Counted.offenses_offend_le {s : Standing} (h : s.Counted) (now : Int) :
    (s.offend now).offenses ≤ s.offenses + 1 := by
  cases s with
  | clear => exact le_refl _
  | offended n last =>
    have hn : n ≤ BruteForce.maxOffenses - 1 := h.2
    rw [Standing.offend]
    split
    case isTrue hle => exact hle
    case isFalse => exact le_refl _
  | locked t => exact Nat.le_succ _

theorem offenses_forgive_le (s : Standing) (now : Int) :
    (s.forgive now).offenses ≤ s.offenses := by
  cases s with
  | clear => exact le_refl _
  | offended n last =>
    rw [forgive]
    split
    · exact Nat.zero_le n
    · exact le_refl _
  | locked t =>
    rw [forgive]
    split
    · exact Nat.zero_le _
    · exact le_refl _

/-- An address is locked out when it got there with three offenses. -/
theorem IsLocked.offenses_eq {s : Standing} (h : s.IsLocked) :
    s.offenses = BruteForce.maxOffenses := by
  cases s with
  | clear => exact h.elim
  | offended n last => exact h.elim
  | locked t => rfl

/-- Offenses at the times `ts`, and nothing forgiven in between. -/
def offendAll (s : Standing) (ts : List Int) : Standing := ts.foldl (fun s t => s.offend t) s

theorem offendAll_append (s : Standing) (ts us : List Int) :
    s.offendAll (ts ++ us) = (s.offendAll ts).offendAll us := List.foldl_append

theorem offendAll_locked (t : Int) (ts : List Int) : (locked t).offendAll ts = locked t := by
  induction ts with
  | nil => rfl
  | cons u ts ih => exact ih

theorem isLocked_offendAll_iff (ts : List Int) :
    (clear.offendAll ts).IsLocked ↔ BruteForce.maxOffenses ≤ ts.length := by
  rcases ts with _ | ⟨t₁, _ | ⟨t₂, _ | ⟨t₃, ts⟩⟩⟩
  · exact iff_of_false id (Nat.not_le_of_lt (Nat.zero_lt_succ 2))
  · exact iff_of_false id (Nat.not_le_of_lt (Nat.lt_add_of_pos_right (n := 1) Nat.two_pos))
  · exact iff_of_false id (Nat.not_le_of_lt (Nat.lt_succ_self 2))
  · refine iff_of_true ?_ (Nat.le_add_left 3 ts.length)
    show ((locked _).offendAll ts).IsLocked
    rw [offendAll_locked]
    trivial

end Standing

namespace BruteForce

variable {s : BruteForce} {a b : List Char} {now : Int}

/-- What is held against `address`. -/
def standing (s : BruteForce) (address : List Char) : Standing :=
  .ofEntries s.mapAddressToForgiveness[address]? s.offenders[address]?

/-- No address is in both maps. -/
def Apart (s : BruteForce) : Prop := ∀ a ∈ s.mapAddressToForgiveness, a ∉ s.offenders

theorem isLocked_standing_iff : (s.standing a).IsLocked ↔ a ∈ s.mapAddressToForgiveness := by
  rw [ExtTreeMap.mem_iff_isSome_getElem?, standing]
  cases s.mapAddressToForgiveness[a]? with
  | some t => exact iff_of_true trivial rfl
  | none => cases s.offenders[a]? <;> exact iff_of_false id Bool.false_ne_true

theorem standing_eq_clear_iff :
    s.standing a = .clear ↔ a ∉ s.offenders ∧ a ∉ s.mapAddressToForgiveness := by
  rw [ExtTreeMap.mem_iff_isSome_getElem?, ExtTreeMap.mem_iff_isSome_getElem?, standing]
  cases s.mapAddressToForgiveness[a]? <;> cases s.offenders[a]? <;> simp [Standing.ofEntries]

theorem Apart.getElem?_eq_none (h : s.Apart) {o : BruteForceOffender}
    (ho : s.offenders[a]? = some o) : s.mapAddressToForgiveness[a]? = none := by
  have hmem : a ∈ s.offenders := ExtTreeMap.mem_iff_isSome_getElem?.mpr (by rw [ho]; rfl)
  exact ExtTreeMap.getElem?_eq_none fun hlocked => h a hlocked hmem

theorem Apart.standing_of_offender (h : s.Apart) {o : BruteForceOffender}
    (ho : s.offenders[a]? = some o) : s.standing a = .offended o.offenses o.lastOffense := by
  rw [standing, h.getElem?_eq_none ho, ho, Standing.ofEntries]

/-- **`addOffense` is an offense of that address** and changes nothing for any other. -/
theorem standing_addOffense (s : BruteForce) (now : Int) (a b : List Char) :
    (s.addOffense now a).standing b =
      if a = b then (s.standing a).offend now else s.standing b := by
  unfold addOffense
  by_cases hmem : a ∈ s.mapAddressToForgiveness
  · rw [if_pos hmem]
    split
    case isTrue hab =>
      subst hab
      obtain ⟨t, ht⟩ := Option.isSome_iff_exists.mp (ExtTreeMap.mem_iff_isSome_getElem?.mp hmem)
      rw [standing, ht]
      rfl
    case isFalse => rfl
  · have hnone : s.mapAddressToForgiveness[a]? = none := ExtTreeMap.getElem?_eq_none hmem
    rw [if_neg hmem]
    cases ho : s.offenders[a]? with
    | none =>
      simp only [standing, ExtTreeMap.getElem?_insert, Std.LawfulEqCmp.compare_eq_iff_eq]
      split
      case isTrue hab =>
        subst hab
        rw [hnone, ho]
        rfl
      case isFalse => rfl
    | some o =>
      by_cases hmax : maxOffenses ≤ o.offenses + 1
      · simp only [hmax, if_true, standing, ExtTreeMap.getElem?_insert, ExtTreeMap.getElem?_erase,
          Std.LawfulEqCmp.compare_eq_iff_eq]
        split
        case isTrue hab =>
          subst hab
          rw [hnone, ho, Standing.ofEntries, Standing.ofEntries, Standing.offend, if_pos hmax]
        case isFalse => rfl
      · simp only [hmax, if_false, standing, ExtTreeMap.getElem?_insert,
          Std.LawfulEqCmp.compare_eq_iff_eq]
        split
        case isTrue hab =>
          subst hab
          rw [hnone, ho, Standing.ofEntries, Standing.ofEntries, Standing.offend, if_neg hmax]
        case isFalse => rfl

/-- **A cleanup forgives every address at once**, when it is made. -/
theorem Apart.standing_cleanup (h : s.Apart) (now : Int) (a : List Char) :
    (s.cleanup now).standing a =
      if s.nextCleanup < now then s.standing a else (s.standing a).forgive now := by
  unfold cleanup
  split
  case isTrue => rfl
  case isFalse =>
    simp only [standing, ExtTreeMap.getElem?_filter']
    cases ho : s.offenders[a]? with
    | none =>
      cases s.mapAddressToForgiveness[a]? with
      | none => rfl
      | some t =>
        rw [Option.filter_some]
        by_cases ht : t < now <;> simp [Standing.ofEntries, Standing.forgive, ht]
    | some o =>
      rw [h.getElem?_eq_none ho, Option.filter_some]
      by_cases hlast : o.lastOffense + seconds lockoutSeconds < now <;>
        simp [Standing.ofEntries, Standing.forgive, hlast]

theorem Apart.insert_offender (h : s.Apart) (ha : a ∉ s.mapAddressToForgiveness)
    (o : BruteForceOffender) : { s with offenders := s.offenders.insert a o }.Apart := by
  intro b hb hmem
  rw [ExtTreeMap.mem_insert, Std.LawfulEqCmp.compare_eq_iff_eq] at hmem
  rcases hmem with rfl | hmem
  · exact ha hb
  · exact h b hb hmem

theorem Apart.addOffense (h : s.Apart) (now : Int) (a : List Char) :
    (s.addOffense now a).Apart := by
  unfold BruteForce.addOffense
  split
  case isTrue => exact h
  case isFalse hmem =>
    split
    case h_1 => exact h.insert_offender hmem _
    case h_2 o ho =>
      dsimp only
      split
      case isTrue =>
        intro b hb hoff
        rw [ExtTreeMap.mem_insert] at hb
        rw [ExtTreeMap.mem_erase] at hoff
        exact h b (hb.resolve_left hoff.1) hoff.2
      case isFalse => exact h.insert_offender hmem _

theorem Apart.cleanup (h : s.Apart) (now : Int) : (s.cleanup now).Apart := by
  unfold BruteForce.cleanup
  split
  case isTrue => exact h
  case isFalse =>
    intro a ha hoff
    exact h a (ExtTreeMap.mem_of_mem_filter ha) (ExtTreeMap.mem_of_mem_filter hoff)

/-- A call, with what the clock showed at it. -/
inductive Call
  | check (address : List Char) (now : Int)
  | offense (address : List Char) (now : Int)
deriving DecidableEq, Repr

namespace Call

def time : Call → Int
  | check _ now => now
  | offense _ now => now

def readings (c : Call) : List Int := [c.time]

def isCheck : Call → Bool
  | check _ _ => true
  | offense _ _ => false

/-- When the call was an offense of `address`. -/
def offenseOf (address : List Char) : Call → Option Int
  | check _ _ => none
  | offense a now => if a = address then some now else none

end Call

def step (s : BruteForce) : Call → Option Bool × BruteForce
  | .check address now => ((s.checkAddress now address).1, (s.checkAddress now address).2)
  | .offense address now => (none, s.addOffense now address)

/-- The state after the calls on a fresh `BruteForce`. -/
def after (calls : List Call) : BruteForce := Trace.final step Prod.snd {} calls

theorem after_append (l m : List Call) :
    after (l ++ m) = Trace.final step Prod.snd (after l) m := Trace.final_append ..

theorem after_append_singleton (l : List Call) (c : Call) :
    after (l ++ [c]) = (step (after l) c).2 := after_append l [c]

/-- When `address` offended in the calls. -/
def offenseTimes (calls : List Call) (address : List Char) : List Int :=
  calls.filterMap (Call.offenseOf address)

theorem offenseTimes_append (l m : List Call) (a : List Char) :
    offenseTimes (l ++ m) a = offenseTimes l a ++ offenseTimes m a := List.filterMap_append

/-! ## Invariants of every run -/

structure Sound (s : BruteForce) : Prop where
  apart : s.Apart
  counted : ∀ a, (s.standing a).Counted

theorem sound_empty : Sound {} where
  apart := fun _ ha => absurd ha ExtTreeMap.not_mem_empty
  counted := fun a => by
    have hclear : standing {} a = .clear :=
      standing_eq_clear_iff.mpr ⟨ExtTreeMap.not_mem_empty, ExtTreeMap.not_mem_empty⟩
    rw [hclear]
    trivial

/-- **What a call does to one address**: an offense of it moves it on, and a check may forgive it.
-/
theorem Sound.standing_step (h : s.Sound) (c : Call) (a : List Char) :
    ((s.step c).2.standing a = s.standing a ∧ c.offenseOf a = none) ∨
      ((s.step c).2.standing a = (s.standing a).forgive c.time ∧ c.offenseOf a = none) ∨
      ((s.step c).2.standing a = (s.standing a).offend c.time ∧ c.offenseOf a = some c.time) := by
  cases c with
  | check b now =>
    show (s.cleanup now).standing a = _ ∧ _ ∨ (s.cleanup now).standing a = _ ∧ _ ∨ _
    rw [h.apart.standing_cleanup]
    split
    case isTrue => exact .inl ⟨rfl, rfl⟩
    case isFalse => exact .inr (.inl ⟨rfl, rfl⟩)
  | offense b now =>
    show (s.addOffense now b).standing a = _ ∧ _ ∨ _ ∨ (s.addOffense now b).standing a = _ ∧ _
    rw [standing_addOffense]
    by_cases hba : b = a
    · subst hba
      rw [if_pos rfl]
      exact .inr (.inr ⟨rfl, if_pos rfl⟩)
    · rw [if_neg hba]
      exact .inl ⟨rfl, if_neg hba⟩

theorem Sound.step (h : s.Sound) (c : Call) : (s.step c).2.Sound where
  apart := by
    cases c with
    | check a now => exact h.apart.cleanup now
    | offense a now => exact h.apart.addOffense now a
  counted := fun a => by
    rcases h.standing_step c a with ⟨hst, _⟩ | ⟨hst, _⟩ | ⟨hst, _⟩ <;> rw [hst]
    · exact h.counted a
    · exact (h.counted a).forgive _
    · exact (h.counted a).offend _

theorem sound_after (calls : List Call) : (after calls).Sound := by
  induction calls using List.reverseRecOn with
  | nil => exact sound_empty
  | append_singleton l c ih =>
    rw [after_append_singleton]
    exact ih.step c

/-- An address gets no further than by the offenses since it was clear. -/
theorem offenses_after_le {l : List Call} (hclear : (after l).standing a = .clear) (m : List Call) :
    ((after (l ++ m)).standing a).offenses ≤ (offenseTimes m a).length := by
  induction m using List.reverseRecOn with
  | nil => rw [List.append_nil, hclear]; exact le_refl 0
  | append_singleton m c ih =>
    have hsound := sound_after (l ++ m)
    rw [← List.append_assoc, after_append_singleton, offenseTimes_append, List.length_append,
      offenseTimes, offenseTimes, List.filterMap_cons, List.filterMap_nil]
    rcases hsound.standing_step c a with ⟨hst, hnone⟩ | ⟨hst, hnone⟩ | ⟨hst, hsome⟩
    · rw [hst, hnone]
      exact ih
    · rw [hst, hnone]
      exact (Standing.offenses_forgive_le _ _).trans ih
    · rw [hst, hsome]
      exact ((hsound.counted a).offenses_offend_le _).trans (Nat.add_le_add_right ih 1)

/-- A lockout holds until its time has passed. -/
theorem Sound.standing_final_of_locked (hs : s.Sound) {t : Int} (ht : s.standing a = .locked t)
    {m : List Call} (hm : ∀ c ∈ m, c.time ≤ t) :
    (Trace.final BruteForce.step Prod.snd s m).standing a = .locked t := by
  induction m generalizing s with
  | nil => exact ht
  | cons c m ih =>
    obtain ⟨hc, hm⟩ := List.forall_mem_cons.mp hm
    refine ih (hs.step c) ?_ hm
    rcases hs.standing_step c a with ⟨hst, _⟩ | ⟨hst, _⟩ | ⟨hst, _⟩ <;> rw [hst, ht]
    · exact if_neg (Int.not_lt.mpr hc)
    · rfl

/-- `checkAddress` refuses the addresses that are still locked out after the cleanup. -/
theorem checkAddress_eq_false_iff :
    (s.checkAddress now a).1 = false ↔ ((s.cleanup now).standing a).IsLocked := by
  rw [isLocked_standing_iff, ExtTreeMap.mem_iff_contains, checkAddress, Bool.not_eq_false']

/-- The offense at `now` locks the address out, after the calls `l`. -/
def LocksOut (l : List Call) (a : List Char) (now : Int) : Prop :=
  a ∉ (after l).mapAddressToForgiveness ∧
    a ∈ (after (l ++ [Call.offense a now])).mapAddressToForgiveness

/-- An offense that locks an address out does so for the time of a lockout. -/
theorem LocksOut.standing_after {l : List Call} (h : LocksOut l a now) :
    (after (l ++ [Call.offense a now])).standing a = .locked (now + seconds lockoutSeconds) := by
  obtain ⟨hbefore, hafter⟩ := h
  rw [← isLocked_standing_iff] at hbefore hafter
  have hst : (after (l ++ [Call.offense a now])).standing a =
      ((after l).standing a).offend now := by
    rw [after_append_singleton]
    exact (standing_addOffense _ _ _ _).trans (if_pos rfl)
  rw [hst] at hafter ⊢
  cases hl : (after l).standing a with
  | clear =>
    rw [hl] at hafter
    exact hafter.elim
  | offended n last =>
    rw [hl, Standing.offend] at hafter
    rw [Standing.offend]
    split at hafter
    case isTrue hmax => exact if_pos hmax
    case isFalse => exact hafter.elim
  | locked t =>
    rw [hl] at hbefore
    exact absurd trivial hbefore

/-- **Lockouts take hold, and only for cause**: after any calls on a fresh `BruteForce`. -/
theorem lockouts_hold (calls : List Call) :
    (∀ a, ¬ (a ∈ (after calls).offenders ∧ a ∈ (after calls).mapAddressToForgiveness)) ∧
      (∀ (a : List Char) (o : BruteForceOffender), (after calls).offenders[a]? = some o →
        1 ≤ o.offenses ∧ o.offenses ≤ maxOffenses - 1) ∧
      (∀ l m a, calls = l ++ m →
        a ∉ (after l).offenders ∧ a ∉ (after l).mapAddressToForgiveness →
        a ∈ (after calls).mapAddressToForgiveness → maxOffenses ≤ (offenseTimes m a).length) ∧
      ∀ l m a t t', calls = l ++ Call.offense a t :: m → LocksOut l a t →
        InOrder Call.readings (calls ++ [Call.check a t']) → t' ≤ t + seconds lockoutSeconds →
        ((after calls).checkAddress t' a).1 = false := by
  have hsound := sound_after calls
  refine ⟨fun a h => hsound.apart a h.2 h.1, fun a o ho => ?_, ?_, ?_⟩
  · have hcounted := hsound.counted a
    rw [hsound.apart.standing_of_offender ho] at hcounted
    exact hcounted
  · rintro l m a rfl hclear hmem
    have hle := offenses_after_le (standing_eq_clear_iff.mpr hclear) m
    rwa [(isLocked_standing_iff.mpr hmem).offenses_eq] at hle
  · rintro l m a t t' rfl hlocks horder ht'
    have hcalls : l ++ Call.offense a t :: m = (l ++ [Call.offense a t]) ++ m := by
      rw [List.append_assoc]
      rfl
    have hm : ∀ c ∈ m, c.time ≤ t + seconds lockoutSeconds := fun c hc =>
      (horder.le (List.mem_append_right l (List.mem_cons_of_mem _ hc)) List.mem_cons_self
        List.mem_cons_self List.mem_cons_self).trans ht'
    have hst := (sound_after (l ++ [Call.offense a t])).standing_final_of_locked
      hlocks.standing_after hm
    rw [← after_append, ← hcalls] at hst
    rw [checkAddress_eq_false_iff, hsound.apart.standing_cleanup, hst, Standing.forgive,
      if_neg (Int.not_lt.mpr ht'), ite_self]
    trivial

/-! ## Expiry -/

/-- The time after which a lockout, or an offense, is to be forgotten. -/
def expiry : Int := seconds lockoutSeconds + seconds cleanupIntervalSeconds

/-- An address that is refused was locked out no longer ago than that. -/
def LockoutsExpire (calls : List Call) : Prop :=
  ∀ l a t, l ++ [Call.check a t] <+: calls → ((after l).checkAddress t a).1 = false →
    ∃ l₀ m t₀, l = l₀ ++ Call.offense a t₀ :: m ∧ LocksOut l₀ a t₀ ∧ t ≤ t₀ + expiry

/-- No call comes later than an interval of cleanups after the last check before it, or after the
first call. -/
def Attended (calls : List Call) : Prop :=
  ∀ (i : Nat) (h : i < calls.length),
    (∃ d ∈ calls.take i, d.isCheck = true ∧
      calls[i].time ≤ d.time + seconds cleanupIntervalSeconds) ∨
      ∀ d ∈ calls.take i, calls[i].time ≤ d.time + seconds cleanupIntervalSeconds

instance (calls : List Call) : Decidable (Attended calls) :=
  inferInstanceAs (Decidable (∀ (i : Nat) (_ : i < calls.length), _ ∨ _))

/-- Under regular checks, an address is locked out only for offenses that came in time of each
other. -/
def OffensesExpire (calls : List Call) : Prop :=
  ∀ l a t, l ++ [Call.offense a t] <+: calls → Attended (l ++ [Call.offense a t]) → LocksOut l a t →
    ((offenseTimes (l ++ [Call.offense a t]) a).rtake maxOffenses).IsChain fun u v => v ≤ u + expiry

/-- No address is checked later than that after its third offense. -/
def ChecksInTime (calls : List Call) : Prop :=
  ∀ l a t, l ++ [Call.check a t] <+: calls →
    ∀ t₀, (offenseTimes l a)[2]? = some t₀ → t ≤ t₀ + expiry

/-- Under regular checks, the first three offenses of an address come in time of each other. -/
def OffensesInTime (calls : List Call) : Prop :=
  ∀ l a t, l ++ [Call.offense a t] <+: calls → Attended (l ++ [Call.offense a t]) →
    ∀ t₁ t₂, offenseTimes l a = [t₁, t₂] → t₂ ≤ t₁ + expiry ∧ t ≤ t₂ + expiry

/-- **After the epoch no cleanup is made**: the guard returns when it is due. -/
theorem cleanup_of_pos (h : s.nextCleanup = 0) (hnow : 0 < now) : s.cleanup now = s :=
  if_pos (by rwa [h])

theorem nextCleanup_addOffense (s : BruteForce) (now : Int) (a : List Char) :
    (s.addOffense now a).nextCleanup = s.nextCleanup := by
  unfold addOffense
  split
  · rfl
  · split
    · rfl
    · dsimp only
      split <;> rfl

/-- Nothing is ever forgiven: an address is where its offenses have brought it. -/
theorem standing_after_of_pos {l : List Call} (hpos : ∀ c ∈ l, 0 < c.time) :
    (after l).nextCleanup = 0 ∧
      ∀ a, (after l).standing a = Standing.clear.offendAll (offenseTimes l a) := by
  induction l using List.reverseRecOn with
  | nil =>
    exact ⟨rfl, fun a =>
      standing_eq_clear_iff.mpr ⟨ExtTreeMap.not_mem_empty, ExtTreeMap.not_mem_empty⟩⟩
  | append_singleton l c ih =>
    obtain ⟨hnext, hst⟩ := ih fun c hc => hpos c (List.mem_append_left _ hc)
    have hc : 0 < c.time := hpos c (List.mem_append_right l List.mem_cons_self)
    rw [after_append_singleton]
    cases c with
    | check b now =>
      have hstep : ((after l).step (.check b now)).2 = after l := cleanup_of_pos hnext hc
      refine ⟨by rw [hstep, hnext], fun a => ?_⟩
      rw [hstep, hst, offenseTimes_append]
      exact congrArg _ (List.append_nil _).symm
    | offense b now =>
      refine ⟨(nextCleanup_addOffense _ _ _).trans hnext, fun a => ?_⟩
      rw [offenseTimes_append, Standing.offendAll_append, ← hst]
      refine (standing_addOffense _ _ _ _).trans ?_
      by_cases hba : b = a
      · subst hba
        simp [offenseTimes, Call.offenseOf, Standing.offendAll]
      · simp [offenseTimes, Call.offenseOf, Standing.offendAll, hba]

section AfterEpoch

variable {l : List Call} (hpos : ∀ c ∈ l, 0 < c.time)
include hpos

theorem isLocked_after_iff :
    ((after l).standing a).IsLocked ↔ maxOffenses ≤ (offenseTimes l a).length := by
  rw [(standing_after_of_pos hpos).2, Standing.isLocked_offendAll_iff]

/-- An address is refused for good after its third offense. -/
theorem checkAddress_after_iff (hnow : 0 < now) :
    ((after l).checkAddress now a).1 = false ↔ maxOffenses ≤ (offenseTimes l a).length := by
  rw [checkAddress_eq_false_iff, cleanup_of_pos (standing_after_of_pos hpos).1 hnow,
    isLocked_after_iff hpos]

/-- The third offense is the one that locks an address out. -/
theorem locksOut_iff (hnow : 0 < now) : LocksOut l a now ↔ (offenseTimes l a).length = 2 := by
  have hpos' : ∀ c ∈ l ++ [Call.offense a now], 0 < c.time := by
    intro c hc
    rcases List.mem_append.mp hc with hc | hc
    · exact hpos c hc
    · rw [List.mem_singleton.mp hc]
      exact hnow
  have htimes : offenseTimes (l ++ [Call.offense a now]) a = offenseTimes l a ++ [now] := by
    rw [offenseTimes_append]
    simp [offenseTimes, Call.offenseOf]
  rw [LocksOut, ← isLocked_standing_iff, ← isLocked_standing_iff, isLocked_after_iff hpos,
    isLocked_after_iff hpos', htimes, List.length_append, List.length_singleton]
  unfold maxOffenses
  omega

end AfterEpoch

/-- The third offense of an address is at the end of some calls with two before it. -/
theorem getElem?_offenseTimes_iff {l : List Call} {t : Int} :
    (offenseTimes l a)[2]? = some t ↔
      ∃ l₀ m, l = l₀ ++ Call.offense a t :: m ∧ (offenseTimes l₀ a).length = 2 := by
  constructor
  · intro h
    obtain ⟨hlt, ht⟩ := List.getElem?_eq_some_iff.mp h
    have hsplit : offenseTimes l a =
        (offenseTimes l a).take 2 ++ t :: (offenseTimes l a).drop 3 := by
      rw [← ht, ← List.drop_eq_getElem_cons hlt, List.take_append_drop]
    obtain ⟨l₀, m, rfl, hl₀, hm⟩ := List.filterMap_eq_append_iff.mp hsplit
    obtain ⟨m₁, c, m₂, rfl, hm₁, hc, _⟩ := List.filterMap_eq_cons_iff.mp hm
    -- the call that gave the third time is an offense of `a`
    have hcall : c = .offense a t := by
      cases c with
      | check b now => cases hc
      | offense b now =>
        obtain ⟨rfl, hsome⟩ := Option.ite_none_right_eq_some.mp hc
        rw [Option.some.inj hsome]
    refine ⟨l₀ ++ m₁, m₂, by rw [hcall, List.append_assoc], ?_⟩
    have hnil : offenseTimes m₁ a = [] := List.filterMap_eq_nil_iff.mpr hm₁
    have hlen : (offenseTimes l₀ a).length = 2 := by
      rw [offenseTimes, hl₀, List.length_take]
      omega
    rw [offenseTimes_append, hnil, List.append_nil, hlen]
  · rintro ⟨l₀, m, rfl, hlen⟩
    rw [offenseTimes_append, List.getElem?_append_right hlen.le, hlen]
    simp [offenseTimes, Call.offenseOf]

theorem pos_of_isPrefix {calls l : List Call} {c : Call} (hpos : ∀ c ∈ calls, 0 < c.time)
    (hl : l ++ [c] <+: calls) : 0 < c.time ∧ ∀ d ∈ l, 0 < d.time :=
  ⟨hpos c (hl.mem (List.mem_append_right l List.mem_cons_self)),
    fun d hd => hpos d (hl.mem (List.mem_append_left _ hd))⟩

theorem lockoutsExpire_iff {calls : List Call} (hpos : ∀ c ∈ calls, 0 < c.time) :
    LockoutsExpire calls ↔ ChecksInTime calls := by
  constructor
  · intro h l a t hl t₀ ht₀
    obtain ⟨ht, hposl⟩ := pos_of_isPrefix hpos hl
    obtain ⟨hlt, _⟩ := List.getElem?_eq_some_iff.mp ht₀
    obtain ⟨l₀, m, t₁, rfl, hlocks, hle⟩ := h l a t hl ((checkAddress_after_iff hposl ht).mpr hlt)
    have hpos₀ : ∀ c ∈ l₀, 0 < c.time := fun c hc => hposl c (List.mem_append_left _ hc)
    have ht₁ : 0 < t₁ := hposl _ (List.mem_append_right l₀ List.mem_cons_self)
    have ht₁' := (getElem?_offenseTimes_iff (t := t₁)).mpr
      ⟨l₀, m, rfl, (locksOut_iff hpos₀ ht₁).mp hlocks⟩
    rw [ht₀] at ht₁'
    rw [Option.some.inj ht₁']
    exact hle
  · intro h l a t hl hfalse
    obtain ⟨ht, hposl⟩ := pos_of_isPrefix hpos hl
    have hlt : 2 < (offenseTimes l a).length := (checkAddress_after_iff hposl ht).mp hfalse
    obtain ⟨t₀, ht₀⟩ : ∃ t₀, (offenseTimes l a)[2]? = some t₀ := ⟨_, List.getElem?_eq_getElem hlt⟩
    obtain ⟨l₀, m, rfl, hlen⟩ := getElem?_offenseTimes_iff.mp ht₀
    have hpos₀ : ∀ c ∈ l₀, 0 < c.time := fun c hc => hposl c (List.mem_append_left _ hc)
    have hpos_t₀ : 0 < t₀ := hposl _ (List.mem_append_right l₀ List.mem_cons_self)
    exact ⟨l₀, m, t₀, rfl, (locksOut_iff hpos₀ hpos_t₀).mpr hlen, h _ a t hl _ ht₀⟩

theorem offensesExpire_iff {calls : List Call} (hpos : ∀ c ∈ calls, 0 < c.time) :
    OffensesExpire calls ↔ OffensesInTime calls := by
  have hlocksOut {l : List Call} {a : List Char} {t : Int}
      (hl : l ++ [Call.offense a t] <+: calls) :
      LocksOut l a t ↔ (offenseTimes l a).length = 2 := by
    obtain ⟨ht, hposl⟩ := pos_of_isPrefix hpos hl
    exact locksOut_iff hposl ht
  have hchain {l : List Call} {a : List Char} {t t₁ t₂ : Int} (hl : offenseTimes l a = [t₁, t₂]) :
      (((offenseTimes (l ++ [Call.offense a t]) a).rtake maxOffenses).IsChain
        fun u v => v ≤ u + expiry) ↔ t₂ ≤ t₁ + expiry ∧ t ≤ t₂ + expiry := by
    have htimes : (offenseTimes (l ++ [Call.offense a t]) a).rtake maxOffenses = [t₁, t₂, t] := by
      rw [offenseTimes_append, hl]
      simp [offenseTimes, Call.offenseOf, List.rtake, maxOffenses]
    rw [htimes]
    simp
  constructor
  · intro h l a t hl hattended t₁ t₂ htimes
    exact (hchain htimes).mp (h l a t hl hattended ((hlocksOut hl).mpr (by rw [htimes]; rfl)))
  · intro h l a t hl hattended hlocks
    obtain ⟨t₁, t₂, htimes⟩ := List.length_eq_two.mp ((hlocksOut hl).mp hlocks)
    exact (hchain htimes).mpr (h l a t hl hattended t₁ t₂ htimes)

/-- **When lockouts and offenses expire**: for calls in the order of time, after the epoch of the
clock, exactly if they never get as far as a cleanup that has something to forgive. -/
theorem lockouts_expire_iff (calls : List Call) (horder : InOrder Call.readings calls)
    (hstart : ∀ c ∈ calls.head?, 0 < c.time) :
    LockoutsExpire calls ∧ OffensesExpire calls ↔ ChecksInTime calls ∧ OffensesInTime calls := by
  have hpos : ∀ c ∈ calls, 0 < c.time := by
    cases calls with
    | nil => exact fun c hc => absurd hc List.not_mem_nil
    | cons c calls =>
      have hc : 0 < c.time := hstart c rfl
      have hsplit : InOrder Call.readings ([c] ++ calls) := horder
      refine List.forall_mem_cons.mpr ⟨hc, fun d hd => hc.trans_le ?_⟩
      exact hsplit.le List.mem_cons_self hd List.mem_cons_self List.mem_cons_self
  rw [lockoutsExpire_iff hpos, offensesExpire_iff hpos]

/-- Three offenses at once, and a check within the lockout. -/
def promptCalls (a : List Char) : List Call :=
  [.offense a (seconds 1), .offense a (seconds 1), .offense a (seconds 1), .check a (seconds 2)]

theorem lockouts_expire_iff_promptCalls :
    LockoutsExpire (promptCalls []) ∧ OffensesExpire (promptCalls []) ↔
      ChecksInTime (promptCalls []) ∧ OffensesInTime (promptCalls []) :=
  lockouts_expire_iff (promptCalls []) (by decide) (by decide)

/-- Three offenses at once, and a check an hour later. -/
def lateCheck (a : List Char) : List Call :=
  [.offense a (seconds 1), .offense a (seconds 1), .offense a (seconds 1), .check a (seconds 3601)]

/-- Regular checks, and offenses of which the second comes ninety-nine seconds after the first. -/
def slowOffenses (a : List Char) : List Call :=
  [.offense a (seconds 1), .check a (seconds 20), .check a (seconds 40), .check a (seconds 60),
    .check a (seconds 80), .check a (seconds 100), .offense a (seconds 100),
    .offense a (seconds 100)]

/-- An address is still refused an hour after its lockout, and one is locked out for an offense that
was to be forgotten. -/
theorem lockout_never_ends :
    InOrder Call.readings (lateCheck []) ∧ ¬ LockoutsExpire (lateCheck []) ∧
      InOrder Call.readings (slowOffenses []) ∧ Attended (slowOffenses []) ∧
      ¬ OffensesExpire (slowOffenses []) := by
  have hlate : ¬ ChecksInTime (lateCheck []) := fun h =>
    absurd (h ((lateCheck []).take 3) [] (seconds 3601) (List.prefix_refl (lateCheck []))
      (seconds 1) rfl) (by decide)
  have hslow : ¬ OffensesInTime (slowOffenses []) := fun h =>
    absurd (h ((slowOffenses []).take 7) [] (seconds 100) (List.prefix_refl (slowOffenses []))
      (by decide) (seconds 1) (seconds 100) rfl).1 (by decide)
  rw [lockoutsExpire_iff (by decide), offensesExpire_iff (by decide)]
  exact ⟨by decide, hlate, by decide, by decide, hslow⟩

end BruteForce

end Fluffycoin.P2p
