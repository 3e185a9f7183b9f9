import Mathlib.Data.Int.ModEq
import Mathlib.Order.Basic

/-!
# Time points

Model of `block::Time` and the system clock (`src/block/Time.cpp`). A time is its `uint64_t`, a time
point of the system clock the nanoseconds since 1970 in an `int64_t`. Signed arithmetic is exact
here and has no result where it overflows.

The constant `fluffyEpochDelta` (line 10) is June 19th 1999 in milliseconds, and `set` subtracts it
from milliseconds. `getSystemClock` adds it to seconds (lines 27-28). That is over 29000 years, more
than 64 bits of nanoseconds hold, so `from_time_t` overflows for every time
(`getSystemClock_eq_none`). Where the arithmetic wraps around instead, what comes out is off by the
same amount for every time point (`wrapped_set`).
-/

namespace Fluffycoin.Time

/-- `fluffyEpochDelta`. -/
def fluffyEpochDelta : Int := 0xD87B28B000

/-- A signed result of 64 bits, if there is no overflow. -/
def int64 (z : Int) : Option Int :=
  if -9223372036854775808 ≤ z ∧ z < 9223372036854775808 then some z else none

/-- `Time::set` of a time point. -/
def set (time : Int) : UInt64 :=
  let sinceLinuxEpoch := time.tdiv 1000000
  if sinceLinuxEpoch < fluffyEpochDelta then 0
  else UInt64.ofNat (sinceLinuxEpoch - fluffyEpochDelta).toNat

/-- The argument of `from_time_t`. -/
def timeT (sinceEpoch : UInt64) : Int := sinceEpoch.toNat / 1000 + fluffyEpochDelta

/-- `Time::getSystemClock`; `none` where it overflows. -/
def getSystemClock (sinceEpoch : UInt64) : Option Int := do
  let tt ← int64 (timeT sinceEpoch)
  let tp ← int64 (tt * 1000000000)
  let millis ← int64 ((sinceEpoch.toNat % 1000 : Nat) * 1000000)
  int64 (tp + millis)

/-- What `getSystemClock` gives where the arithmetic wraps around. -/
def wrapped (sinceEpoch : UInt64) : Int :=
  (timeT sinceEpoch * 1000000000 + (sinceEpoch.toNat % 1000 : Nat) * 1000000).bmod
    18446744073709551616

/-- `std::setw(3)` with zeros, of a number that may be negative. -/
def setw3 (millis : Int) : List Char := (Int.repr millis).toList.leftpad 3 '0'

/-- The text of a time point, with `put_time` of `gmtime` as it is. -/
def text (putTime : Int → List Char) (tp : Int) : List Char :=
  putTime (tp.tdiv 1000000000) ++ '.' :: setw3 ((tp.tdiv 1000000).tmod 1000)

/-- `to_string(const block::Time &)`; `none` where it overflows. -/
def toString (putTime : Int → List Char) (sinceEpoch : UInt64) : Option (List Char) :=
  (getSystemClock sinceEpoch).map (text putTime)

/-- A time point of whole milliseconds, at or after the fluffy epoch. -/
structure InRange (tp : Int) : Prop where
  millis : tp % 1000000 = 0
  epoch : fluffyEpochDelta * 1000000 ≤ tp
  bound : tp < 9223372036854775808

/-- A time point survives the conversion. -/
structure Survives (putTime : Int → List Char) (tp : Int) : Prop where
  clock : getSystemClock (set tp) = some tp
  mono : ∀ tp' r r', InRange tp' → tp ≤ tp' → getSystemClock (set tp) = some r →
    getSystemClock (set tp') = some r' → r ≤ r'
  shows : toString putTime (set tp) = some (text putTime tp)

variable {tp : Int}

/-! ## To the fluffy epoch -/

/-- Nothing is lost by `set`: the time is the time point, in milliseconds from the epoch. -/
theorem set_of_inRange (h : InRange tp) :
    ((set tp).toNat + fluffyEpochDelta) * 1000000 = tp := by
  obtain ⟨hmillis, hepoch, hbound⟩ := h
  unfold fluffyEpochDelta at hepoch
  have hdiv : tp.tdiv 1000000 = tp / 1000000 := Int.tdiv_eq_ediv_of_nonneg (by omega)
  have hge : ¬ tp / 1000000 < 0xD87B28B000 := by omega
  have hlt : (tp / 1000000 - 0xD87B28B000).toNat < UInt64.size := by
    have hsize : UInt64.size = 18446744073709551616 := rfl
    omega
  unfold set fluffyEpochDelta
  rw [hdiv]
  simp only [if_neg hge]
  rw [UInt64.toNat_ofNat_of_lt' hlt]
  omega

/-! ## Back to the system clock -/

/-- The seconds given to `from_time_t` do not fit into 64 bits of nanoseconds. -/
theorem le_timeT (sinceEpoch : UInt64) : 9223372037 ≤ timeT sinceEpoch := by
  unfold timeT fluffyEpochDelta
  omega

/-- **`getSystemClock` overflows for every time.** -/
theorem getSystemClock_eq_none (sinceEpoch : UInt64) : getSystemClock sinceEpoch = none := by
  have hle := le_timeT sinceEpoch
  have hnone : int64 (timeT sinceEpoch * 1000000000) = none := by
    refine if_neg fun hfits => ?_
    omega
  unfold getSystemClock
  cases htt : int64 (timeT sinceEpoch) with
  | none => rfl
  | some tt =>
    have heq : timeT sinceEpoch = tt := by
      unfold int64 at htt
      split_ifs at htt
      exact Option.some.inj htt
    rw [Option.bind_eq_bind, Option.bind_some, ← heq, hnone]
    rfl

/-- The error where the arithmetic wraps around: the delta in seconds instead of milliseconds. -/
def error : Int := fluffyEpochDelta * 999000000

theorem wrapped_set (h : InRange tp) :
    wrapped (set tp) = (tp + error).bmod 18446744073709551616 := by
  have hset := set_of_inRange h
  have hexact : timeT (set tp) * 1000000000 + ((set tp).toNat % 1000 : Nat) * 1000000 =
      tp + error := by
    unfold timeT error
    omega
  rw [wrapped, hexact]

theorem wrapped_set_ne (h : InRange tp) : wrapped (set tp) ≠ tp := by
  intro heq
  have hmod := Int.bmod_emod (x := tp + error) (m := 18446744073709551616)
  rw [← wrapped_set h, heq] at hmod
  unfold error fluffyEpochDelta at hmod
  omega

/-- **No time point survives the conversion**: the way back overflows, and if it wraps around it
gives another time point. -/
theorem never_survives (putTime : Int → List Char) (tp : Int) (h : InRange tp) :
    getSystemClock (set tp) = none ∧ wrapped (set tp) = (tp + error).bmod 18446744073709551616 ∧
      wrapped (set tp) ≠ tp ∧ ¬ Survives putTime tp := by
  refine ⟨getSystemClock_eq_none _, wrapped_set h, wrapped_set_ne h, fun hsurvives => ?_⟩
  have hclock := hsurvives.clock
  rw [getSystemClock_eq_none] at hclock
  cases hclock

/-- The first second of the year 2024. -/
def newYear : Int := 1704067200000000000

theorem inRange_newYear : InRange newYear := ⟨by decide, by decide, by decide⟩

theorem never_survives_newYear :
    InRange newYear ∧ getSystemClock (set newYear) = none ∧ ¬ Survives (fun _ => []) newYear :=
  ⟨inRange_newYear, (never_survives (fun _ => []) newYear inRange_newYear).1,
    (never_survives (fun _ => []) newYear inRange_newYear).2.2.2⟩

/-- Wrapped around, the first second of 2024 comes back as a time of the year 2230. -/
theorem newYear_not_survives :
    wrapped (set newYear) = 8216284314522419200 ∧ ¬ Survives (fun _ => []) newYear := by
  refine ⟨by decide, fun h => ?_⟩
  have hclock := h.clock
  rw [getSystemClock_eq_none] at hclock
  cases hclock

end Fluffycoin.Time
