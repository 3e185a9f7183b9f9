import Mathlib.Data.Int.CardIntervalMod
import Mathlib.Data.Set.Card

/-!
# `Prng::randInt`

Model of `Prng::randInt` (`src/ossl/Prng.cpp:24-46`), a random number between two bounds. The 32-bit
words `Prng::rand` fills in are a list, and a call returns the words it leaves.

The function draws until a word is at most the largest multiple of the range, and reduces it modulo
the range. The range is `max - min` (line 32), one less than there are numbers between the bounds,
and the multiple itself is accepted (line 41). So the upper bound is never returned, and the lower
bound for one word more than the numbers between (`ncard_returning`).
-/

namespace Fluffycoin.Ossl.Prng

/-- `UINT_MAX`. -/
def uintMax : Nat := 4294967295

/-- The largest word accepted, an `unsigned long long`. -/
def maxNum (range : UInt32) : Nat := uintMax - uintMax % range.toNat

/-- The loop: the first word that is not too large, and those after it. -/
def draw (maxNum : Nat) : List UInt32 → Option (UInt32 × List UInt32)
  | [] => none
  | ret :: words => if ret.toNat > maxNum then draw maxNum words else some (ret, words)

/-- `Prng::randInt`; `none` if the words do not suffice. -/
def randInt (min max : UInt32) (words : List UInt32) : Option (UInt32 × List UInt32) :=
  if min = max then some (min, words)
  else
    let (min, max) := if min > max then (max, min) else (min, max)
    let range := max - min
    (draw (maxNum range) words).map fun (ret, words) => (ret % range + min, words)

/-- The words for which a call returns a number at once. -/
def returning (min max ret : UInt32) : Set UInt32 :=
  {word | randInt min max [word] = some (ret, [])}

/-- Every number between the bounds is returned for as many words as any other, and nothing else. -/
structure Uniform (min max : UInt32) : Prop where
  equal : ∃ n > 0, ∀ ret, min ≤ ret → ret ≤ max → (returning min max ret).ncard = n
  between : ∀ ret words rest, randInt min max words = some (ret, rest) → min ≤ ret ∧ ret ≤ max

section Bounds

variable {min max : UInt32}

theorem randInt_of_lt (h : min < max) (words : List UInt32) :
    randInt min max words =
      (draw (maxNum (max - min)) words).map fun (ret, words) =>
        (ret % (max - min) + min, words) := by
  unfold randInt
  rw [if_neg (UInt32.ne_of_lt h), if_neg (UInt32.lt_asymm h)]

theorem toNat_range (h : min < max) : (max - min).toNat = max.toNat - min.toNat :=
  UInt32.toNat_sub_of_le _ _ (UInt32.le_of_lt h)

theorem range_pos (h : min < max) : 0 < (max - min).toNat := by
  rw [toNat_range h]
  exact Nat.sub_pos_of_lt h

/-- A word becomes a number below the upper bound, without an overflow. -/
theorem toNat_reduce (h : min < max) (word : UInt32) :
    (word % (max - min) + min).toNat = word.toNat % (max - min).toNat + min.toNat := by
  have hlt := Nat.mod_lt word.toNat (range_pos h)
  rw [UInt32.toNat_add, UInt32.toNat_mod]
  refine Nat.mod_eq_of_lt ?_
  have hrange := toNat_range h
  have hmax := max.toNat_lt
  omega

/-- **What is returned** is at least the lower bound and below the upper one. -/
theorem randInt_between (h : min < max) {words rest : List UInt32} {ret : UInt32}
    (hret : randInt min max words = some (ret, rest)) : min ≤ ret ∧ ret < max := by
  rw [randInt_of_lt h] at hret
  obtain ⟨⟨word, left⟩, -, heq⟩ := Option.map_eq_some_iff.mp hret
  obtain rfl : word % (max - min) + min = ret := congrArg Prod.fst heq
  rw [UInt32.le_iff_toNat_le, UInt32.lt_iff_toNat_lt, toNat_reduce h]
  have hlt := Nat.mod_lt word.toNat (range_pos h)
  have hrange := toNat_range h
  omega

/-! ## How many words give a number -/

theorem maxNum_eq (range : UInt32) : maxNum range = range.toNat * (uintMax / range.toNat) := by
  have hdiv := Nat.div_add_mod uintMax range.toNat
  unfold maxNum
  omega

theorem le_maxNum {range : UInt32} (h : 0 < range.toNat) : range.toNat ≤ maxNum range := by
  have hpos : 0 < uintMax / range.toNat := Nat.div_pos (Nat.le_of_lt_succ range.toNat_lt) h
  rw [maxNum_eq]
  exact Nat.le_mul_of_pos_right _ hpos

/-- From zero on, a word below the upper bound is returned as it is. -/
theorem randInt_zero_cons {word : UInt32} (h : word < max) (words : List UInt32) :
    randInt 0 max (word :: words) = some (word, words) := by
  have hword := UInt32.lt_iff_toNat_lt.mp h
  have hmax : (0 : UInt32) < max := UInt32.lt_iff_toNat_lt.mpr (Nat.zero_lt_of_lt hword)
  have hle : ¬ word.toNat > maxNum (max - 0) := by
    rw [UInt32.sub_zero]
    exact Nat.not_lt_of_le (hword.le.trans (le_maxNum (Nat.zero_lt_of_lt hword)))
  have hreduce : word % (max - 0) + 0 = word := by
    rw [← UInt32.toNat_inj, toNat_reduce hmax, UInt32.sub_zero, Nat.mod_eq_of_lt hword]
    rfl
  rw [randInt_of_lt hmax, draw, if_neg hle, Option.map_some]
  simp only [hreduce]

theorem mem_returning_iff (h : min < max) {ret word : UInt32} :
    word ∈ returning min max ret ↔
      word.toNat ≤ maxNum (max - min) ∧ word.toNat % (max - min).toNat + min.toNat = ret.toNat := by
  rw [← toNat_reduce h, UInt32.toNat_inj]
  show randInt min max [word] = some (ret, []) ↔ _
  rw [randInt_of_lt h, draw]
  by_cases hword : word.toNat > maxNum (max - min)
  · simp [hword, draw]
  · simp [hword, Nat.le_of_not_lt hword]

theorem maxNum_lt (range : UInt32) : maxNum range < 2 ^ 32 :=
  Nat.lt_of_le_of_lt (Nat.sub_le _ _) (by decide)

/-- The words for a number, as natural numbers. -/
theorem image_returning (h : min < max) {ret : UInt32} (hmin : min ≤ ret) (hmax : ret < max) :
    UInt32.toNat '' returning min max ret =
      ((Finset.range (maxNum (max - min) + 1)).filter fun word =>
        word ≡ ret.toNat - min.toNat [MOD (max - min).toNat] : Finset Nat) := by
  have hlt : ret.toNat - min.toNat < (max - min).toNat := by
    rw [toNat_range h]
    rw [UInt32.le_iff_toNat_le] at hmin
    rw [UInt32.lt_iff_toNat_lt] at hmax
    omega
  have hmod : ∀ word : Nat, word % (max - min).toNat + min.toNat = ret.toNat ↔
      word ≡ ret.toNat - min.toNat [MOD (max - min).toNat] := by
    intro word
    rw [UInt32.le_iff_toNat_le] at hmin
    rw [Nat.ModEq, Nat.mod_eq_of_lt hlt]
    omega
  ext word
  simp only [Set.mem_image, mem_returning_iff h, hmod, Finset.coe_filter, Finset.mem_range,
    Nat.lt_succ_iff, Set.mem_ofPred_eq]
  constructor
  · rintro ⟨word, hword, rfl⟩
    exact hword
  · intro hword
    have htoNat : (UInt32.ofNat word).toNat = word :=
      UInt32.toNat_ofNat_of_lt' (Nat.lt_of_le_of_lt hword.1 (maxNum_lt _))
    exact ⟨UInt32.ofNat word, by rwa [htoNat], htoNat⟩

/-- The words up to a multiple of `r` that are `v` modulo `r`: zero has one more than the others. -/
theorem count_modEq_mul_succ {r v : Nat} (hv : v < r) (q : Nat) :
    Nat.count (· ≡ v [MOD r]) (r * q + 1) = q + if v = 0 then 1 else 0 := by
  have hr : 0 < r := Nat.zero_lt_of_lt hv
  rw [Nat.count_succ, Nat.count_modEq_card _ hr, Nat.mul_div_cancel_left q hr, Nat.mul_mod_right,
    if_neg (Nat.not_lt_zero _), Nat.add_zero]
  congr 1
  refine if_congr ?_ rfl rfl
  rw [Nat.ModEq, Nat.mul_mod_right, Nat.mod_eq_of_lt hv, eq_comm]

/-- **How many words give a number** below the upper bound. -/
theorem ncard_returning (h : min < max) {ret : UInt32} (hmin : min ≤ ret) (hmax : ret < max) :
    (returning min max ret).ncard =
      uintMax / (max - min).toNat + if ret = min then 1 else 0 := by
  have hle := UInt32.le_iff_toNat_le.mp hmin
  have hlt := UInt32.lt_iff_toNat_lt.mp hmax
  have hrange := toNat_range h
  have hinj : Function.Injective UInt32.toNat := fun _ _ => UInt32.toNat_inj.mp
  rw [← Set.ncard_image_of_injective _ hinj, image_returning h hmin hmax,
    Set.ncard_coe_finset, ← Nat.count_eq_card_filter_range, maxNum_eq,
    count_modEq_mul_succ (by omega)]
  congr 1
  refine if_congr ?_ rfl rfl
  rw [← UInt32.toNat_inj]
  omega

/-- No word gives the upper bound. -/
theorem returning_max (h : min < max) : returning min max max = ∅ := by
  rw [Set.eq_empty_iff_forall_notMem]
  intro word hword
  exact UInt32.lt_irrefl max (randInt_between h hword).2

theorem not_uniform (h : min < max) : ¬ Uniform min max := by
  rintro ⟨⟨n, hpos, hequal⟩, -⟩
  have hmax := hequal max (UInt32.le_of_lt h) (UInt32.le_refl max)
  rw [returning_max h, Set.ncard_empty] at hmax
  exact absurd hmax (ne_of_lt hpos)

end Bounds

end Fluffycoin.Ossl.Prng
