import Fluffycoin.Block.Objects
import Fluffycoin.Utils.Decimal

/-!
# Printed amounts

Model of `to_string(const block::Specie &)` (`src/block/Specie.cpp:73-90`). `snprintf` writes at
most 63 characters to the buffer of 64 and returns the length of the whole text; the loop then moves
the end back over zeros.

The fraction always has eight digits, so the loop stops at the point at the latest and never gets to
the integer part. `toString_eq` is the text as a numeral, `value_numeral` its value, and two amounts
print alike only if they are the same (`toString_inj`).
-/

namespace Fluffycoin.Specie

/-- The size of `szRet`. -/
def bufferSize : Nat := 64

/-- The format `%llu.%08u` of the coins and the fluffs. -/
def format (specie : Specie) : List Char :=
  Nat.toDigits 10 specie.coins.toNat ++ '.' :: Decimal.padded 8 specie.fluffs.toNat

/-- The loop that removes zeros: the position of the end after it. -/
def removeZeros (szRet : List Char) : Nat → Nat
  | 0 => 0
  | pos + 1 =>
    if pos + 1 > 1 ∧ szRet[pos]? = some '0' then removeZeros szRet pos else pos + 1

/-- `to_string(const block::Specie &)`. -/
def toString (specie : Specie) : List Char :=
  let szRet := specie.format.take (bufferSize - 1)
  let pos := removeZeros szRet specie.format.length
  let pos := if szRet[pos - 1]? = some '.' then pos - 1 else pos
  szRet.take pos

/-! ## The buffer -/

theorem length_toDigits_coins (specie : Specie) :
    (Nat.toDigits 10 specie.coins.toNat).length ≤ 20 :=
  (Nat.length_toDigits_le_iff (by decide) (by decide)).mpr
    (Nat.lt_of_lt_of_le specie.coins.toNat_lt (by decide))

theorem length_padded_fluffs (specie : Specie) :
    (Decimal.padded 8 specie.fluffs.toNat).length ≤ 10 := by
  rw [Decimal.length_padded]
  refine max_le (by decide) ?_
  exact (Nat.length_toDigits_le_iff (by decide) (by decide)).mpr
    (Nat.lt_of_lt_of_le specie.fluffs.toNat_lt (by decide))

/-- The text and its end fit into the buffer, whatever the fluffs are. -/
theorem length_format (specie : Specie) : specie.format.length < bufferSize := by
  have hcoins := length_toDigits_coins specie
  have hfluffs := length_padded_fluffs specie
  unfold format bufferSize
  rw [List.length_append, List.length_cons]
  omega

theorem take_format (specie : Specie) : specie.format.take (bufferSize - 1) = specie.format :=
  List.take_of_length_le (Nat.le_sub_one_of_lt specie.length_format)

/-! ## The loop -/

/-- The loop removes the zeros at the end of a fraction, and stops at the point before it. -/
theorem removeZeros_append (int frac more : List Char) :
    removeZeros (int ++ '.' :: frac ++ more) (int ++ '.' :: frac).length =
      (int ++ '.' :: frac.rdropWhile (· == '0')).length := by
  induction frac using List.reverseRecOn generalizing more with
  | nil =>
    have hpoint : ((int ++ ['.']) ++ more)[int.length]? = some '.' := by simp
    have hlen : (int ++ ['.']).length = int.length + 1 := by simp
    rw [hlen, removeZeros, hpoint]
    simp
  | append_singleton frac c ih =>
    have hlast : (int ++ '.' :: (frac ++ [c]) ++ more)[(int ++ '.' :: frac).length]? = some c := by
      simp
    have hlen : (int ++ '.' :: (frac ++ [c])).length = (int ++ '.' :: frac).length + 1 := by
      simp [Nat.add_assoc]
    have hpos : (int ++ '.' :: frac).length + 1 > 1 := by simp
    rw [hlen, removeZeros, hlast, List.rdropWhile_concat]
    by_cases hc : c = '0'
    · have hmore := ih ([c] ++ more)
      simp only [hc, hpos, beq_self_eq_true, and_self, if_true] at hmore ⊢
      rw [← hmore]
      simp
    · simp [hc, Nat.add_assoc]

/-- A point is removed exactly if no digit is left after it. -/
theorem take_removePoint {int frac : List Char} (hdigits : ∀ c ∈ frac, c.isDigit = true)
    (more : List Char) :
    (int ++ '.' :: frac ++ more).take
        (if (int ++ '.' :: frac ++ more)[(int ++ '.' :: frac).length - 1]? = some '.' then
          (int ++ '.' :: frac).length - 1
        else (int ++ '.' :: frac).length) =
      if frac = [] then int else int ++ '.' :: frac := by
  rcases List.eq_nil_or_concat frac with rfl | ⟨frac, c, rfl⟩
  · simp
  · have hlast : (int ++ '.' :: (frac ++ [c]) ++ more)[(int ++ '.' :: (frac ++ [c])).length - 1]? =
        some c := by
      simp
    have hc : c ≠ '.' := by
      rintro rfl
      exact absurd (hdigits '.' (by simp)) (by decide)
    rw [List.concat_eq_append, hlast, if_neg (by simpa using hc), if_neg (by simp),
      List.take_left']
    rfl

/-! ## The text -/

/-- The numeral that is printed. -/
def numeral (specie : Specie) : Decimal.Numeral where
  int := Nat.toDigits 10 specie.coins.toNat
  frac := (Decimal.padded 8 specie.fluffs.toNat).rdropWhile (· == '0')
  int_ne := Nat.toDigits_ne_nil
  digits := by
    intro c hc
    rcases List.mem_append.mp hc with hint | hfrac
    · exact Nat.isDigit_of_mem_toDigits (by decide) (by decide) hint
    · exact Decimal.isDigit_of_mem_padded ((List.rdropWhile_prefix _ _).subset hfrac)

/-- **The text is that of the numeral**: the integer part as it is, the fraction without the zeros
at its end, and a point only before a digit. -/
theorem toString_eq (specie : Specie) : specie.toString = specie.numeral.text := by
  obtain ⟨zeros, hzeros⟩ := List.rdropWhile_prefix (· == '0')
    (Decimal.padded 8 specie.fluffs.toNat)
  have hformat : specie.format = specie.numeral.int ++ '.' :: specie.numeral.frac ++ zeros := by
    unfold format numeral
    rw [List.append_assoc, List.cons_append, hzeros]
  have hpos : removeZeros specie.format specie.format.length =
      (specie.numeral.int ++ '.' :: specie.numeral.frac).length := by
    have happend := removeZeros_append specie.numeral.int
      (Decimal.padded 8 specie.fluffs.toNat) []
    rwa [List.append_nil] at happend
  unfold toString
  rw [take_format]
  simp only [hpos]
  rw [hformat]
  exact take_removePoint (fun c hc => specie.numeral.digits c (List.mem_append_right _ hc)) zeros

/-- **The value of the text**, if the fluffs are less than a coin. -/
theorem value_numeral {specie : Specie} (h : specie.fluffs < 100000000) :
    specie.numeral.value = specie.coins.toNat + specie.fluffs.toNat / 100000000 := by
  have hlt : specie.fluffs.toNat < 10 ^ 8 := UInt32.lt_iff_toNat_lt.mp h
  have hlen := (Decimal.length_padded_eq_iff (by decide)).mpr hlt
  unfold Decimal.Numeral.value numeral
  rw [Decimal.fraction_rdropWhile, Nat.ofDigitChars_ten_toDigits, Decimal.fraction,
    Decimal.ofDigitChars_padded, hlen]
  norm_num

theorem getLast_frac_ne (specie : Specie) : specie.numeral.frac.getLast? ≠ some '0' := by
  intro hlast
  have hne : specie.numeral.frac ≠ [] := by
    intro hnil
    rw [hnil] at hlast
    cases hlast
  rw [List.getLast?_eq_some_getLast hne] at hlast
  refine List.rdropWhile_last_not (· == '0') (Decimal.padded 8 specie.fluffs.toNat) hne ?_
  exact beq_iff_eq.mpr (Option.some.inj hlast)

/-- Two amounts print alike only if they are the same. -/
theorem toString_inj {specie specie' : Specie} (h : specie.fluffs < 100000000)
    (h' : specie'.fluffs < 100000000) (heq : specie.toString = specie'.toString) :
    specie = specie' := by
  rw [toString_eq, toString_eq] at heq
  have hvalue := congrArg Decimal.Numeral.value (Decimal.Numeral.text_inj heq)
  rw [value_numeral h, value_numeral h'] at hvalue
  have hlt := UInt32.lt_iff_toNat_lt.mp h
  have hlt' := UInt32.lt_iff_toNat_lt.mp h'
  have hscaled : specie.coins.toNat * 100000000 + specie.fluffs.toNat =
      specie'.coins.toNat * 100000000 + specie'.fluffs.toNat := by
    have hmul : (specie.coins.toNat * 100000000 + specie.fluffs.toNat : ℚ) =
        specie'.coins.toNat * 100000000 + specie'.fluffs.toNat := by linarith
    exact_mod_cast hmul
  have hhundred : (100000000 : UInt32).toNat = 100000000 := rfl
  rw [hhundred] at hlt hlt'
  cases specie
  cases specie'
  rw [Specie.mk.injEq, ← UInt64.toNat_inj, ← UInt32.toNat_inj]
  simp only at hscaled hlt hlt'
  omega

/-- **Printed amounts are exact and canonical**: the buffer suffices, the text is a numeral of the
amount's value, with all digits of the coins and no zero at the end of the fraction, and no other
amount has it. -/
theorem toString_exact (specie : Specie) (h : specie.fluffs < 100000000) :
    specie.format.length < bufferSize ∧
    (∃ n : Decimal.Numeral, specie.toString = n.text ∧
      n.value = specie.coins.toNat + specie.fluffs.toNat / 100000000 ∧
      n.int = Nat.toDigits 10 specie.coins.toNat ∧ n.frac.getLast? ≠ some '0') ∧
    ∀ specie' : Specie, specie'.fluffs < 100000000 → specie.toString = specie'.toString →
      specie = specie' := by
  refine ⟨specie.length_format, ⟨specie.numeral, toString_eq specie, value_numeral h, rfl,
    getLast_frac_ne specie⟩, ?_⟩
  intro specie' h' heq
  exact toString_inj h h' heq

theorem toString_exact_ten :
    toString ⟨10, 10000000⟩ = ['1', '0', '.', '1'] ∧
      ∃ n : Decimal.Numeral, toString ⟨10, 10000000⟩ = n.text ∧
        n.value = (10 : UInt64).toNat + (10000000 : UInt32).toNat / 100000000 ∧
        n.int = Nat.toDigits 10 (10 : UInt64).toNat ∧ n.frac.getLast? ≠ some '0' :=
  ⟨by decide, (toString_exact ⟨10, 10000000⟩ (by decide)).2.1⟩

end Fluffycoin.Specie
