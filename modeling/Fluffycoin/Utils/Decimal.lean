import Mathlib.Data.List.DropRight
import Mathlib.Data.List.Induction
import Mathlib.Data.Rat.Cast.Order
import Mathlib.Tactic.Ring

/-!
# Decimal texts of a minimum width

`padded w n` is the decimal text of `n` with zeros in front up to width `w`. It has width `w`
exactly when `n` has at most `w` digits (`length_padded_eq_iff`). The digit texts of width `w` are
the padded numbers below `10 ^ w`, one each: `ofDigitChars_padded` and `padded_ofDigitChars`.

A `Numeral` is a decimal numeral with an optional fraction; its text has a point only before a
digit, and determines it (`Numeral.text_inj`). Zeros at the end of a fraction do not count
(`fraction_rdropWhile`).
-/

namespace Decimal

variable {w n : Nat} {c : Char} {l l' : List Char}

/-- The decimal text of a number, zeros in front up to a width. -/
def padded (w n : Nat) : List Char := (Nat.toDigits 10 n).leftpad w '0'

theorem padded_eq (w n : Nat) :
    padded w n =
      List.replicate (w - (Nat.toDigits 10 n).length) '0' ++ Nat.toDigits 10 n := rfl

theorem length_padded (w n : Nat) :
    (padded w n).length = max w (Nat.toDigits 10 n).length := by
  rw [padded_eq, List.length_append, List.length_replicate]
  omega

theorem length_padded_eq_iff (hw : 0 < w) : (padded w n).length = w ↔ n < 10 ^ w := by
  rw [length_padded, max_eq_left_iff, Nat.length_toDigits_le_iff (by decide) hw]

theorem le_length_padded (w n : Nat) : w ≤ (padded w n).length := by
  rw [length_padded]
  exact Nat.le_max_left _ _

theorem isDigit_of_mem_padded (h : c ∈ padded w n) : c.isDigit = true := by
  rw [padded_eq] at h
  rcases List.mem_append.mp h with hzero | hdigit
  · rw [List.eq_of_mem_replicate hzero]
    rfl
  · exact Nat.isDigit_of_mem_toDigits (by decide) (by decide) hdigit

/-- The text has the value of the number. -/
theorem ofDigitChars_padded (w n : Nat) : Nat.ofDigitChars 10 (padded w n) 0 = n := by
  rw [padded_eq, Nat.ofDigitChars_append, Nat.ofDigitChars_replicate_zero, Nat.mul_zero,
    Nat.ofDigitChars_ten_toDigits]

/-! ## Values of digit texts -/

/-- The first digit counts for a power of ten. -/
theorem ofDigitChars_cons_zero (c : Char) (l : List Char) :
    Nat.ofDigitChars 10 (c :: l) 0 =
      (c.toNat - '0'.toNat) * 10 ^ l.length + Nat.ofDigitChars 10 l 0 := by
  rw [Nat.ofDigitChars_cons, Nat.ofDigitChars_eq_ofDigitChars_zero]
  ring

theorem digit_lt (h : c.isDigit = true) : c.toNat - '0'.toNat < 10 := by
  obtain ⟨_, hle⟩ := Char.isDigit_iff_toNat.mp h
  have hnine : '9'.toNat = 57 := rfl
  have hzero : '0'.toNat = 48 := rfl
  omega

theorem ofDigitChars_lt (h : ∀ c ∈ l, c.isDigit = true) :
    Nat.ofDigitChars 10 l 0 < 10 ^ l.length := by
  induction l with
  | nil => exact Nat.zero_lt_one
  | cons c l ih =>
    obtain ⟨hc, hl⟩ := List.forall_mem_cons.mp h
    have hdigit := digit_lt hc
    calc Nat.ofDigitChars 10 (c :: l) 0
        = (c.toNat - '0'.toNat) * 10 ^ l.length + Nat.ofDigitChars 10 l 0 :=
          ofDigitChars_cons_zero c l
      _ < (c.toNat - '0'.toNat) * 10 ^ l.length + 10 ^ l.length :=
          Nat.add_lt_add_left (ih hl) _
      _ = (c.toNat - '0'.toNat + 1) * 10 ^ l.length := by ring
      _ ≤ 10 * 10 ^ l.length := Nat.mul_le_mul_right _ hdigit
      _ = 10 ^ (c :: l).length := by rw [List.length_cons, Nat.pow_succ, Nat.mul_comm]

/-- A value and a width determine the text. -/
theorem ofDigitChars_inj (hl : ∀ c ∈ l, c.isDigit = true) (hl' : ∀ c ∈ l', c.isDigit = true)
    (hlen : l.length = l'.length)
    (h : Nat.ofDigitChars 10 l 0 = Nat.ofDigitChars 10 l' 0) : l = l' := by
  induction l generalizing l' with
  | nil => exact (List.length_eq_zero_iff.mp hlen.symm).symm
  | cons c l ih =>
    cases l' with
    | nil => cases hlen
    | cons c' l' =>
      obtain ⟨hc, hrest⟩ := List.forall_mem_cons.mp hl
      obtain ⟨hc', hrest'⟩ := List.forall_mem_cons.mp hl'
      have hlen' : l.length = l'.length := Nat.succ.inj hlen
      have hlt := ofDigitChars_lt hrest
      have hlt' := ofDigitChars_lt hrest'
      rw [ofDigitChars_cons_zero, ofDigitChars_cons_zero, hlen'] at h
      rw [hlen'] at hlt
      have hpos : 0 < 10 ^ l'.length := Nat.pow_pos (by decide)
      -- both sides are divided by the weight of the first digit
      have hdiv : c.toNat - '0'.toNat = c'.toNat - '0'.toNat := by
        have hquot := congrArg (· / 10 ^ l'.length) h
        rwa [Nat.add_comm, Nat.add_mul_div_right _ _ hpos, Nat.div_eq_of_lt hlt, Nat.zero_add,
          Nat.add_comm, Nat.add_mul_div_right _ _ hpos, Nat.div_eq_of_lt hlt', Nat.zero_add]
          at hquot
      have hvalue : Nat.ofDigitChars 10 l 0 = Nat.ofDigitChars 10 l' 0 := by
        rw [hdiv] at h
        exact Nat.add_left_cancel h
      have hchar : c = c' := by
        have hle := (Char.isDigit_iff_toNat.mp hc).1
        have hle' := (Char.isDigit_iff_toNat.mp hc').1
        exact Char.toNat_inj.mp (by omega)
      rw [hchar, ih hrest hrest' hlen' hvalue]

/-- **A digit text is the padded text of its value.** -/
theorem padded_ofDigitChars (h : ∀ c ∈ l, c.isDigit = true) (hne : l ≠ []) :
    padded l.length (Nat.ofDigitChars 10 l 0) = l := by
  refine ofDigitChars_inj (fun c hc => isDigit_of_mem_padded hc) h ?_ (ofDigitChars_padded _ _)
  exact (length_padded_eq_iff (List.length_pos_iff.mpr hne)).mpr (ofDigitChars_lt h)

/-! ## Numerals -/

/-- The value of the digits after a point. -/
def fraction (frac : List Char) : ℚ := Nat.ofDigitChars 10 frac 0 / 10 ^ frac.length

theorem fraction_append_replicate (frac : List Char) (k : Nat) :
    fraction (frac ++ List.replicate k '0') = fraction frac := by
  have hten : (10 : ℚ) ^ k ≠ 0 := pow_ne_zero _ (by norm_num)
  unfold fraction
  rw [Nat.ofDigitChars_append, Nat.ofDigitChars_replicate_zero, List.length_append,
    List.length_replicate, Nat.cast_mul, Nat.cast_pow, Nat.cast_ofNat, pow_add, mul_comm,
    mul_div_mul_right _ _ hten]

/-- **Zeros at the end of a fraction do not count.** -/
theorem fraction_rdropWhile (frac : List Char) :
    fraction (frac.rdropWhile (· == '0')) = fraction frac := by
  have hzeros : frac.rtakeWhile (· == '0') =
      List.replicate (frac.rtakeWhile (· == '0')).length '0' := by
    refine List.eq_replicate_of_mem fun c hc => ?_
    simpa using List.mem_rtakeWhile_imp hc
  calc fraction (frac.rdropWhile (· == '0'))
      = fraction (frac.rdropWhile (· == '0') ++ frac.rtakeWhile (· == '0')) := by
        rw [hzeros, fraction_append_replicate]
    _ = fraction frac := by rw [List.rdropWhile_append_rtakeWhile]

/-- A decimal numeral: digits, and the digits of a fraction or none. -/
structure Numeral where
  int : List Char
  frac : List Char
  int_ne : int ≠ []
  digits : ∀ c ∈ int ++ frac, c.isDigit = true

namespace Numeral

/-- The text of a numeral, with a point only before a fraction. -/
def text (n : Numeral) : List Char :=
  if n.frac = [] then n.int else n.int ++ '.' :: n.frac

def value (n : Numeral) : ℚ := Nat.ofDigitChars 10 n.int 0 + fraction n.frac

theorem ne_point (n : Numeral) : ∀ c ∈ n.int, (c != '.') = true := by
  intro c hc
  have hdigit := n.digits c (List.mem_append_left _ hc)
  refine bne_iff_ne.mpr fun hpoint => ?_
  rw [hpoint] at hdigit
  exact absurd hdigit (by decide)

/-- The integer part of a text is what stands before the point. -/
theorem takeWhile_text (n : Numeral) : n.text.takeWhile (· != '.') = n.int := by
  unfold text
  split_ifs
  · exact List.takeWhile_eq_self_iff.mpr n.ne_point
  · rw [List.takeWhile_append_of_pos n.ne_point, List.takeWhile_cons_of_neg (by decide),
      List.append_nil]

/-- The fraction of a text is what stands after the point. -/
theorem tail_dropWhile_text (n : Numeral) : (n.text.dropWhile (· != '.')).tail = n.frac := by
  unfold text
  split_ifs with hfrac
  · rw [List.dropWhile_eq_nil_iff.mpr n.ne_point, List.tail_nil, hfrac]
  · rw [List.dropWhile_append_of_pos n.ne_point, List.dropWhile_cons_of_neg (by decide),
      List.tail_cons]

/-- The text determines the numeral. -/
theorem text_inj {n m : Numeral} (h : n.text = m.text) : n = m := by
  have hint : n.int = m.int := by rw [← takeWhile_text, h, takeWhile_text]
  have hfrac : n.frac = m.frac := by rw [← tail_dropWhile_text, h, tail_dropWhile_text]
  cases n
  cases m
  cases hint
  cases hfrac
  rfl

end Numeral

end Decimal
