import Mathlib.Data.Nat.Digits.Lemmas

/-!
# Byte order

Unsigned integers of a fixed number of bytes in memory, lowest byte first: `bytes k n` are the `k`
bytes of `n`, `value` reads bytes back. `swap k` exchanges the byte orders, so that it reads bytes
as a number written highest byte first (`swap_value`); `bytes` in the other order are `wire`.

Code that swaps a word of eight bytes by masks and shifts moves each byte on its own
(`toNat_byte_shiftRight`, `toNat_byte_shiftLeft`) and joins them with `|`, which is what `value`
does too (`value_cons_or`).
-/

namespace ByteOrder

/-- The number in memory, lowest byte first. -/
def value : List UInt8 → Nat
  | [] => 0
  | b :: l => b.toNat + 256 * value l

/-- The lowest `k` bytes of a number, lowest first. -/
def bytes : Nat → Nat → List UInt8
  | 0, _ => []
  | k + 1, n => UInt8.ofNat n :: bytes k (n / 256)

/-- The lowest `k` bytes of a number, highest first. -/
def wire (k n : Nat) : List UInt8 := (bytes k n).reverse

/-- A number of `k` bytes with its bytes in the other order. -/
def swap (k n : Nat) : Nat := value (wire k n)

theorem length_bytes (k n : Nat) : (bytes k n).length = k := by
  induction k generalizing n with
  | zero => rfl
  | succ k ih => rw [bytes, List.length_cons, ih]

@[simp]
theorem length_wire (k n : Nat) : (wire k n).length = k := by
  rw [wire, List.length_reverse, length_bytes]

theorem value_bytes (k n : Nat) : value (bytes k n) = n % 256 ^ k := by
  induction k generalizing n with
  | zero => rw [bytes, value, Nat.pow_zero, Nat.mod_one]
  | succ k ih =>
    have hbyte : (UInt8.ofNat n).toNat = n % 256 := UInt8.toNat_ofNat'
    rw [bytes, value, ih, hbyte, Nat.pow_succ', Nat.mod_mul]

theorem value_lt (l : List UInt8) : value l < 256 ^ l.length := by
  induction l with
  | nil => exact Nat.one_pos
  | cons b l ih =>
    have hlt := b.toNat_lt
    rw [value, List.length_cons, Nat.pow_succ]
    omega

theorem bytes_value (l : List UInt8) : bytes l.length (value l) = l := by
  induction l with
  | nil => rfl
  | cons b l ih =>
    have hlt := b.toNat_lt
    have hdiv : (b.toNat + 256 * value l) / 256 = value l := by omega
    have hlow : UInt8.ofNat (b.toNat + 256 * value l) = b := by
      rw [← UInt8.toNat_inj, UInt8.toNat_ofNat']
      omega
    rw [List.length_cons, value, bytes, hdiv, ih, hlow]

/-- Swapping the bytes of a number in memory reads them highest first. -/
theorem swap_value (l : List UInt8) : swap l.length (value l) = value l.reverse := by
  rw [swap, wire, bytes_value]

/-- A number written highest byte first, read from memory and swapped. -/
theorem swap_value_wire (k n : Nat) : swap k (value (wire k n)) = n % 256 ^ k := by
  have h := swap_value (wire k n)
  rw [length_wire] at h
  rw [h, wire, List.reverse_reverse, value_bytes]

/-! ## Words -/

theorem value_cons_or (b : UInt8) (l : List UInt8) :
    value (b :: l) = b.toNat ||| value l <<< 8 := by
  rw [value, Nat.or_comm, ← Nat.shiftLeft_add_eq_or_of_lt b.toNat_lt, Nat.shiftLeft_eq]
  omega

theorem and_byte (n j : Nat) : n &&& (255 <<< j) = (n >>> j % 256) <<< j := by
  apply Nat.eq_of_testBit_eq
  intro i
  have h255 : (255 : Nat) = 2 ^ 8 - 1 := rfl
  have h256 : (256 : Nat) = 2 ^ 8 := rfl
  rw [Nat.testBit_and, Nat.testBit_shiftLeft, Nat.testBit_shiftLeft, h256, Nat.testBit_mod_two_pow,
    Nat.testBit_shiftRight, h255, Nat.testBit_two_pow_sub_one]
  by_cases hij : j ≤ i
  · simp [hij, Bool.and_comm]
  · simp [hij]

/-- The byte of a word at bit `j`. -/
def byteAt (v : UInt64) (j : Nat) : UInt8 := UInt8.ofNat (v.toNat >>> j)

theorem toNat_byteAt (v : UInt64) (j : Nat) : (byteAt v j).toNat = v.toNat >>> j % 256 :=
  UInt8.toNat_ofNat'

/-- A byte of a word, moved down to bit `i`. -/
theorem toNat_byte_shiftRight (v : UInt64) {m s : UInt64} {j i : Nat} (hm : m.toNat = 255 <<< j)
    (hs : s.toNat < 64) (hi : s.toNat + i = j) :
    ((v &&& m) >>> s).toNat = (byteAt v j).toNat <<< i := by
  rw [UInt64.toNat_shiftRight, UInt64.toNat_and, Nat.mod_eq_of_lt hs, hm, and_byte,
    toNat_byteAt, ← hi, Nat.add_comm, Nat.shiftLeft_add, Nat.shiftLeft_shiftRight]

/-- A byte of a word, moved up to bit `i`. -/
theorem toNat_byte_shiftLeft (v : UInt64) {m s : UInt64} {j i : Nat} (hm : m.toNat = 255 <<< j)
    (hi : j + s.toNat = i) (hlt : i + 8 ≤ 64) :
    ((v &&& m) <<< s).toNat = (byteAt v j).toNat <<< i := by
  have hs : s.toNat % 64 = s.toNat := Nat.mod_eq_of_lt (by omega)
  have hfits : (byteAt v j).toNat <<< i < 2 ^ 64 := by
    calc (byteAt v j).toNat <<< i = (byteAt v j).toNat * 2 ^ i := Nat.shiftLeft_eq _ _
      _ < 2 ^ 8 * 2 ^ i := Nat.mul_lt_mul_of_pos_right (UInt8.toNat_lt _) (Nat.two_pow_pos i)
      _ = 2 ^ (8 + i) := (Nat.pow_add 2 8 i).symm
      _ ≤ 2 ^ 64 := Nat.pow_le_pow_right (by decide) (by omega)
  rw [UInt64.toNat_shiftLeft, UInt64.toNat_and, hs, hm, and_byte, ← toNat_byteAt,
    ← Nat.shiftLeft_add, hi, Nat.mod_eq_of_lt hfits]

theorem wire_eight (v : UInt64) :
    wire 8 v.toNat = [byteAt v 56, byteAt v 48, byteAt v 40, byteAt v 32, byteAt v 24, byteAt v 16,
      byteAt v 8, byteAt v 0] := by
  simp [wire, bytes, byteAt, Nat.shiftRight_eq_div_pow, Nat.div_div_eq_div_mul]

end ByteOrder
