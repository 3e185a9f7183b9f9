import Mathlib.Data.Nat.Size
import Mathlib.Tactic.Linarith

/-!
# ASN.1 primitives and the conversions of `ossl/convert.cpp`

The C++ objects of `src/block` and the OpenSSL structures they are written to meet in the small
conversion functions of `src/ossl/convert.cpp`. This module has both ends:

* `Bytes` is `BinData` and `std::string` (`BinData.cpp`): a byte list.
* `Asn1.Str` is `ASN1_STRING` (`ASN1_OCTET_STRING`, `ASN1_UTF8STRING`). Its `length` is an `int`,
  and there is room for a zero behind the data, so it is at most `INT_MAX - 1`, which the field
  `length_lt` records. `ASN1_INTEGER` is an `Int` of any size, `0` when freshly allocated.
* `castInt` is `static_cast<int>(size_t)`: the two's complement value of the low 32 bits.
* `asn1StringSet` is the documented `ASN1_STRING_set` on a fresh string: a copy of the first `len`
  bytes, and for a negative `len` the bytes up to the first zero (`strlen`); more than
  `INT_MAX - 1` bytes are refused. On a string that holds something (`asn1StringReset`) what is
  refused changes nothing. `asn1IntegerGet` is `ASN1_INTEGER_get`: the value when it fits a
  signed 64-bit `long`, `-1` otherwise.

Results: below `2^31 - 1` bytes a byte string survives `fromBin` and `toBin` (`toBin_fromBin`), and
`2^31 - 1` bytes are refused (`accepted_iff_of_lt`); `toUInt32 ∘ fromUInt32` is the identity,
`toUInt64 ∘ fromUInt64` is the identity below `2^63`.
What `toUInt64` returns is in every case a fixed point of the round trip
(`toUInt64_fromUInt64_toUInt64`).
-/

namespace Fluffycoin

/-- `BinData`, and `std::string` where it holds data. -/
abbrev Bytes := List UInt8

namespace Asn1

/-- `ASN1_STRING`: bytes whose number is an `int`, also with a zero behind them. -/
@[ext]
structure Str where
  data : Bytes
  length_lt : data.length < 2 ^ 31 - 1
  deriving DecidableEq, Repr

/-- `ASN1_OCTET_STRING_new`: empty. -/
instance : Inhabited Str := ⟨⟨[], by decide⟩⟩

end Asn1

namespace Ossl

/-- `static_cast<int>` of a `size_t`. -/
def castInt (n : Nat) : Int := Int.bmod n (2 ^ 32)

/-- The bytes that `ASN1_STRING_set` is asked to copy. -/
def copied (data : Bytes) (len : Int) : Bytes :=
  if len < 0 then data.takeWhile (· ≠ 0) else data.take len.toNat

/-- `ASN1_STRING_set` on a string that holds something: what is refused leaves it as it was. -/
def asn1StringReset (old : Asn1.Str) (data : Bytes) (len : Int) : Asn1.Str :=
  if h : (copied data len).length < 2 ^ 31 - 1 then ⟨copied data len, h⟩ else old

/-- `ASN1_STRING_set(str, data, len)` on a fresh string. -/
def asn1StringSet (data : Bytes) (len : Int) : Asn1.Str := asn1StringReset default data len

/-- `ossl::fromBin`, `ossl::fromString`. -/
def fromBin (data : Bytes) : Asn1.Str := asn1StringSet data (castInt data.length)

/-- `ossl::fromBin` into a string that holds something. -/
def fromBinInto (old : Asn1.Str) (data : Bytes) : Asn1.Str :=
  asn1StringReset old data (castInt data.length)

/-- `ossl::toBin`, `ossl::toString`. -/
def toBin (t : Asn1.Str) : Bytes := t.data

/-- `ASN1_INTEGER_get`. -/
def asn1IntegerGet (t : Int) : Int := if -2 ^ 63 ≤ t ∧ t < 2 ^ 63 then t else -1

/-- `BN_num_bits`. -/
def bnNumBits (t : Int) : Nat := t.natAbs.size

/-- `ossl::toUInt32` (`convert.cpp:31-48`): out of range is logged and read as zero. -/
def toUInt32 (t : Int) : UInt32 :=
  if t < 0 ∨ bnNumBits t > 32 then 0 else UInt32.ofInt (asn1IntegerGet t)

/-- `ossl::fromUInt32`. -/
def fromUInt32 (ui : UInt32) : Int := ui.toNat

/-- `ossl::toUInt64` (`convert.cpp:55-72`). -/
def toUInt64 (t : Int) : UInt64 :=
  if t < 0 ∨ bnNumBits t > 64 then 0 else UInt64.ofInt (asn1IntegerGet t)

/-- `ossl::fromUInt64`. -/
def fromUInt64 (ui : UInt64) : Int := ui.toNat

/-! ## Byte strings -/

theorem castInt_of_lt {n : Nat} (h : n < 2 ^ 31) : castInt n = n := by
  unfold castInt
  apply Int.bmod_eq_of_le <;> omega

/-- `ASN1_STRING_set` does not refuse the data. -/
def Accepted (data : Bytes) : Prop := (copied data (castInt data.length)).length < 2 ^ 31 - 1

/-- Below `2^31` bytes all of them are to be copied. -/
theorem copied_castInt {data : Bytes} (h : data.length < 2 ^ 31) :
    copied data (castInt data.length) = data := by
  rw [castInt_of_lt h, copied, if_neg (by omega), Int.toNat_natCast, List.take_length]

theorem accepted_iff_of_lt {data : Bytes} (h : data.length < 2 ^ 31) :
    Accepted data ↔ data.length < 2 ^ 31 - 1 := by
  rw [Accepted, copied_castInt h]

-- The equations below are rewritten with, never unfolded: reducing the length test of
-- `asn1StringReset` would count down from `2^31`.
theorem toBin_eq (t : Asn1.Str) : toBin t = t.data := rfl

theorem fromBin_eq (data : Bytes) : fromBin data = fromBinInto default data := rfl

/-- What is accepted replaces what the string held. -/
theorem Accepted.toBin_fromBinInto {data : Bytes} (h : Accepted data) (old : Asn1.Str) :
    toBin (fromBinInto old data) = copied data (castInt data.length) := by
  unfold Accepted at h
  rw [toBin_eq, Ossl.fromBinInto, asn1StringReset, dif_pos h]

theorem Accepted.fromBinInto {data : Bytes} (h : Accepted data) (old : Asn1.Str) :
    fromBinInto old data = fromBin data := by
  apply Asn1.Str.ext
  rw [← toBin_eq, ← toBin_eq, fromBin_eq, h.toBin_fromBinInto, h.toBin_fromBinInto]

/-- What is refused leaves the string as it was. -/
theorem fromBinInto_of_not_accepted {data : Bytes} (h : ¬ Accepted data) (old : Asn1.Str) :
    fromBinInto old data = old := by
  unfold Accepted at h
  rw [fromBinInto, asn1StringReset, dif_neg h]

/-- Data that replaces two different strings by one is accepted. -/
theorem accepted_of_fromBinInto_eq {data : Bytes} {old old' : Asn1.Str} (hne : old ≠ old')
    (h : fromBinInto old data = fromBinInto old' data) : Accepted data := by
  by_contra hrefused
  rw [fromBinInto_of_not_accepted hrefused, fromBinInto_of_not_accepted hrefused] at h
  exact hne h

/-- **A byte string below `2^31 - 1` bytes survives the conversion.** -/
theorem toBin_fromBin {data : Bytes} (h : data.length < 2 ^ 31 - 1) :
    toBin (fromBin data) = data := by
  have hlt : data.length < 2 ^ 31 := by omega
  rw [fromBin_eq, ((accepted_iff_of_lt hlt).mpr h).toBin_fromBinInto, copied_castInt hlt]

/-- An ASN.1 string survives the way to the object and back. -/
theorem fromBin_toBin (t : Asn1.Str) : fromBin (toBin t) = t := by
  apply Asn1.Str.ext
  rw [← toBin_eq (fromBin (toBin t)), toBin_fromBin (by rw [toBin_eq]; exact t.length_lt), toBin_eq]

/-! ## Integers -/

theorem bnNumBits_le_iff {t : Int} (h : 0 ≤ t) (n : Nat) : bnNumBits t ≤ n ↔ t < 2 ^ n := by
  unfold bnNumBits
  rw [Nat.size_le]
  constructor
  · intro hlt
    have : ((t.natAbs : Nat) : Int) < ((2 ^ n : Nat) : Int) := by exact_mod_cast hlt
    rw [Int.natAbs_of_nonneg h] at this
    exact_mod_cast this
  · intro hlt
    have : ((t.natAbs : Nat) : Int) < ((2 ^ n : Nat) : Int) := by
      rw [Int.natAbs_of_nonneg h]
      exact_mod_cast hlt
    exact_mod_cast this

theorem ofInt_natCast32 {n : Nat} (h : n < 2 ^ 32) : UInt32.ofInt n = UInt32.ofNat n := by
  unfold UInt32.ofInt
  congr 1
  omega

theorem ofInt_natCast64 {n : Nat} (h : n < 2 ^ 64) : UInt64.ofInt n = UInt64.ofNat n := by
  unfold UInt64.ofInt
  congr 1
  omega

/-- In range, `toUInt32` is the value. -/
theorem toUInt32_of_range {t : Int} (h0 : 0 ≤ t) (h1 : t < 2 ^ 32) :
    ((toUInt32 t).toNat : Int) = t := by
  have hbits : ¬ (t < 0 ∨ bnNumBits t > 32) := by
    rintro (h | h)
    · omega
    · exact absurd ((bnNumBits_le_iff h0 32).mpr h1) (by omega)
  have hget : asn1IntegerGet t = t := if_pos ⟨by omega, by omega⟩
  rw [toUInt32, if_neg hbits, hget]
  obtain ⟨n, rfl⟩ := Int.eq_ofNat_of_zero_le h0
  have hn : n < 2 ^ 32 := by exact_mod_cast h1
  rw [ofInt_natCast32 hn, UInt32.toNat_ofNat_of_lt' hn]

/-- Below `2^63`, `toUInt64` is the value. -/
theorem toUInt64_of_range {t : Int} (h0 : 0 ≤ t) (h1 : t < 2 ^ 63) :
    ((toUInt64 t).toNat : Int) = t := by
  have hbits : ¬ (t < 0 ∨ bnNumBits t > 64) := by
    rintro (h | h)
    · omega
    · exact absurd ((bnNumBits_le_iff h0 64).mpr (by omega)) (by omega)
  have hget : asn1IntegerGet t = t := if_pos ⟨by omega, h1⟩
  rw [toUInt64, if_neg hbits, hget]
  obtain ⟨n, rfl⟩ := Int.eq_ofNat_of_zero_le h0
  have hn : n < 2 ^ 64 := by
    have : n < 2 ^ 63 := by exact_mod_cast h1
    omega
  rw [ofInt_natCast64 hn, UInt64.toNat_ofNat_of_lt' hn]

/-- From `2^63` on what is read is `-1`. -/
theorem toUInt64_of_le {t : Int} (h0 : 2 ^ 63 ≤ t) (h1 : t < 2 ^ 64) :
    toUInt64 t = UInt64.ofInt (-1) := by
  have hbits : ¬ (t < 0 ∨ bnNumBits t > 64) := by
    rintro (h | h)
    · omega
    · exact absurd ((bnNumBits_le_iff (by omega) 64).mpr h1) (by omega)
  have hget : asn1IntegerGet t = -1 := if_neg fun hc => by omega
  rw [toUInt64, if_neg hbits, hget]

/-- Outside of 64 bits what is read is zero. -/
theorem toUInt64_of_outside {t : Int} (h : t < 0 ∨ 2 ^ 64 ≤ t) : toUInt64 t = 0 := by
  refine if_pos (h.imp_right fun hle => ?_)
  by_contra hbits
  have hlt := (bnNumBits_le_iff (by omega) 64).mp (Nat.not_lt.mp hbits)
  omega

/-- What `toUInt64` reads, by range. -/
theorem toUInt64_cases (t : Int) :
    (t < 0 ∨ 2 ^ 64 ≤ t) ∧ toUInt64 t = 0 ∨
      (0 ≤ t ∧ t < 2 ^ 63) ∧ ((toUInt64 t).toNat : Int) = t ∨
      (2 ^ 63 ≤ t ∧ t < 2 ^ 64) ∧ toUInt64 t = UInt64.ofInt (-1) := by
  by_cases hout : t < 0 ∨ 2 ^ 64 ≤ t
  · exact .inl ⟨hout, toUInt64_of_outside hout⟩
  · rw [not_or, not_lt, not_le] at hout
    by_cases hlow : t < 2 ^ 63
    · exact .inr (.inl ⟨⟨hout.1, hlow⟩, toUInt64_of_range hout.1 hlow⟩)
    · exact .inr (.inr ⟨⟨not_lt.mp hlow, hout.2⟩, toUInt64_of_le (not_lt.mp hlow) hout.2⟩)

theorem toUInt32_fromUInt32 (ui : UInt32) : toUInt32 (fromUInt32 ui) = ui := by
  have hlt : ui.toNat < 2 ^ 32 := ui.toNat_lt
  have := toUInt32_of_range (t := fromUInt32 ui) (by unfold fromUInt32; omega)
    (by unfold fromUInt32; omega)
  exact UInt32.toNat_inj.mp (Int.ofNat_inj.mp this)

/-- Over `fromUInt64` the 32-bit values come back as well (`Genesis` writes them so). -/
theorem toUInt32_fromUInt64 (ui : UInt32) : toUInt32 (fromUInt64 ui.toUInt64) = ui := by
  have e : fromUInt64 ui.toUInt64 = fromUInt32 ui := by
    unfold fromUInt64 fromUInt32
    rw [UInt32.toNat_toUInt64]
  rw [e, toUInt32_fromUInt32]

theorem toUInt64_fromUInt64 {ui : UInt64} (h : ui.toNat < 2 ^ 63) :
    toUInt64 (fromUInt64 ui) = ui := by
  have := toUInt64_of_range (t := fromUInt64 ui) (by unfold fromUInt64; omega)
    (by unfold fromUInt64; exact_mod_cast h)
  exact UInt64.toNat_inj.mp (Int.ofNat_inj.mp this)

/-- From `2^63` on the read back value is `-1`, whatever was written. -/
theorem toUInt64_fromUInt64_of_le {ui : UInt64} (h : 2 ^ 63 ≤ ui.toNat) :
    toUInt64 (fromUInt64 ui) = UInt64.ofInt (-1) := by
  have hlt : ui.toNat < 2 ^ 64 := ui.toNat_lt
  unfold fromUInt64
  exact toUInt64_of_le (by exact_mod_cast h) (by exact_mod_cast hlt)

/-- **What `toUInt64` returns it returns again**: writing its result and reading it back changes
nothing, also for the values it got wrong. -/
theorem toUInt64_fromUInt64_toUInt64 (t : Int) :
    toUInt64 (fromUInt64 (toUInt64 t)) = toUInt64 t := by
  rcases toUInt64_cases t with ⟨-, h⟩ | ⟨⟨-, hlt⟩, h⟩ | ⟨-, h⟩
  · rw [h]
    exact toUInt64_fromUInt64 (by decide)
  · refine toUInt64_fromUInt64 ?_
    rw [← h] at hlt
    exact_mod_cast hlt
  · rw [h]
    exact toUInt64_fromUInt64_of_le (by decide)

end Ossl

end Fluffycoin
