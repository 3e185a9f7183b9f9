import Fluffycoin.Ossl.Convert

/-!
# `bytea` literals

`Binary.encode` models `src/db/Binary.cpp`: the SQL text the code writes for a byte string. What
Postgres makes of such a text is modelled beside it, for the server the containers run (15, with its
default `standard_conforming_strings = on`): inside `'...'` a backslash is an ordinary character
(`readQuoted`), and the escape format of `bytea` reads a backslash with three octal digits as one
byte, two backslashes as one, and other characters as themselves (`byteaIn`). The hex format
(`\x...`), which `encode` never writes, is left out.

The source writes `\\ooo` for a byte it escapes, two backslashes. The server reads the two as one
and the digits as digits: `byteaLiteral_encode` says what is stored, and `isLiteral_encode_iff` that
it is the byte string exactly when no byte of it needed escaping. The text is one complete literal
in any case (`quoted_encode`).
-/

namespace Fluffycoin

/-! ## What the code writes -/

namespace Binary

/-- `isBinary`: control characters, everything above `0x7E`, quote and backslash. -/
def isBinary (uc : UInt8) : Bool := uc < 0x20 || uc > 0x7E || uc == 0x27 || uc == 0x5C

/-- `%03o`. -/
def octal (uc : UInt8) : Bytes := [0x30 + uc / 64, 0x30 + uc / 8 % 8, 0x30 + uc % 8]

/-- One byte of the loop of `Binary::encode`. -/
def encodeByte (uc : UInt8) : Bytes := if isBinary uc then 0x5C :: 0x5C :: octal uc else [uc]

/-- `'::bytea`, the end of a literal. -/
def suffix : Bytes := [0x3A, 0x3A, 0x62, 0x79, 0x74, 0x65, 0x61]

/-- `Binary::encode`. -/
def encode (data : Bytes) : Bytes := 0x27 :: (data.flatMap encodeByte ++ 0x27 :: suffix)

end Binary

/-! ## What the server reads -/

namespace Postgres

/-- The rest of a quoted string: its content and what follows it. A doubled quote is a quote. -/
def readQuoted : Bytes → Option (Bytes × Bytes)
  | [] => none
  | 0x27 :: 0x27 :: l => (readQuoted l).map fun p => (0x27 :: p.1, p.2)
  | 0x27 :: l => some ([], l)
  | c :: l => (readQuoted l).map fun p => (c :: p.1, p.2)

/-- The value of an octal digit that is at most `top`. -/
def octalDigit (top c : UInt8) : Option UInt8 :=
  if 0x30 ≤ c ∧ c ≤ 0x30 + top then some (c - 0x30) else none

/-- Three octal digits as a byte. -/
def octalByte (a b c : UInt8) : Option UInt8 := do
  let a ← octalDigit 3 a
  let b ← octalDigit 7 b
  let c ← octalDigit 7 c
  return a * 64 + b * 8 + c

/-- The input function of `bytea`, escape format. -/
def byteaIn : Bytes → Option Bytes
  | [] => some []
  | 0x5C :: 0x5C :: l => (byteaIn l).map (0x5C :: ·)
  | 0x5C :: a :: b :: c :: l => (octalByte a b c).bind fun v => (byteaIn l).map (v :: ·)
  | c :: l => if c = 0x5C then none else (byteaIn l).map (c :: ·)

/-- The value of a `'...'::bytea` literal, `none` if it is not one. -/
def byteaLiteral : Bytes → Option Bytes
  | 0x27 :: l =>
    (readQuoted l).bind fun (content, rest) =>
    if rest = Binary.suffix then byteaIn content else none
  | _ => none

end Postgres

/-! ## What is stored -/

namespace Binary

open Postgres

/-- What the server stores for one byte of the literal. -/
def storedByte (uc : UInt8) : Bytes := if isBinary uc then 0x5C :: octal uc else [uc]

/-- What the server stores for `encode data`. -/
def stored (data : Bytes) : Bytes := data.flatMap storedByte

theorem isBinary_quote : isBinary 0x27 = true := by decide

theorem octal_plain (uc : UInt8) : ∀ c ∈ octal uc, isBinary c = false := by
  intro c hc
  have hlt := uc.toNat_lt
  have hdigit : ∀ d : UInt8, d.toNat < 8 → isBinary (0x30 + d) = false := by
    intro d hd
    have : ∀ n < 8, isBinary (0x30 + UInt8.ofNat n) = false := by decide
    have hd' := this d.toNat hd
    rwa [UInt8.ofNat_toNat] at hd'
  simp only [octal, List.mem_cons, List.not_mem_nil, or_false] at hc
  rcases hc with rfl | rfl | rfl
  · exact hdigit _ (by rw [UInt8.toNat_div]; simp; omega)
  · exact hdigit _ (by rw [UInt8.toNat_mod]; simp; omega)
  · exact hdigit _ (by rw [UInt8.toNat_mod]; simp; omega)

theorem readQuoted_cons {c : UInt8} (hc : c ≠ 0x27) (l : Bytes) :
    readQuoted (c :: l) = (readQuoted l).map fun p => (c :: p.1, p.2) := by
  conv_lhs => unfold readQuoted
  split <;> simp_all

theorem readQuoted_append {s l : Bytes} (hs : ∀ c ∈ s, c ≠ 0x27) :
    readQuoted (s ++ l) = (readQuoted l).map fun p => (s ++ p.1, p.2) := by
  induction s with
  | nil => simp
  | cons c s ih =>
    rw [List.cons_append, readQuoted_cons (hs c List.mem_cons_self),
      ih fun c hc => hs c (List.mem_cons_of_mem _ hc), Option.map_map]
    rfl

theorem byteaIn_plain {c : UInt8} (hc : c ≠ 0x5C) (l : Bytes) :
    byteaIn (c :: l) = (byteaIn l).map (c :: ·) := by
  conv_lhs => unfold byteaIn
  split <;> simp_all

theorem byteaIn_backslashes (l : Bytes) :
    byteaIn (0x5C :: 0x5C :: l) = (byteaIn l).map (0x5C :: ·) := by
  rw [byteaIn]

theorem byteaIn_append_plain {s l : Bytes} (hs : ∀ c ∈ s, isBinary c = false) :
    byteaIn (s ++ l) = (byteaIn l).map (s ++ ·) := by
  induction s with
  | nil => simp
  | cons c s ih =>
    have hc : c ≠ 0x5C := by
      rintro rfl
      exact absurd (hs 0x5C List.mem_cons_self) (by decide)
    rw [List.cons_append, byteaIn_plain hc, ih fun c hc => hs c (List.mem_cons_of_mem _ hc),
      Option.map_map]
    rfl

theorem encodeByte_ne_quote (uc : UInt8) : ∀ c ∈ encodeByte uc, c ≠ 0x27 := by
  intro c hc
  unfold encodeByte at hc
  split at hc
  · simp only [List.mem_cons] at hc
    rcases hc with rfl | rfl | hc
    · decide
    · decide
    · rintro rfl
      exact absurd (octal_plain uc _ hc) (by decide)
  · rename_i hplain
    obtain rfl := List.mem_singleton.mp hc
    rintro rfl
    exact hplain isBinary_quote

theorem byteaIn_encodeByte (uc : UInt8) (l : Bytes) :
    byteaIn (encodeByte uc ++ l) = (byteaIn l).map (storedByte uc ++ ·) := by
  unfold encodeByte storedByte
  split
  · rw [List.cons_append, List.cons_append, byteaIn_backslashes,
      byteaIn_append_plain (octal_plain uc), Option.map_map]
    rfl
  · rename_i hplain
    exact byteaIn_append_plain fun c hc => by
      obtain rfl := List.mem_singleton.mp hc
      simpa using hplain

theorem byteaIn_flatMap (data : Bytes) :
    byteaIn (data.flatMap encodeByte) = some (stored data) := by
  induction data with
  | nil => rfl
  | cons uc data ih =>
    rw [List.flatMap_cons, byteaIn_encodeByte, ih]
    rfl

/-- **What the server stores** for the literal of a byte string. -/
theorem byteaLiteral_encode (data : Bytes) : byteaLiteral (encode data) = some (stored data) := by
  have hquoted : readQuoted (data.flatMap encodeByte ++ 0x27 :: suffix) =
      some (data.flatMap encodeByte, suffix) := by
    rw [readQuoted_append fun c hc => ?_]
    · simp [readQuoted, suffix]
    · obtain ⟨uc, _, huc⟩ := List.mem_flatMap.mp hc
      exact encodeByte_ne_quote uc c huc
  unfold byteaLiteral encode
  simp only [hquoted, Option.bind_some, if_pos]
  exact byteaIn_flatMap data

theorem stored_cons (uc : UInt8) (data : Bytes) :
    stored (uc :: data) = storedByte uc ++ stored data := rfl

theorem length_le_stored (data : Bytes) : data.length ≤ (stored data).length := by
  induction data with
  | nil => exact le_rfl
  | cons uc data ih =>
    have hbyte : 1 ≤ (storedByte uc).length := by
      unfold storedByte
      split <;> simp
    rw [stored_cons, List.length_append, List.length_cons]
    omega

/-- The stored value is the byte string exactly if nothing in it is escaped. -/
theorem stored_eq_iff (data : Bytes) : stored data = data ↔ ∀ c ∈ data, isBinary c = false := by
  induction data with
  | nil => simp [stored]
  | cons uc data ih =>
    rw [stored_cons, List.forall_mem_cons]
    cases hb : isBinary uc with
    | true =>
      -- an escaped byte makes the stored value longer than the data
      have hlen : (storedByte uc ++ stored data).length ≠ (uc :: data).length := by
        have := length_le_stored data
        rw [List.length_append, storedByte, if_pos hb]
        simp only [List.length_cons, octal, List.length_nil]
        omega
      constructor
      · intro h
        exact absurd (congrArg List.length h) hlen
      · rintro ⟨h, _⟩
        cases h
    | false =>
      rw [storedByte, if_neg (by simp [hb]), List.singleton_append, List.cons_inj_right, ih]
      simp

/-! ## Literals -/

/-- `text` is one complete `bytea` literal without an unescaped quote, and its value is `data`. -/
structure IsLiteral (text data : Bytes) : Prop where
  quoted : ∃ content, text = 0x27 :: (content ++ 0x27 :: suffix) ∧ 0x27 ∉ content
  value : byteaLiteral text = some data

/-- Whatever the bytes, the text is one complete literal. -/
theorem quoted_encode (data : Bytes) :
    ∃ content, encode data = 0x27 :: (content ++ 0x27 :: suffix) ∧ 0x27 ∉ content := by
  refine ⟨data.flatMap encodeByte, rfl, fun hmem => ?_⟩
  obtain ⟨uc, -, huc⟩ := List.mem_flatMap.mp hmem
  exact encodeByte_ne_quote uc 0x27 huc rfl

/-- **The value of the literal is the byte string** exactly if none of its bytes is escaped. -/
theorem isLiteral_encode_iff (data : Bytes) :
    IsLiteral (encode data) data ↔ ∀ c ∈ data, isBinary c = false := by
  rw [← stored_eq_iff]
  constructor
  · intro h
    have hvalue := h.value
    rw [byteaLiteral_encode] at hvalue
    exact Option.some.inj hvalue
  · intro h
    refine ⟨quoted_encode data, ?_⟩
    rw [byteaLiteral_encode, h]

/-- A zero byte is stored as the four characters of its escape. -/
theorem zero_not_isLiteral :
    byteaLiteral (encode [0x00]) = some [0x5C, 0x30, 0x30, 0x30] ∧
      ¬ IsLiteral (encode [0x00]) [0x00] := by
  have hvalue : byteaLiteral (encode [0x00]) = some [0x5C, 0x30, 0x30, 0x30] := by decide
  refine ⟨hvalue, fun h => ?_⟩
  have hzero := h.value
  rw [hvalue] at hzero
  exact absurd hzero (by decide)

end Binary

end Fluffycoin
