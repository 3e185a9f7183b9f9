import Fluffycoin.Ossl.Convert
import Mathlib.Data.Bool.AllAny
import Mathlib.Tactic.IntervalCases

/-!
# Base64, web alphabet

Model of `src/utils/Base64.cpp`: `encode` without padding, and `decode`, which accepts every common
alphabet, skips characters of none and drops trailing `=` (never more than half the text).
A C++ `char` is a `Char` here; both functions carry the loop's `bits` and `curVal`.

`decode_encode`: decoding an encoding gives the bytes back, for any length. The decoder lags behind
the encoder by one byte: while the encoder holds the low bits of a byte, the decoder holds the high
ones, which is the invariant of the induction (`decodeFrom_encodeFrom`).

`decode_variant`: so does decoding the text in another dialect, with padding and with characters of
no alphabet in between (`Variant`), and the bytes stored fit the buffer `decode` allocates. The scan
for trailing `=` only drops characters the main loop would skip (`decode_eq_decodeFrom`).
-/

namespace Fluffycoin.Base64

/-- `webEncoding`. -/
def webEncoding : List Char :=
  ['A', 'B', 'C', 'D', 'E', 'F', 'G', 'H', 'I', 'J', 'K', 'L', 'M', 'N', 'O', 'P',
   'Q', 'R', 'S', 'T', 'U', 'V', 'W', 'X', 'Y', 'Z', 'a', 'b', 'c', 'd', 'e', 'f',
   'g', 'h', 'i', 'j', 'k', 'l', 'm', 'n', 'o', 'p', 'q', 'r', 's', 't', 'u', 'v',
   'w', 'x', 'y', 'z', '0', '1', '2', '3', '4', '5', '6', '7', '8', '9', '-', '_']

/-- `webEncoding[index]`; the index is below 64 in every use. -/
def webChar (index : UInt8) : Char := webEncoding.getD index.toNat '\x00'

/-- `Base64::charToVal`, `none` for the `-1` of a character outside every alphabet. -/
def charToVal (curChar : Char) : Option UInt8 :=
  if 'A' ≤ curChar ∧ curChar ≤ 'Z' then some (UInt8.ofNat (curChar.toNat - 'A'.toNat))
  else if 'a' ≤ curChar ∧ curChar ≤ 'z' then some (UInt8.ofNat (curChar.toNat - 'a'.toNat + 26))
  else if '0' ≤ curChar ∧ curChar ≤ '9' then some (UInt8.ofNat (curChar.toNat - '0'.toNat + 52))
  else if curChar = '+' ∨ curChar = '-' then some 62
  else if curChar = '/' ∨ curChar = '_' ∨ curChar = ',' then some 63
  else none

/-- The loop of `Base64::encode` from a state on, with the bits left over at the end. -/
def encodeFrom (bits : Nat) (curVal : UInt8) : Bytes → List Char
  | [] => if 0 < bits then [webChar (curVal <<< (6 - UInt8.ofNat bits))] else []
  | uc :: l =>
    if bits = 0 then webChar (uc >>> 2) :: encodeFrom 2 (uc &&& 0x03) l
    else if bits = 2 then webChar ((curVal <<< 4) ||| (uc >>> 4)) :: encodeFrom 4 (uc &&& 0x0F) l
    else if bits = 4 then
      webChar ((curVal <<< 2) ||| (uc >>> 6)) :: webChar (uc &&& 0x3F) ::
        encodeFrom 0 (curVal <<< 2) l
    else encodeFrom bits curVal l

/-- `Base64::encode`. -/
def encode (binary : Bytes) : List Char := encodeFrom 0 0 binary

/-- The loop that counts trailing `=`, with as much fuel as there are characters. -/
def countEquals (printable : List Char) : Nat → Nat → Nat
  | 0, equals => equals
  | fuel + 1, equals =>
    if equals < printable.length - equals ∧
        printable[printable.length - equals - 1]? = some '=' then
      countEquals printable fuel (equals + 1)
    else equals

/-- The main loop of `Base64::decode` from a state on. -/
def decodeFrom (bits : Nat) (curVal : UInt8) : List Char → Bytes
  | [] => []
  | c :: l =>
    match charToVal c with
    | none => decodeFrom bits curVal l
    | some intVal =>
      if bits = 0 then decodeFrom 6 intVal l
      else if bits = 2 then
        ((curVal <<< 6) ||| intVal) :: decodeFrom 0 ((curVal <<< 6) ||| intVal) l
      else if bits = 4 then
        ((curVal <<< 4) ||| (intVal >>> 2)) :: decodeFrom 2 (intVal &&& 0x03) l
      else if bits = 6 then
        ((curVal <<< 2) ||| (intVal >>> 4)) :: decodeFrom 4 (intVal &&& 0x0F) l
      else decodeFrom bits curVal l

/-- `Base64::decode`. -/
def decode (printable : List Char) : Bytes :=
  decodeFrom 0 0
    (printable.take (printable.length - countEquals printable printable.length 0))

/-! ## The alphabet -/

theorem charToVal_getD :
    ∀ i < 64, charToVal (webEncoding.getD i '\x00') = some (UInt8.ofNat i) := by
  decide +kernel

theorem getD_mem : ∀ i < 64, webEncoding.getD i '\x00' ∈ webEncoding := by
  decide +kernel

theorem toNat_lt_of_and {i : UInt8} (h : i &&& 0x3F = i) : i.toNat < 64 := by
  rw [← h, UInt8.toNat_and]
  exact Nat.lt_of_le_of_lt Nat.and_le_right (by decide)

theorem charToVal_webChar {i : UInt8} (h : i &&& 0x3F = i) : charToVal (webChar i) = some i := by
  unfold webChar
  rw [charToVal_getD i.toNat (toNat_lt_of_and h), UInt8.ofNat_toNat]

theorem webChar_mem {i : UInt8} (h : i &&& 0x3F = i) : webChar i ∈ webEncoding :=
  getD_mem i.toNat (toNat_lt_of_and h)

/-- A character of the alphabet, by its index. -/
theorem exists_webChar : ∀ c ∈ webEncoding, ∃ i : UInt8, i &&& 0x3F = i ∧ c = webChar i := by
  have hval : ∀ c ∈ webEncoding, ((charToVal c).getD 0) &&& 0x3F = (charToVal c).getD 0 ∧
      c = webChar ((charToVal c).getD 0) :=
    -- over the list, not over all of `Char`
    List.all_iff_forall_prop.mp (by decide +kernel)
  exact fun c hc => ⟨_, hval c hc⟩

/-! ## Bits -/

section Bits

variable (u w : UInt8)

/-- Bytes with the same eight bits are equal. -/
theorem eq_of_bits {x y : UInt8} (h0 : x.toBitVec[0] = y.toBitVec[0])
    (h1 : x.toBitVec[1] = y.toBitVec[1]) (h2 : x.toBitVec[2] = y.toBitVec[2])
    (h3 : x.toBitVec[3] = y.toBitVec[3]) (h4 : x.toBitVec[4] = y.toBitVec[4])
    (h5 : x.toBitVec[5] = y.toBitVec[5]) (h6 : x.toBitVec[6] = y.toBitVec[6])
    (h7 : x.toBitVec[7] = y.toBitVec[7]) : x = y := by
  apply UInt8.toBitVec_inj.mp
  ext i hi
  interval_cases i <;> assumption

-- The indices the encoder writes, and the bytes the decoder makes of them, bit by bit.
theorem mask_first : (u >>> 2) &&& (0x3F : UInt8) = u >>> 2 := by
  apply eq_of_bits <;> simp

theorem mask_second :
    ((u &&& 0x03) <<< 4 ||| w >>> 4) &&& (0x3F : UInt8) = (u &&& 0x03) <<< 4 ||| w >>> 4 := by
  apply eq_of_bits <;> simp

theorem mask_third :
    ((u &&& 0x0F) <<< 2 ||| w >>> 6) &&& (0x3F : UInt8) = (u &&& 0x0F) <<< 2 ||| w >>> 6 := by
  apply eq_of_bits <;> simp

theorem mask_fourth : (w &&& 0x3F) &&& (0x3F : UInt8) = w &&& 0x3F := by
  apply eq_of_bits <;> simp

theorem join_second : (u >>> 2) <<< 2 ||| ((u &&& 0x03) <<< 4 ||| w >>> 4) >>> 4 = u := by
  apply eq_of_bits <;> simp

theorem keep_second : ((u &&& 0x03) <<< 4 ||| w >>> 4) &&& (0x0F : UInt8) = w >>> 4 := by
  apply eq_of_bits <;> simp

theorem join_third : (u >>> 4) <<< 4 ||| ((u &&& 0x0F) <<< 2 ||| w >>> 6) >>> 2 = u := by
  apply eq_of_bits <;> simp

theorem keep_third : ((u &&& 0x0F) <<< 2 ||| w >>> 6) &&& (0x03 : UInt8) = w >>> 6 := by
  apply eq_of_bits <;> simp

theorem join_fourth : (w >>> 6) <<< 6 ||| (w &&& 0x3F) = w := by
  apply eq_of_bits <;> simp

-- The indices of four characters, from the three bytes they make.
theorem index_first : (((u &&& 0x3F) <<< 2 ||| (w &&& 0x3F) >>> 4) >>> 2 : UInt8) = u &&& 0x3F := by
  apply eq_of_bits <;> simp

theorem index_second (x : UInt8) :
    (((u &&& 0x3F) <<< 2 ||| (w &&& 0x3F) >>> 4) &&& 0x03) <<< 4 |||
      (((w &&& 0x3F) &&& 0x0F) <<< 4 ||| (x &&& 0x3F) >>> 2) >>> 4 = w &&& (0x3F : UInt8) := by
  apply eq_of_bits <;> simp

theorem index_third (x : UInt8) :
    ((((u &&& 0x3F) &&& 0x0F) <<< 4 ||| (w &&& 0x3F) >>> 2) &&& 0x0F) <<< 2 |||
      (((w &&& 0x3F) &&& 0x03) <<< 6 ||| (x &&& 0x3F)) >>> 6 = w &&& (0x3F : UInt8) := by
  apply eq_of_bits <;> simp

theorem index_fourth :
    (((u &&& 0x3F) &&& 0x03) <<< 6 ||| (w &&& 0x3F)) &&& 0x3F = w &&& (0x3F : UInt8) := by
  apply eq_of_bits <;> simp

end Bits

/-! ## One character of the decoder -/

theorem decodeFrom_zero {i : UInt8} (h : i &&& 0x3F = i) (v : UInt8) (l : List Char) :
    decodeFrom 0 v (webChar i :: l) = decodeFrom 6 i l := by
  simp only [decodeFrom, charToVal_webChar h, if_pos]

theorem decodeFrom_six {i : UInt8} (h : i &&& 0x3F = i) (v : UInt8) (l : List Char) :
    decodeFrom 6 v (webChar i :: l) = (v <<< 2 ||| i >>> 4) :: decodeFrom 4 (i &&& 0x0F) l := by
  simp [decodeFrom, charToVal_webChar h]

theorem decodeFrom_four {i : UInt8} (h : i &&& 0x3F = i) (v : UInt8) (l : List Char) :
    decodeFrom 4 v (webChar i :: l) = (v <<< 4 ||| i >>> 2) :: decodeFrom 2 (i &&& 0x03) l := by
  simp [decodeFrom, charToVal_webChar h]

theorem decodeFrom_two {i : UInt8} (h : i &&& 0x3F = i) (v : UInt8) (l : List Char) :
    decodeFrom 2 v (webChar i :: l) = (v <<< 6 ||| i) :: decodeFrom 0 (v <<< 6 ||| i) l := by
  simp [decodeFrom, charToVal_webChar h]

/-! ## Characters that do not count -/

theorem decodeFrom_noise {c : Char} (h : charToVal c = none) (bits : Nat) (v : UInt8)
    (l : List Char) : decodeFrom bits v (c :: l) = decodeFrom bits v l := by
  rw [decodeFrom, h]

/-- The decoder looks at a character through its value. -/
theorem decodeFrom_cons_congr {c c' : Char} {l l' : List Char} (hc : charToVal c = charToVal c')
    (hl : ∀ bits v, decodeFrom bits v l = decodeFrom bits v l') (bits : Nat) (v : UInt8) :
    decodeFrom bits v (c :: l) = decodeFrom bits v (c' :: l') := by
  simp only [decodeFrom, hc, hl]

theorem decodeFrom_append_noise {b : List Char} (hb : ∀ c ∈ b, charToVal c = none) :
    ∀ (a : List Char) (bits : Nat) (v : UInt8),
      decodeFrom bits v (a ++ b) = decodeFrom bits v a := by
  intro a
  induction a with
  | nil =>
    intro bits v
    induction b with
    | nil => rfl
    | cons c b ih =>
      rw [List.forall_mem_cons] at hb
      rw [List.nil_append, decodeFrom_noise hb.1]
      exact ih hb.2
  | cons c a ih => exact decodeFrom_cons_congr rfl ih

/-- What the scan from the end drops is `=`. -/
theorem eq_of_mem_drop_countEquals (printable : List Char) :
    ∀ (fuel equals : Nat), (∀ c ∈ printable.drop (printable.length - equals), c = '=') →
      ∀ c ∈ printable.drop (printable.length - countEquals printable fuel equals), c = '='
  | 0, _, h => h
  | fuel + 1, equals, h => by
    unfold countEquals
    split_ifs with hcond
    · refine eq_of_mem_drop_countEquals printable fuel (equals + 1) ?_
      obtain ⟨hlt, hget⟩ := hcond
      obtain ⟨hpos, heq⟩ := List.getElem?_eq_some_iff.mp hget
      have hnext : printable.length - equals - 1 + 1 = printable.length - equals := by omega
      rw [← Nat.sub_sub, List.drop_eq_getElem_cons hpos, List.forall_mem_cons, hnext]
      exact ⟨heq, h⟩
    · exact h

/-- Dropping the padding does not change what is decoded. -/
theorem decode_eq_decodeFrom (printable : List Char) :
    decode printable = decodeFrom 0 0 printable := by
  have hdrop := eq_of_mem_drop_countEquals printable printable.length 0 (by simp)
  have hnoise : charToVal '=' = none := by decide
  unfold decode
  conv_rhs => rw [← List.take_append_drop
    (printable.length - countEquals printable printable.length 0) printable]
  refine (decodeFrom_append_noise (fun c hc => ?_) _ 0 0).symm
  rw [hdrop c hc, hnoise]

/-! ## The round trip -/

-- The bits left over are written as if a zero byte followed.
theorem encodeFrom_two_nil (v : UInt8) :
    encodeFrom 2 v [] = [webChar (v <<< 4 ||| (0 : UInt8) >>> 4)] := by
  simp [encodeFrom]

theorem encodeFrom_four_nil (v : UInt8) :
    encodeFrom 4 v [] = [webChar (v <<< 2 ||| (0 : UInt8) >>> 6)] := by
  simp [encodeFrom]

theorem encodeFrom_zero_cons (v uc : UInt8) (l : Bytes) :
    encodeFrom 0 v (uc :: l) = webChar (uc >>> 2) :: encodeFrom 2 (uc &&& 0x03) l := by
  simp [encodeFrom]

theorem encodeFrom_two_cons (v uc : UInt8) (l : Bytes) :
    encodeFrom 2 v (uc :: l) =
      webChar (v <<< 4 ||| uc >>> 4) :: encodeFrom 4 (uc &&& 0x0F) l := by
  simp [encodeFrom]

theorem encodeFrom_four_cons (v uc : UInt8) (l : Bytes) :
    encodeFrom 4 v (uc :: l) =
      webChar (v <<< 2 ||| uc >>> 6) :: webChar (uc &&& 0x3F) :: encodeFrom 0 (v <<< 2) l := by
  simp [encodeFrom]

/-- The decoder behind the encoder, at each of the three positions in a group of three bytes: `u`
is the byte the encoder has taken the first bits of. -/
theorem decodeFrom_encodeFrom (l : Bytes) :
    (∀ v v', decodeFrom 0 v (encodeFrom 0 v' l) = l) ∧
    (∀ u : UInt8, decodeFrom 6 (u >>> 2) (encodeFrom 2 (u &&& 0x03) l) = u :: l) ∧
    (∀ u : UInt8, decodeFrom 4 (u >>> 4) (encodeFrom 4 (u &&& 0x0F) l) = u :: l) := by
  induction l with
  | nil =>
    refine ⟨fun v v' => rfl, fun u => ?_, fun u => ?_⟩
    · rw [encodeFrom_two_nil, decodeFrom_six (mask_second u 0), join_second]
      rfl
    · rw [encodeFrom_four_nil, decodeFrom_four (mask_third u 0), join_third]
      rfl
  | cons w l ih =>
    obtain ⟨ih0, ih2, ih4⟩ := ih
    refine ⟨fun v v' => ?_, fun u => ?_, fun u => ?_⟩
    · rw [encodeFrom_zero_cons, decodeFrom_zero (mask_first w), ih2]
    · rw [encodeFrom_two_cons, decodeFrom_six (mask_second u w), join_second, keep_second, ih4]
    · rw [encodeFrom_four_cons, decodeFrom_four (mask_third u w), join_third, keep_third,
        decodeFrom_two (mask_fourth w), join_fourth, ih0]

/-- Every character of an encoding is one of the web alphabet. -/
theorem mem_encodeFrom (l : Bytes) :
    (∀ v, ∀ c ∈ encodeFrom 0 v l, c ∈ webEncoding) ∧
    (∀ u : UInt8, ∀ c ∈ encodeFrom 2 (u &&& 0x03) l, c ∈ webEncoding) ∧
    (∀ u : UInt8, ∀ c ∈ encodeFrom 4 (u &&& 0x0F) l, c ∈ webEncoding) := by
  induction l with
  | nil =>
    refine ⟨fun v c hc => (List.not_mem_nil hc).elim, fun u => ?_, fun u => ?_⟩
    · rw [encodeFrom_two_nil, List.forall_mem_singleton]
      exact webChar_mem (mask_second u 0)
    · rw [encodeFrom_four_nil, List.forall_mem_singleton]
      exact webChar_mem (mask_third u 0)
  | cons w l ih =>
    obtain ⟨ih0, ih2, ih4⟩ := ih
    refine ⟨fun v => ?_, fun u => ?_, fun u => ?_⟩
    · rw [encodeFrom_zero_cons, List.forall_mem_cons]
      exact ⟨webChar_mem (mask_first w), ih2 w⟩
    · rw [encodeFrom_two_cons, List.forall_mem_cons]
      exact ⟨webChar_mem (mask_second u w), ih4 w⟩
    · rw [encodeFrom_four_cons, List.forall_mem_cons, List.forall_mem_cons]
      exact ⟨webChar_mem (mask_third u w), webChar_mem (mask_fourth w), ih0 _⟩

theorem mem_encode {binary : Bytes} {c : Char} (h : c ∈ encode binary) : c ∈ webEncoding :=
  (mem_encodeFrom binary).1 0 c h

/-- **Base64 round-trips** every byte string. -/
theorem decode_encode (binary : Bytes) : decode (encode binary) = binary := by
  rw [decode_eq_decodeFrom]
  exact (decodeFrom_encodeFrom binary).1 0 0

/-- A group of four characters, decoded and encoded again. -/
theorem encodeFrom_decodeFrom_group {a b c d : Char} (ha : a ∈ webEncoding) (hb : b ∈ webEncoding)
    (hc : c ∈ webEncoding) (hd : d ∈ webEncoding) (v v' : UInt8) (l : List Char) :
    ∃ x y z v₁ v₂, decodeFrom 0 v (a :: b :: c :: d :: l) = x :: y :: z :: decodeFrom 0 v₁ l ∧
      ∀ bs, encodeFrom 0 v' (x :: y :: z :: bs) = a :: b :: c :: d :: encodeFrom 0 v₂ bs := by
  obtain ⟨i, hi, rfl⟩ := exists_webChar a ha
  obtain ⟨j, hj, rfl⟩ := exists_webChar b hb
  obtain ⟨k, hk, rfl⟩ := exists_webChar c hc
  obtain ⟨m, hm, rfl⟩ := exists_webChar d hd
  have h1 := index_first i j
  have h2 := index_second i j k
  have h3 := index_third j k m
  have h4 := index_fourth k m
  rw [hi, hj] at h1
  rw [hi, hj, hk] at h2
  rw [hj, hk, hm] at h3
  rw [hk, hm] at h4
  refine ⟨i <<< 2 ||| j >>> 4, (j &&& 0x0F) <<< 4 ||| k >>> 2, (k &&& 0x03) <<< 6 ||| m,
    (k &&& 0x03) <<< 6 ||| m, (((j &&& 0x0F) <<< 4 ||| k >>> 2) &&& 0x0F) <<< 2, ?_, fun bs => ?_⟩
  · rw [decodeFrom_zero hi, decodeFrom_six hj, decodeFrom_four hk, decodeFrom_two hm]
  · rw [encodeFrom_zero_cons, encodeFrom_two_cons, encodeFrom_four_cons, h1, h2, h3, h4]

/-- **Base64 round-trips** every text of whole groups of the web alphabet, at three bytes for each
group. -/
theorem encodeFrom_decodeFrom :
    ∀ (n : Nat) {text : List Char}, text.length = 4 * n → (∀ c ∈ text, c ∈ webEncoding) →
      ∀ v v', encodeFrom 0 v' (decodeFrom 0 v text) = text ∧
        (decodeFrom 0 v text).length = 3 * n
  | 0, text, hlen, _, v, v' => by
    obtain rfl := List.length_eq_zero_iff.mp hlen
    exact ⟨rfl, rfl⟩
  | n + 1, a :: b :: c :: d :: l, hlen, h, v, v' => by
    simp only [List.forall_mem_cons] at h
    obtain ⟨ha, hb, hc, hd, hl⟩ := h
    obtain ⟨x, y, z, v₁, v₂, hdec, henc⟩ := encodeFrom_decodeFrom_group ha hb hc hd v v' l
    obtain ⟨ihtext, ihlen⟩ :=
      encodeFrom_decodeFrom n (show l.length = 4 * n by simp at hlen; omega) hl v₁ v₂
    rw [hdec, henc, ihtext]
    simp only [List.length_cons, ihlen, true_and]
    omega
  | n + 1, [], hlen, _, _, _ => by simp at hlen
  | n + 1, [_], hlen, _, _, _ => by simp at hlen; omega
  | n + 1, [_, _], hlen, _, _, _ => by simp at hlen; omega
  | n + 1, [_, _, _], hlen, _, _, _ => by simp at hlen; omega

/-! ## Lengths -/

/-- Eight bits are stored for each byte, of those held and six for each character. -/
theorem eight_mul_length_decodeFrom_le :
    ∀ (bits : Nat) (v : UInt8) (l : List Char),
      8 * (decodeFrom bits v l).length ≤ bits + 6 * l.length
  | _, _, [] => by simp [decodeFrom]
  | bits, v, c :: l => by
    have ih := fun bits v => eight_mul_length_decodeFrom_le bits v l
    rw [decodeFrom, List.length_cons]
    split
    · have := ih bits v
      omega
    · rename_i intVal _
      split_ifs with h0 h2 h4 h6
      · have := ih 6 intVal
        omega
      · have := ih 0 (v <<< 6 ||| intVal)
        rw [List.length_cons]
        omega
      · have := ih 2 (intVal &&& 0x03)
        rw [List.length_cons]
        omega
      · have := ih 4 (intVal &&& 0x0F)
        rw [List.length_cons]
        omega
      · have := ih bits v
        omega

/-- Six bits are written with each character, of those held and eight for each byte; the last
character may be short of five. -/
theorem six_mul_length_encodeFrom_le :
    ∀ (bits : Nat) (v : UInt8) (l : Bytes),
      6 * (encodeFrom bits v l).length ≤ bits + 8 * l.length + 5
  | bits, v, [] => by
    rw [encodeFrom]
    split_ifs
    · rw [List.length_singleton]
      omega
    · simp
  | bits, v, uc :: l => by
    have ih := fun bits v => six_mul_length_encodeFrom_le bits v l
    rw [encodeFrom, List.length_cons]
    split_ifs with h0 h2 h4
    · have := ih 2 (uc &&& 0x03)
      rw [List.length_cons]
      omega
    · have := ih 4 (uc &&& 0x0F)
      rw [List.length_cons]
      omega
    · have := ih 0 (v <<< 2)
      rw [List.length_cons, List.length_cons]
      omega
    · have := ih bits v
      omega

theorem length_decode_le (printable : List Char) :
    (decode printable).length ≤ printable.length := by
  have h := eight_mul_length_decodeFrom_le 0 0 printable
  rw [decode_eq_decodeFrom]
  omega

/-- What `decode` stores fits its buffer. -/
theorem length_decode_le_buffer (printable : List Char) :
    (decode printable).length ≤ (printable.length / 4 + 1) * 3 := by
  have h := eight_mul_length_decodeFrom_le 0 0 printable
  rw [decode_eq_decodeFrom]
  omega

theorem encode_ne_nil {binary : Bytes} (h : binary ≠ []) : encode binary ≠ [] := by
  intro hnil
  have hdec := decode_encode binary
  rw [hnil] at hdec
  exact h hdec.symm

/-- Every three bytes make four characters, and what follows them does not change those. -/
theorem encodeFrom_append :
    ∀ (n : Nat) {x : Bytes}, x.length = 3 * n → ∀ v,
      (encodeFrom 0 v x).length = 4 * n ∧
        ∃ v', ∀ y, encodeFrom 0 v (x ++ y) = encodeFrom 0 v x ++ encodeFrom 0 v' y
  | 0, x, hlen, v => by
    obtain rfl := List.length_eq_zero_iff.mp hlen
    exact ⟨rfl, v, fun y => rfl⟩
  | n + 1, a :: b :: c :: l, hlen, v => by
    obtain ⟨ihlen, v', ih⟩ :=
      encodeFrom_append n (show l.length = 3 * n by simp at hlen; omega) ((b &&& 0x0F) <<< 2)
    simp only [List.cons_append, encodeFrom_zero_cons, encodeFrom_two_cons, encodeFrom_four_cons,
      List.length_cons, ihlen]
    exact ⟨by omega, v', fun y => by rw [ih]⟩
  | n + 1, [], hlen, _ => by simp at hlen
  | n + 1, [_], hlen, _ => by simp at hlen; omega
  | n + 1, [_, _], hlen, _ => by simp at hlen; omega

theorem length_encode_six {binary : Bytes} (h : binary.length = 6) :
    (encode binary).length = 8 :=
  (encodeFrom_append 2 h 0).1

/-! ## Dialects and noise -/

/-- The characters of the alphabets `decode` accepts. -/
def alphabets : List Char := webEncoding ++ ['+', '/', ',']

/-- `Variant l s`: `s` is `l` in any mixture of dialects, with any characters of no alphabet
inserted. -/
inductive Variant : List Char → List Char → Prop where
  | nil : Variant [] []
  | same (c : Char) {l s : List Char} (h : Variant l s) : Variant (c :: l) (c :: s)
  | plus {l s : List Char} (h : Variant l s) : Variant ('-' :: l) ('+' :: s)
  | slash {l s : List Char} (h : Variant l s) : Variant ('_' :: l) ('/' :: s)
  | comma {l s : List Char} (h : Variant l s) : Variant ('_' :: l) (',' :: s)
  | noise {c : Char} (hc : c ∉ alphabets) {l s : List Char} (h : Variant l s) : Variant l (c :: s)

/-- A character that counts is one of an alphabet. -/
theorem mem_alphabets_of_charToVal {c : Char} {v : UInt8} (h : charToVal c = some v) :
    c ∈ alphabets := by
  have hascii : ∀ n < 128, charToVal (Char.ofNat n) ≠ none → Char.ofNat n ∈ alphabets := by
    decide +kernel
  have hlt : c.toNat < 128 := by
    unfold charToVal at h
    split_ifs at h with h1 h2 h3 h4 h5
    · exact Nat.lt_of_le_of_lt h1.2 (by decide)
    · exact Nat.lt_of_le_of_lt h2.2 (by decide)
    · exact Nat.lt_of_le_of_lt h3.2 (by decide)
    · rcases h4 with rfl | rfl <;> decide
    · rcases h5 with rfl | rfl | rfl <;> decide
  have hc := hascii c.toNat hlt
  rw [Char.ofNat_toNat] at hc
  exact hc (by rw [h]; simp)

theorem charToVal_of_noise {c : Char} (h : c ∉ alphabets) : charToVal c = none := by
  cases hv : charToVal c with
  | none => rfl
  | some v => exact absurd (mem_alphabets_of_charToVal hv) h

/-- The main loop does not see the dialect or the noise. -/
theorem decodeFrom_variant {l s : List Char} (h : Variant l s) :
    ∀ bits v, decodeFrom bits v s = decodeFrom bits v l := by
  induction h with
  | nil => exact fun _ _ => rfl
  | same c _ ih => exact decodeFrom_cons_congr rfl ih
  | plus _ ih => exact decodeFrom_cons_congr (by decide) ih
  | slash _ ih => exact decodeFrom_cons_congr (by decide) ih
  | comma _ ih => exact decodeFrom_cons_congr (by decide) ih
  | noise hc _ ih =>
    intro bits v
    rw [decodeFrom_noise (charToVal_of_noise hc), ih]

/-- **Decoding undoes encoding** in every dialect, with any padding and any noise, and stays within
its buffer. -/
theorem decode_variant (binary : Bytes) {printable : List Char}
    (h : Variant (encode binary) printable) :
    decode printable = binary ∧ (decode printable).length ≤ (printable.length / 4 + 1) * 3 := by
  refine ⟨?_, length_decode_le_buffer printable⟩
  rw [decode_eq_decodeFrom, decodeFrom_variant h]
  exact (decodeFrom_encodeFrom binary).1 0 0

theorem decode_variant_noisy :
    Variant (encode [0xFB, 0xF0]) ['+', ' ', '/', '=', 'A', '='] ∧
      decode ['+', ' ', '/', '=', 'A', '='] = [0xFB, 0xF0] ∧
      (decode ['+', ' ', '/', '=', 'A', '=']).length ≤ (6 / 4 + 1) * 3 := by
  have h : Variant (encode [0xFB, 0xF0]) ['+', ' ', '/', '=', 'A', '='] :=
    .plus (.noise (by decide) (.slash (.noise (by decide) (.same 'A' (.noise (by decide) .nil)))))
  exact ⟨h, decode_variant [0xFB, 0xF0] h⟩

end Fluffycoin.Base64
