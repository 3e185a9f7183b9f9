import Fluffycoin.Der.Octets
import Fluffycoin.Ossl.Convert
import Mathlib.Data.Bool.AllAny
import Mathlib.Data.List.TakeWhile

/-!
# Base58

Model of `src/alg/Base58.cpp`. The `BIGNUM` is a natural number, `BN_bin2bn` and `BN_bn2bin` are the
big-endian numeral and its value (`Der.octetsNat`, `Der.natOctets`), and the division loop of
`encode` produces the digits of the number in base 58, lowest first (`Nat.digits 58`). Leading zero
bytes, which a number does not have, are written as leading `1`s.

`decode_encode`: Base58 round-trips every byte string. `encode_decode`: it round-trips every text of
its alphabet; `decode` accepts others, each character of which counts as a zero digit.
`encode_shape` says what an encoding looks like, `encode_eq_encodeLoop` that the digits are those
the loop produces, and `base58_bijection` puts these together.
-/

namespace Fluffycoin.Base58

/-- `b58Encoding`. -/
def b58Encoding : List Char :=
  ['1', '2', '3', '4', '5', '6', '7', '8', '9', 'A', 'B', 'C', 'D', 'E', 'F', 'G', 'H', 'J', 'K',
   'L', 'M', 'N', 'P', 'Q', 'R', 'S', 'T', 'U', 'V', 'W', 'X', 'Y', 'Z', 'a', 'b', 'c', 'd', 'e',
   'f', 'g', 'h', 'i', 'j', 'k', 'm', 'n', 'o', 'p', 'q', 'r', 's', 't', 'u', 'v', 'w', 'x', 'y',
   'z']

/-- `Base58::charToVal`: a character outside the alphabet counts as zero. -/
def charToVal (curChar : Char) : UInt8 :=
  if '1' ≤ curChar ∧ curChar ≤ '9' then UInt8.ofNat (curChar.toNat - '1'.toNat)
  else if 'A' ≤ curChar ∧ curChar ≤ 'H' then UInt8.ofNat (curChar.toNat - 'A'.toNat + 9)
  else if 'J' ≤ curChar ∧ curChar ≤ 'N' then UInt8.ofNat (curChar.toNat - 'J'.toNat + 17)
  else if 'P' ≤ curChar ∧ curChar ≤ 'Z' then UInt8.ofNat (curChar.toNat - 'P'.toNat + 22)
  else if 'a' ≤ curChar ∧ curChar ≤ 'k' then UInt8.ofNat (curChar.toNat - 'a'.toNat + 33)
  else if 'm' ≤ curChar ∧ curChar ≤ 'z' then UInt8.ofNat (curChar.toNat - 'm'.toNat + 44)
  else 0

/-- `Base58::valToChar`: a NUL from 58 on. -/
def valToChar (val : UInt8) : Char := b58Encoding.getD val.toNat '\x00'

/-- `Base58::encode`. -/
def encode (binary : Bytes) : List Char :=
  if binary = [] then []
  else
    let zeros := (binary.takeWhile (· = 0)).length
    let encoded := (Nat.digits 58 (Der.octetsNat binary)).map fun rem =>
      valToChar (UInt8.ofNat rem)
    List.replicate zeros '1' ++ encoded.reverse

/-- `Base58::decode`. -/
def decode (printable : List Char) : Bytes :=
  let zeros := (printable.takeWhile (· = '1')).length
  let bn := (printable.drop zeros).foldl (fun bn c => bn * 58 + (charToVal c).toNat) 0
  List.replicate zeros 0 ++ Der.natOctets bn

/-! ## Digits -/

theorem charToVal_valToChar : ∀ d < 58, (charToVal (valToChar (UInt8.ofNat d))).toNat = d := by
  decide +kernel

theorem valToChar_ne_one : ∀ d < 58, d ≠ 0 → valToChar (UInt8.ofNat d) ≠ '1' := by
  decide +kernel

-- Over the list and not over all of `Char`, for which there is an instance too.
theorem valToChar_charToVal : ∀ c ∈ b58Encoding, valToChar (charToVal c) = c :=
  List.all_iff_forall_prop.mp (by decide +kernel)

theorem charToVal_lt : ∀ c ∈ b58Encoding, (charToVal c).toNat < 58 :=
  List.all_iff_forall_prop.mp (by decide +kernel)

theorem charToVal_ne_zero : ∀ c ∈ b58Encoding, c ≠ '1' → (charToVal c).toNat ≠ 0 :=
  List.all_iff_forall_prop.mp (by decide +kernel)

theorem valToChar_mem : ∀ d < 58, valToChar (UInt8.ofNat d) ∈ b58Encoding := by
  decide +kernel

/-- Reading the digits of a number, highest first, gives the number. -/
theorem foldl_digits (n : Nat) :
    (((Nat.digits 58 n).map fun rem => valToChar (UInt8.ofNat rem)).reverse).foldl
      (fun bn c => bn * 58 + (charToVal c).toNat) 0 = n := by
  rw [List.foldl_reverse, List.foldr_map]
  conv_rhs => rw [← Nat.ofDigits_digits 58 n, Nat.ofDigits_eq_foldr]
  refine List.foldr_ext _ _ _ fun d hd acc => ?_
  rw [charToVal_valToChar d (Nat.digits_lt_base (by omega) hd), Nat.cast_id]
  ring

theorem head_digits_ne_zero (n : Nat) : ∀ d ∈ (Nat.digits 58 n).reverse.head?, d ≠ 0 := by
  intro d hd
  rw [List.head?_reverse] at hd
  have hne : Nat.digits 58 n ≠ [] := by
    intro hnil
    rw [hnil] at hd
    cases hd
  rw [List.getLast?_eq_some_getLast hne] at hd
  obtain rfl := Option.some.inj hd
  exact Nat.getLast_digit_ne_zero 58 (Nat.digits_ne_nil_iff_ne_zero.mp hne)

/-- The highest digit is not written as a `1`. -/
theorem head_digits_ne_one (n : Nat) :
    ∀ c ∈ (((Nat.digits 58 n).map fun rem => valToChar (UInt8.ofNat rem)).reverse).head?,
      c ≠ '1' := by
  intro c hc
  rw [← List.map_reverse, List.head?_map] at hc
  obtain ⟨d, hd, rfl⟩ := Option.map_eq_some_iff.mp hc
  have hmem : d ∈ Nat.digits 58 n := List.mem_reverse.mp (List.mem_of_mem_head? hd)
  exact valToChar_ne_one d (Nat.digits_lt_base (by omega) hmem) (head_digits_ne_zero n d hd)

/-! ## The round trip -/

theorem takeWhile_replicate_append {α : Type} [DecidableEq α] (x : α) (n : Nat) {l : List α}
    (h : ∀ c ∈ l.head?, c ≠ x) :
    (List.replicate n x ++ l).takeWhile (· = x) = List.replicate n x := by
  rw [List.takeWhile_append_of_pos (by simp)]
  cases l with
  | nil => simp
  | cons c l =>
    have hc : c ≠ x := h c rfl
    rw [List.takeWhile_cons_of_neg (by simpa using hc), List.append_nil]

theorem eq_replicate_append {α : Type} [DecidableEq α] (x : α) (l : List α) :
    ∃ n rest, l = List.replicate n x ++ rest ∧ ∀ c ∈ rest.head?, c ≠ x := by
  refine ⟨(l.takeWhile (· = x)).length, l.dropWhile (· = x), ?_, ?_⟩
  · have hx : l.takeWhile (· = x) = List.replicate (l.takeWhile (· = x)).length x :=
      List.eq_replicate_of_mem fun c hc => by simpa using List.mem_takeWhile_imp hc
    rw [← hx, List.takeWhile_append_dropWhile]
  · intro c hc
    have := List.head?_dropWhile_not (· = x) l
    rw [hc] at this
    simpa using this

/-- **Base58 round-trips** every byte string. -/
theorem decode_encode (binary : Bytes) : decode (encode binary) = binary := by
  by_cases hb : binary = []
  · subst hb
    decide
  obtain ⟨n, rest, rfl, hrest⟩ := eq_replicate_append 0 binary
  unfold decode encode
  simp only [if_neg hb]
  rw [takeWhile_replicate_append 0 n hrest, List.length_replicate,
    Der.octetsNat_replicate_append,
    takeWhile_replicate_append '1' n (head_digits_ne_one (Der.octetsNat rest)),
    List.length_replicate, List.drop_left' List.length_replicate, foldl_digits,
    Der.natOctets_octetsNat hrest]

/-! ## The other way round -/

theorem mem_encode {binary : Bytes} {c : Char} (h : c ∈ encode binary) : c ∈ b58Encoding := by
  unfold encode at h
  split at h
  · cases h
  · rcases List.mem_append.mp h with h | h
    · obtain ⟨-, rfl⟩ := List.mem_replicate.mp h
      decide
    · obtain ⟨d, hd, rfl⟩ := List.mem_map.mp (List.mem_reverse.mp h)
      exact valToChar_mem d (Nat.digits_lt_base (by omega) hd)

/-- The digits of the number read from a text of the alphabet that does not start with a `1`. -/
theorem digits_foldl {text : List Char} (h : ∀ c ∈ text, c ∈ b58Encoding)
    (hhead : ∀ c ∈ text.head?, c ≠ '1') :
    Nat.digits 58 (text.foldl (fun bn c => bn * 58 + (charToVal c).toNat) 0) =
      (text.map fun c => (charToVal c).toNat).reverse := by
  have hfold : text.foldl (fun bn c => bn * 58 + (charToVal c).toNat) 0 =
      Nat.ofDigits 58 (text.map fun c => (charToVal c).toNat).reverse := by
    rw [Nat.ofDigits_eq_foldr, List.foldr_reverse, List.foldl_map]
    refine List.foldl_ext _ _ _ fun bn c _ => ?_
    rw [Nat.cast_id]
    ring
  rw [hfold]
  refine Nat.digits_ofDigits 58 (by omega) _ (fun d hd => ?_) (fun hne => ?_)
  · obtain ⟨c, hc, rfl⟩ := List.mem_map.mp (List.mem_reverse.mp hd)
    exact charToVal_lt c (h c hc)
  · cases text with
    | nil => exact absurd rfl hne
    | cons c text =>
      simp only [List.map_cons, List.reverse_cons, List.getLast_append_singleton]
      exact charToVal_ne_zero c (h c List.mem_cons_self) (hhead c rfl)

/-- **Base58 round-trips** every text of its alphabet. -/
theorem encode_decode {text : List Char} (h : ∀ c ∈ text, c ∈ b58Encoding) :
    encode (decode text) = text := by
  obtain ⟨n, rest, rfl, hrest⟩ := eq_replicate_append '1' text
  have hmem : ∀ c ∈ rest, c ∈ b58Encoding := fun c hc => h c (List.mem_append_right _ hc)
  have hdigits := digits_foldl hmem hrest
  have hback : rest.map (fun c => valToChar (UInt8.ofNat (charToVal c).toNat)) = rest := by
    conv_rhs => rw [← List.map_id rest]
    refine List.map_congr_left fun c hc => ?_
    rw [UInt8.ofNat_toNat]
    exact valToChar_charToVal c (hmem c hc)
  unfold decode
  simp only
  rw [takeWhile_replicate_append '1' n hrest, List.length_replicate,
    List.drop_left' List.length_replicate]
  generalize rest.foldl (fun bn c => bn * 58 + (charToVal c).toNat) 0 = bn at hdigits
  unfold encode
  split
  · rename_i hnil
    -- no zeros and no octets: the text was empty
    obtain ⟨hzeros, hoctets⟩ := List.append_eq_nil_iff.mp hnil
    have hn : n = 0 := by simpa using hzeros
    have hbn : bn = 0 := by
      rw [← Der.octetsNat_natOctets bn, hoctets]
      rfl
    rw [hbn, Nat.digits_zero] at hdigits
    have hempty : rest = [] := by simpa using hdigits.symm
    rw [hn, hempty]
    rfl
  · simp only
    rw [takeWhile_replicate_append 0 n (Der.natOctets_head_ne_zero bn), List.length_replicate,
      Der.octetsNat_replicate_append, Der.octetsNat_natOctets, hdigits, List.map_reverse,
      List.reverse_reverse, List.map_map]
    exact congrArg _ hback

/-! ## The division loop -/

/-- The loop of `encode` that divides by 58, with the characters in the order it produces them. -/
def encodeLoop (bn : Nat) : List Char :=
  if bn = 0 then [] else valToChar (UInt8.ofNat (bn % 58)) :: encodeLoop (bn / 58)

/-- The loop produces the digits of the number, lowest first. -/
theorem encodeLoop_eq (bn : Nat) :
    encodeLoop bn = (Nat.digits 58 bn).map fun rem => valToChar (UInt8.ofNat rem) := by
  induction bn using Nat.strongRecOn with
  | ind bn ih =>
    rw [encodeLoop]
    by_cases h : bn = 0
    · rw [if_pos h, h, Nat.digits_zero, List.map_nil]
    · have hdigits : Nat.digits 58 bn = bn % 58 :: Nat.digits 58 (bn / 58) :=
        Nat.digits_def' (by omega) (Nat.pos_of_ne_zero h)
      rw [if_neg h, ih (bn / 58) (by omega), hdigits, List.map_cons]

/-- `encode` by the loop of the source. -/
theorem encode_eq_encodeLoop (binary : Bytes) :
    encode binary = List.replicate (binary.takeWhile (· = 0)).length '1' ++
      (encodeLoop (Der.octetsNat binary)).reverse := by
  rw [encodeLoop_eq]
  by_cases h : binary = []
  · subst h
    decide
  · unfold encode
    rw [if_neg h]

/-! ## The shape of an encoding -/

/-- `text` is the base-58 numeral of `n`: digits of the alphabet, the first of them not zero. -/
def IsNumeral (text : List Char) (n : Nat) : Prop :=
  ∃ digits : List Nat, text = digits.map (fun d => b58Encoding.getD d '\x00') ∧
    (∀ d ∈ digits, d < 58) ∧ (∀ d ∈ digits.head?, d ≠ 0) ∧
    digits.foldl (fun n d => n * 58 + d) 0 = n

theorem isNumeral_digits (n : Nat) :
    IsNumeral ((Nat.digits 58 n).map fun rem => valToChar (UInt8.ofNat rem)).reverse n := by
  have hlt : ∀ d ∈ Nat.digits 58 n, d < 58 := fun d hd => Nat.digits_lt_base (by omega) hd
  refine ⟨(Nat.digits 58 n).reverse, ?_, fun d hd => hlt d (List.mem_reverse.mp hd),
    head_digits_ne_zero n, ?_⟩
  · rw [List.map_reverse]
    refine congrArg List.reverse (List.map_congr_left fun d hd => ?_)
    unfold valToChar
    rw [UInt8.toNat_ofNat_of_lt' ((hlt d hd).trans (by decide))]
  · rw [List.foldl_reverse]
    conv_rhs => rw [← Nat.ofDigits_digits 58 n, Nat.ofDigits_eq_foldr]
    refine List.foldr_ext _ _ _ fun d _ acc => ?_
    rw [Nat.cast_id]
    ring

theorem dropWhile_replicate_append {α : Type} [DecidableEq α] (x : α) (n : Nat) {l : List α}
    (h : ∀ c ∈ l.head?, c ≠ x) : (List.replicate n x ++ l).dropWhile (· = x) = l := by
  have hsplit := List.takeWhile_append_dropWhile (p := (· = x)) (l := List.replicate n x ++ l)
  rw [takeWhile_replicate_append x n h] at hsplit
  exact List.append_cancel_left hsplit

/-- The `1`s in front of an encoding, and the numeral behind them. -/
theorem encode_shape (binary : Bytes) :
    ((encode binary).takeWhile (· = '1')).length = (binary.takeWhile (· = 0)).length ∧
      IsNumeral ((encode binary).dropWhile (· = '1')) (Der.octetsNat binary) := by
  have hhead := head_digits_ne_one (Der.octetsNat binary)
  rw [encode_eq_encodeLoop, encodeLoop_eq, takeWhile_replicate_append '1' _ hhead,
    dropWhile_replicate_append '1' _ hhead, List.length_replicate]
  exact ⟨rfl, isNumeral_digits _⟩

/-- **Base58 is a bijection** between the byte strings and the texts of its alphabet. Zero bytes in
front are written as `1`s, the rest is the numeral of the big-endian value. -/
theorem base58_bijection :
    (∀ binary, decode (encode binary) = binary) ∧
    (∀ binary, ∀ c ∈ encode binary, c ∈ b58Encoding) ∧
    (∀ text, (∀ c ∈ text, c ∈ b58Encoding) → encode (decode text) = text) ∧
    ∀ binary, ((encode binary).takeWhile (· = '1')).length = (binary.takeWhile (· = 0)).length ∧
      IsNumeral ((encode binary).dropWhile (· = '1')) (Der.octetsNat binary) :=
  ⟨decode_encode, fun _ _ => mem_encode, fun _ => encode_decode, encode_shape⟩

end Fluffycoin.Base58
