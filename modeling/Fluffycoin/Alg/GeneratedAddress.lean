import Fluffycoin.Alg.WalletFile
import Fluffycoin.Ossl.Prng

/-!
# Generated addresses

What the overloads of `Address::generate` (`Address.cpp:23-99`) have in common, and what a personal
salt does to the printed address.

* `generateFor` is `generate` by overload. The one for a `const char *` is the one for the string it
  ends in.
* `Certifies`: an address has its length, is verified for its key in both forms, and for a key with
  another hash in neither. Every generated address does this for the key it was generated for
  (`generated_certifies`), whatever is drawn to fill up the salt, so `makeNewKey` never fails the
  check of `addKey`.
* `salt_shows`: the characters of a printable salt are those the printed address starts with, up to
  eight of them. The salt is filled up to whole groups of four characters, which are whole groups of
  three bytes, so cutting or filling up the bytes leaves the groups of the salt alone.
* `mem_drawSalt_iff`: the characters of a drawn salt are those of Base58 without `z`, since
  `Prng::randInt` never returns its upper bound.
-/

namespace Fluffycoin.Address

open Fluffycoin.Ossl

/-! ## The overloads -/

/-- The salt given to `Address::generate`: none, a printable or a binary one. -/
inductive Salt where
  | none
  | printable (salt : List Char)
  | binary (salt : Bytes)
  deriving DecidableEq, Repr

/-- `Address::generate` by overload. -/
def generateFor (o : OpenSsl) (rand : Nat → Bytes) (randInt : Nat → UInt8) (publicKey : Bytes) :
    Salt → Bytes
  | .none => generateRandom o rand randInt publicKey
  | .printable salt => generatePrintable o rand randInt publicKey salt
  | .binary salt => generate o rand publicKey salt

/-- Each of them generates from some binary salt. -/
theorem generateFor_eq (o : OpenSsl) (rand : Nat → Bytes) (randInt : Nat → UInt8)
    (publicKey : Bytes) (salt : Salt) :
    ∃ binary, generateFor o rand randInt publicKey salt = generate o rand publicKey binary := by
  cases salt with
  | none => exact ⟨_, rfl⟩
  | printable salt => exact ⟨_, rfl⟩
  | binary salt => exact ⟨salt, rfl⟩

/-- The address stands for the key, and for no key with another hash. -/
structure Certifies (o : OpenSsl) (address publicKey : Bytes) : Prop where
  length : address.length = Address.length
  binary : verify o address publicKey = true
  printed : verifyString o (printable address) publicKey = true
  others : ∀ other, truncatedHash o other (address.take saltLength) ≠
      truncatedHash o publicKey (address.take saltLength) →
    verify o address other = false ∧ verifyString o (printable address) other = false

theorem certifies_generate {o : OpenSsl}
    (hsha : ∀ data, truncatedHashLen ≤ (o.sha2_256 data).length) {rand : Nat → Bytes}
    (hrand : ∀ n, (rand n).length = n) (publicKey salt : Bytes) :
    Certifies o (generate o rand publicKey salt) publicKey := by
  have hverify := verify_generate hsha hrand publicKey salt
  refine ⟨length_of_verify hverify, hverify, verifyString_printable hverify, fun other hne => ?_⟩
  have hsalt := length_fillSalt hrand salt
  have hreject : verify o (generate o rand publicKey salt) other = false := by
    rw [generate_eq hrand] at hne ⊢
    rw [List.take_left' hsalt] at hne
    rw [← Bool.not_eq_true, verify_append_iff hsalt (length_truncatedHash hsha _)]
    exact fun heq => hne heq.symm
  refine ⟨hreject, ?_⟩
  unfold verifyString
  rw [unprintable_printable]
  exact hreject

/-- **Generated addresses print, parse and verify**, for every salt and every draw. -/
theorem generated_certifies (o : OpenSsl) (hsha : ∀ data, (o.sha2_256 data).length = 32) :
    (∀ address, unprintable (printable address) = address) ∧
    (∀ rand : Nat → Bytes, (∀ n, (rand n).length = n) → ∀ randInt publicKey salt,
      Certifies o (generateFor o rand randInt publicKey salt) publicKey) ∧
    ∀ (K : Type) (c : Keys K) (d : Alg.Wallet.Draws) (key : K) (addressSalt : List Char),
      verifyString o (Alg.Wallet.newAddress o c d key addressSalt) (c.toPublic key) = true := by
  have hlen : ∀ data, truncatedHashLen ≤ (o.sha2_256 data).length := by
    intro data
    rw [hsha]
    decide
  refine ⟨unprintable_printable, fun rand hrand randInt publicKey salt => ?_,
    fun K c d key addressSalt => Alg.Wallet.verify_newAddress hlen d key addressSalt⟩
  obtain ⟨binary, heq⟩ := generateFor_eq o rand randInt publicKey salt
  rw [heq]
  exact certifies_generate hlen hrand publicKey binary

/-- Digests that are the first 32 bytes of what is hashed. -/
def firstBytes : OpenSsl :=
  der (fun data => (data ++ List.replicate 32 0).take 32)
    (fun data => (data ++ List.replicate 32 0).take 32)

theorem length_firstBytes (data : Bytes) : (firstBytes.sha2_256 data).length = 32 := by
  show ((data ++ List.replicate 32 0).take 32).length = 32
  rw [List.length_take, List.length_append, List.length_replicate]
  omega

/-- Two keys with one byte each: the address of the first is not one of the second. -/
theorem generated_certifies_firstBytes :
    (∀ data, (firstBytes.sha2_256 data).length = 32) ∧
      truncatedHash firstBytes [2] (List.replicate 6 7) ≠
        truncatedHash firstBytes [1] (List.replicate 6 7) ∧
      Certifies firstBytes (generateFor firstBytes (List.replicate · 0) (fun _ => 0) [1]
        (.binary (List.replicate 6 7))) [1] :=
  ⟨length_firstBytes, by decide +kernel,
    (generated_certifies firstBytes length_firstBytes).2.1 (List.replicate · 0)
      (fun _ => List.length_replicate) _ _ _⟩

/-! ## A personal salt -/

/-- A printable salt filled up to whole groups. -/
def padSalt (randInt : Nat → UInt8) (salt : List Char) : List Char :=
  if salt.length % 4 ≠ 0 then salt ++ randomSalt randInt (4 - salt.length % 4) else salt

theorem generatePrintable_eq (o : OpenSsl) (rand : Nat → Bytes) (randInt : Nat → UInt8)
    (publicKey : Bytes) (salt : List Char) :
    generatePrintable o rand randInt publicKey salt =
      generate o rand publicKey (Base64.decode (padSalt randInt salt)) := rfl

theorem length_randomSalt (randInt : Nat → UInt8) (n : Nat) :
    (randomSalt randInt n).length = n := by
  unfold randomSalt
  rw [List.length_map, List.length_range]

theorem valToChar_mem_webEncoding :
    ∀ d < 58, Base58.valToChar (UInt8.ofNat d) ∈ Base64.webEncoding := by
  decide +kernel

/-- The characters drawn are of the web alphabet. -/
theorem mem_randomSalt {randInt : Nat → UInt8} (hdraw : ∀ n, randInt n ≤ 57) {n : Nat} {c : Char}
    (h : c ∈ randomSalt randInt n) : c ∈ Base64.webEncoding := by
  obtain ⟨i, -, rfl⟩ := List.mem_map.mp h
  have hlt : (randInt i).toNat < 58 := Nat.lt_succ_of_le (UInt8.le_iff_toNat_le.mp (hdraw i))
  have hmem := valToChar_mem_webEncoding (randInt i).toNat hlt
  rwa [UInt8.ofNat_toNat] at hmem

/-- The filled up salt starts with the salt and consists of whole groups of the web alphabet. -/
theorem padSalt_spec {randInt : Nat → UInt8} (hdraw : ∀ n, randInt n ≤ 57) {salt : List Char}
    (hsalt : ∀ c ∈ salt, c ∈ Base64.webEncoding) :
    (∃ fill, padSalt randInt salt = salt ++ fill) ∧
      (∃ k, (padSalt randInt salt).length = 4 * k) ∧
      ∀ c ∈ padSalt randInt salt, c ∈ Base64.webEncoding := by
  unfold padSalt
  by_cases hmod : salt.length % 4 ≠ 0
  · rw [if_pos hmod]
    refine ⟨⟨_, rfl⟩, ⟨salt.length / 4 + 1, ?_⟩, fun c hc => ?_⟩
    · rw [List.length_append, length_randomSalt]
      omega
    · rcases List.mem_append.mp hc with hc | hc
      · exact hsalt c hc
      · exact mem_randomSalt hdraw hc
  · rw [if_neg hmod]
    exact ⟨⟨[], (List.append_nil salt).symm⟩, ⟨salt.length / 4, by omega⟩, hsalt⟩

/-- Whole groups of characters, decoded, cut or filled up to six bytes and encoded again, start with
the same characters. -/
theorem take_encode_fillSalt {rand : Nat → Bytes} {text : List Char} {k j : Nat}
    (hlen : text.length = 4 * k) (htext : ∀ c ∈ text, c ∈ Base64.webEncoding)
    (hj : j ≤ 8) (hjk : j ≤ 4 * k) :
    (Base64.encode (fillSalt rand (Base64.decode text))).take j = text.take j := by
  obtain ⟨henc, hdec⟩ := Base64.encodeFrom_decodeFrom k hlen htext 0 0
  rw [← Base64.decode_eq_decodeFrom] at henc hdec
  -- `p` is what the decoded bytes and the six bytes have in common
  obtain ⟨p, hp⟩ : ∃ p, p = (Base64.decode text).take (3 * min 2 k) := ⟨_, rfl⟩
  have hplen : p.length = 3 * min 2 k := by
    rw [hp, List.length_take, hdec]
    omega
  have hsix : (Base64.decode text).take saltLength = p := by
    rw [hp, List.take_eq_take_iff, hdec]
    simp only [saltLength]
    omega
  obtain ⟨hchars, v, happend⟩ := Base64.encodeFrom_append (min 2 k) hplen 0
  have hle : j ≤ (Base64.encodeFrom 0 0 p).length := by
    rw [hchars]
    omega
  have hfill : Base64.encode (fillSalt rand (Base64.decode text)) =
      Base64.encodeFrom 0 0 p ++
        Base64.encodeFrom 0 v (rand (saltLength - (Base64.decode text).length)) := by
    unfold Base64.encode fillSalt
    rw [hsix, happend]
  have hwhole : text =
      Base64.encodeFrom 0 0 p ++
        Base64.encodeFrom 0 v ((Base64.decode text).drop (3 * min 2 k)) := by
    rw [← happend, hp, List.take_append_drop, henc]
  rw [hfill, List.take_append_of_le_length hle]
  conv_rhs => rw [hwhole, List.take_append_of_le_length hle]

/-- **A personal salt shows at the front of the address**, up to eight characters of it. -/
theorem salt_shows (o : OpenSsl) (publicKey : Bytes) (salt : List Char)
    (hsalt : ∀ c ∈ salt, c ∈ Base64.webEncoding) (rand : Nat → Bytes)
    (hrand : ∀ n, (rand n).length = n) (randInt : Nat → UInt8) (hdraw : ∀ n, randInt n ≤ 57) :
    (printable (generatePrintable o rand randInt publicKey salt)).take (min 8 salt.length) =
      salt.take (min 8 salt.length) := by
  obtain ⟨⟨fill, hpad⟩, ⟨k, hlen⟩, hmem⟩ := padSalt_spec hdraw hsalt
  have hsix := length_fillSalt hrand (Base64.decode (padSalt randInt salt))
  have hle : salt.length ≤ 4 * k := by
    rw [← hlen, hpad, List.length_append]
    omega
  have hfront : (printable (generatePrintable o rand randInt publicKey salt)).take
        (min 8 salt.length) =
      (Base64.encode (fillSalt rand (Base64.decode (padSalt randInt salt)))).take
        (min 8 salt.length) := by
    have hmin : ∀ hash : Bytes, min saltLength (saltLength + hash.length) = saltLength :=
      fun hash => Nat.min_eq_left (Nat.le_add_right _ _)
    rw [generatePrintable_eq, generate_eq hrand]
    unfold printable
    rw [List.length_append, hsix, hmin, List.take_left' hsix, List.take_append_of_le_length]
    rw [Base64.length_encode_six hsix]
    exact Nat.min_le_left _ _
  rw [hfront, take_encode_fillSalt hlen hmem (Nat.min_le_left _ _)
    ((Nat.min_le_right _ _).trans hle), hpad,
    List.take_append_of_le_length (Nat.min_le_right _ _)]

theorem salt_shows_three :
    (printable (generatePrintable firstBytes (List.replicate · 0) (fun _ => 5) [1]
        ['a', '-', '_'])).take 3 = ['a', '-', '_'] :=
  salt_shows firstBytes [1] ['a', '-', '_'] (List.all_iff_forall_prop.mp (by decide))
    (List.replicate · 0) (fun _ => List.length_replicate) (fun _ => 5) (fun _ => by decide)

/-! ## A drawn salt -/

/-- The loop that draws the characters of a salt (`Address.cpp:28-29,47-48`), with the words left;
`none` if the words do not suffice. -/
def drawSalt : Nat → List UInt32 → Option (List Char × List UInt32)
  | 0, words => some ([], words)
  | n + 1, words => do
    let (ret, words) ← Prng.randInt 0 57 words
    let (salt, words) ← drawSalt n words
    return (Base58.valToChar ret.toUInt8 :: salt, words)

/-- A drawn salt is a random one, of values below 57. -/
theorem exists_randomSalt {n : Nat} {words rest : List UInt32} {salt : List Char}
    (h : drawSalt n words = some (salt, rest)) :
    ∃ randInt : Nat → UInt8, (∀ i, (randInt i).toNat < 57) ∧ salt = randomSalt randInt n := by
  induction n generalizing words salt with
  | zero =>
    cases h
    exact ⟨fun _ => 0, fun _ => (by decide : (0 : UInt8).toNat < 57), rfl⟩
  | succ n ih =>
    obtain ⟨⟨ret, left⟩, hret, h⟩ := Option.bind_eq_some_iff.mp h
    obtain ⟨⟨salt', left'⟩, hsalt, h⟩ := Option.bind_eq_some_iff.mp h
    cases h
    obtain ⟨randInt, hlt, rfl⟩ := ih hsalt
    have hret57 : ret.toUInt8.toNat < 57 := by
      have hbetween := (Prng.randInt_between (by decide) hret).2
      rw [UInt32.lt_iff_toNat_lt] at hbetween
      rw [UInt32.toNat_toUInt8]
      exact Nat.lt_of_le_of_lt (Nat.mod_le _ _) hbetween
    refine ⟨fun i => Nat.casesOn i ret.toUInt8 randInt, fun i => ?_, ?_⟩
    · cases i with
      | zero => exact hret57
      | succ i => exact hlt i
    · unfold randomSalt
      rw [List.range_succ_eq_map, List.map_cons, List.map_map]
      rfl

/-- Words below 57 are the values drawn. -/
theorem drawSalt_replicate {d : UInt32} (hd : d < 57) (n : Nat) :
    drawSalt n (List.replicate n d) =
      some (List.replicate n (Base58.valToChar d.toUInt8), []) := by
  induction n with
  | zero => rfl
  | succ n ih =>
    rw [List.replicate_succ, drawSalt, Prng.randInt_zero_cons hd]
    simp [ih, List.replicate_succ]

theorem mem_b58Encoding_iff {c : Char} :
    c ∈ Base58.b58Encoding ∧ c ≠ 'z' ↔ ∃ d < 57, c = Base58.valToChar (UInt8.ofNat d) := by
  constructor
  · rintro ⟨hmem, hz⟩
    have hlt : ∀ c ∈ Base58.b58Encoding, c ≠ 'z' → (Base58.charToVal c).toNat < 57 :=
      List.all_iff_forall_prop.mp (by decide)
    refine ⟨(Base58.charToVal c).toNat, hlt c hmem hz, ?_⟩
    rw [UInt8.ofNat_toNat, Base58.valToChar_charToVal c hmem]
  · rintro ⟨d, hd, rfl⟩
    have hne : ∀ d < 57, Base58.valToChar (UInt8.ofNat d) ≠ 'z' := by decide
    exact ⟨Base58.valToChar_mem d (Nat.lt_succ_of_lt hd), hne d hd⟩

/-- **Which characters can be drawn for a salt**: all of Base58 but the last one. -/
theorem mem_drawSalt_iff {c : Char} :
    (∃ words salt rest, drawSalt encodedSaltLength words = some (salt, rest) ∧ c ∈ salt) ↔
      c ∈ Base58.b58Encoding ∧ c ≠ 'z' := by
  rw [mem_b58Encoding_iff]
  constructor
  · rintro ⟨words, salt, rest, hsalt, hc⟩
    obtain ⟨randInt, hlt, rfl⟩ := exists_randomSalt hsalt
    obtain ⟨i, -, rfl⟩ := List.mem_map.mp hc
    exact ⟨(randInt i).toNat, hlt i, by rw [UInt8.ofNat_toNat]⟩
  · rintro ⟨d, hd, rfl⟩
    have htoNat : (UInt32.ofNat d).toNat = d := UInt32.toNat_ofNat_of_lt' (hd.trans (by decide))
    have hlt : UInt32.ofNat d < 57 := by
      rw [UInt32.lt_iff_toNat_lt, htoNat]
      exact hd
    have hchar : (UInt32.ofNat d).toUInt8 = UInt8.ofNat d := by
      rw [← UInt8.toNat_inj, UInt32.toNat_toUInt8, htoNat, UInt8.toNat_ofNat']
    refine ⟨_, _, _, drawSalt_replicate hlt encodedSaltLength, ?_⟩
    rw [hchar]
    exact List.mem_replicate.mpr ⟨by decide, rfl⟩

/-- **`randInt` is uniform on no interval**: its upper bound is returned for no word, and its lower
bound for one word more than the numbers between. So the salt of an address has no `z`. -/
theorem randInt_never_uniform (min max : UInt32) (h : min < max) :
    ¬ Prng.Uniform min max ∧
    (∀ ret, min ≤ ret → ret < max →
      (Prng.returning min max ret).ncard =
        Prng.uintMax / (max - min).toNat + if ret = min then 1 else 0) ∧
    Prng.returning min max max = ∅ ∧
    (∀ words ret rest, Prng.randInt min max words = some (ret, rest) → min ≤ ret ∧ ret < max) ∧
    ∀ c, (∃ words salt rest, drawSalt encodedSaltLength words = some (salt, rest) ∧ c ∈ salt) ↔
      c ∈ Base58.b58Encoding ∧ c ≠ 'z' := by
  refine ⟨Prng.not_uniform h, fun ret => Prng.ncard_returning h, Prng.returning_max h, ?_,
    fun c => mem_drawSalt_iff⟩
  intro words ret rest
  exact Prng.randInt_between h

/-- Of all words, one more gives 0 than 1. -/
theorem randInt_never_uniform_two :
    (0 : UInt32) < 2 ∧ ¬ Prng.Uniform 0 2 ∧
      (Prng.returning 0 2 0).ncard = 2147483648 ∧ (Prng.returning 0 2 1).ncard = 2147483647 := by
  obtain ⟨huniform, hcard, -⟩ := randInt_never_uniform 0 2 (by decide)
  exact ⟨by decide, huniform, hcard 0 (by decide) (by decide), hcard 1 (by decide) (by decide)⟩

/-- No word gives the value of the last character of Base58. -/
theorem base58_not_uniform : Prng.returning 0 57 57 = ∅ ∧ ¬ Prng.Uniform 0 57 :=
  ⟨Prng.returning_max (by decide), Prng.not_uniform (by decide)⟩

end Fluffycoin.Address
