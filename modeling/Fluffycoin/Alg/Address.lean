import Fluffycoin.Alg.Base58
import Fluffycoin.Block.Asn1
import Fluffycoin.Utils.Base64

/-!
# Addresses

Model of `src/alg/Address.{h,cpp}`. An address is 26 bytes: a salt of six, then twenty bytes of a
hash over the salt and a public key. In print the salt is Base64 and the rest Base58.

An `EVP_PKEY` is the public key it serialises to (`Curve25519::toPublic`). `generate` draws the
bytes missing from a short salt from `ossl::Prng`, a parameter; `verify` calls it with a full salt,
for which none are drawn. The overloads for a printable salt draw its missing characters as values
of `Prng::randInt`, the `n`-th draw being `randInt n`.

A generated address is the salt, cut or filled up to six bytes, and the hash for it
(`generate_eq`); `verify` accepts it for the keys with that hash and no others
(`verify_append_iff`). `unprintable_printable`: a byte string of any length survives being printed
and read.
-/

namespace Fluffycoin.Address

open Fluffycoin.Ossl

/-- `Address::SALT_LENGTH`. -/
def saltLength : Nat := 6

/-- `Address::LENGTH`. -/
def length : Nat := 26

/-- `ENCODED_SALT_LENGTH`. -/
def encodedSaltLength : Nat := 8

/-- `TRUNCATED_HASH_LEN`. -/
def truncatedHashLen : Nat := 20

/-- `Address::generate(const EVP_PKEY &, const BinData &)` (`Address.cpp:56-99`). -/
def generate (o : OpenSsl) (rand : Nat → Bytes) (publicKey salt : Bytes) : Bytes :=
  let paddedSalt :=
    if saltLength < salt.length then salt.take saltLength
    else if salt.length < saltLength then salt ++ rand (saltLength - salt.length)
    else salt
  let sha3 := o.sha3_256 (paddedSalt ++ publicKey)
  let sha2 := o.sha2_256 (paddedSalt ++ sha3)
  paddedSalt ++ sha2.take truncatedHashLen

/-- Characters drawn for a printable salt. -/
def randomSalt (randInt : Nat → UInt8) (n : Nat) : List Char :=
  (List.range n).map fun ui => Base58.valToChar (randInt ui)

/-- `Address::generate(const EVP_PKEY &, const std::string &)` (`Address.cpp:39-54`): the salt is
filled up to whole groups of Base64. -/
def generatePrintable (o : OpenSsl) (rand : Nat → Bytes) (randInt : Nat → UInt8)
    (publicKey : Bytes) (printableSalt : List Char) : Bytes :=
  let paddedSalt :=
    if printableSalt.length % 4 ≠ 0 then
      printableSalt ++ randomSalt randInt (4 - printableSalt.length % 4)
    else printableSalt
  generate o rand publicKey (Base64.decode paddedSalt)

/-- `Address::generate(const EVP_PKEY &)` (`Address.cpp:23-32`). -/
def generateRandom (o : OpenSsl) (rand : Nat → Bytes) (randInt : Nat → UInt8)
    (publicKey : Bytes) : Bytes :=
  generatePrintable o rand randInt publicKey (randomSalt randInt encodedSaltLength)

/-- `Address::verify(const BinData &, const EVP_PKEY &)` (`Address.cpp:101-112`). -/
def verify (o : OpenSsl) (address publicKey : Bytes) : Bool :=
  if address.length ≠ length then false
  else
    let salt := address.take saltLength
    let newAddress := generate o (fun _ => []) publicKey salt
    address = newAddress

/-- `Address::printable` (`Address.cpp:119-127`). -/
def printable (address : Bytes) : List Char :=
  Base64.encode (address.take (min saltLength address.length)) ++
    if saltLength < address.length then Base58.encode (address.drop saltLength) else []

/-- `Address::unprintable` (`Address.cpp:129-137`). -/
def unprintable (address : List Char) : Bytes :=
  Base64.decode (address.take (min encodedSaltLength address.length)) ++
    if encodedSaltLength < address.length then Base58.decode (address.drop encodedSaltLength)
    else []

/-- `Address::verify(const std::string &, const EVP_PKEY &)` (`Address.cpp:114-117`). -/
def verifyString (o : OpenSsl) (address : List Char) (publicKey : Bytes) : Bool :=
  verify o (unprintable address) publicKey

/-! ## Generated addresses -/

/-- What follows the salt in an address for a key. -/
def truncatedHash (o : OpenSsl) (publicKey salt : Bytes) : Bytes :=
  (o.sha2_256 (salt ++ o.sha3_256 (salt ++ publicKey))).take truncatedHashLen

section Generate

variable {o : OpenSsl} {publicKey : Bytes}

theorem length_truncatedHash (hsha : ∀ data, truncatedHashLen ≤ (o.sha2_256 data).length)
    (salt : Bytes) : (truncatedHash o publicKey salt).length = truncatedHashLen := by
  unfold truncatedHash
  rw [List.length_take, Nat.min_eq_left (hsha _)]

theorem generate_of_length (rand : Nat → Bytes) {salt : Bytes} (h : salt.length = saltLength) :
    generate o rand publicKey salt = salt ++ truncatedHash o publicKey salt := by
  simp only [generate, truncatedHash, h, lt_irrefl, if_false]

/-- The six bytes a salt is cut or filled up to. -/
def fillSalt (rand : Nat → Bytes) (salt : Bytes) : Bytes :=
  salt.take saltLength ++ rand (saltLength - salt.length)

variable {rand : Nat → Bytes} (hrand : ∀ n, (rand n).length = n)
include hrand

theorem length_fillSalt (salt : Bytes) : (fillSalt rand salt).length = saltLength := by
  unfold fillSalt
  rw [List.length_append, List.length_take, hrand]
  omega

theorem generate_eq (salt : Bytes) :
    generate o rand publicKey salt =
      fillSalt rand salt ++ truncatedHash o publicKey (fillSalt rand salt) := by
  have hnone : rand 0 = [] := List.length_eq_zero_iff.mp (hrand 0)
  have hfill : (if saltLength < salt.length then salt.take saltLength
      else if salt.length < saltLength then salt ++ rand (saltLength - salt.length)
      else salt) = fillSalt rand salt := by
    unfold fillSalt
    split_ifs with hlong hshort
    · rw [Nat.sub_eq_zero_of_le hlong.le, hnone, List.append_nil]
    · rw [List.take_of_length_le hshort.le]
    · have hlen : salt.length = saltLength := by omega
      rw [List.take_of_length_le hlen.le, hlen, Nat.sub_self, hnone, List.append_nil]
  unfold generate truncatedHash
  simp only [hfill]

end Generate

theorem length_of_verify {o : OpenSsl} {address publicKey : Bytes}
    (h : verify o address publicKey = true) : address.length = length := by
  unfold verify at h
  by_contra hne
  rw [if_pos hne] at h
  cases h

/-- `verify` compares what follows the salt with the hash for the key. -/
theorem verify_append_iff {o : OpenSsl} {salt hash publicKey : Bytes}
    (hsalt : salt.length = saltLength) (hhash : hash.length = truncatedHashLen) :
    verify o (salt ++ hash) publicKey = true ↔ hash = truncatedHash o publicKey salt := by
  have hlen : (salt ++ hash).length = length := by
    rw [List.length_append, hsalt, hhash]
    rfl
  unfold verify
  rw [if_neg (not_not.mpr hlen)]
  simp only [List.take_left' hsalt, generate_of_length _ hsalt, decide_eq_true_eq,
    List.append_cancel_left_eq]

/-- What is generated is verified, and has the length of an address. -/
theorem verify_generate {o : OpenSsl} (hsha : ∀ data, truncatedHashLen ≤ (o.sha2_256 data).length)
    {rand : Nat → Bytes} (hrand : ∀ n, (rand n).length = n) (publicKey salt : Bytes) :
    verify o (generate o rand publicKey salt) publicKey = true := by
  rw [generate_eq hrand]
  exact (verify_append_iff (length_fillSalt hrand salt) (length_truncatedHash hsha _)).mpr rfl

/-! ## Print -/

theorem encode_ne_nil {binary : Bytes} (h : binary ≠ []) : Base58.encode binary ≠ [] := by
  intro h'
  have := Base58.decode_encode binary
  rw [h'] at this
  exact h (this.symm.trans (by decide))

/-- **A byte string survives being printed and read**, an address or not. -/
theorem unprintable_printable (address : Bytes) : unprintable (printable address) = address := by
  unfold printable
  by_cases hrest : saltLength < address.length
  · have hsalt : (address.take saltLength).length = saltLength := by
      rw [List.length_take, Nat.min_eq_left hrest.le]
    have hlen : (Base64.encode (address.take saltLength)).length = encodedSaltLength :=
      Base64.length_encode_six hsalt
    have hdrop : address.drop saltLength ≠ [] := by
      intro hnil
      have := congrArg List.length hnil
      rw [List.length_drop, List.length_nil] at this
      omega
    have hpos : 0 < (Base58.encode (address.drop saltLength)).length :=
      List.length_pos_of_ne_nil (encode_ne_nil hdrop)
    rw [Nat.min_eq_left hrest.le, if_pos hrest]
    unfold unprintable
    rw [if_pos (by rw [List.length_append, hlen]; omega),
      Nat.min_eq_left (by rw [List.length_append, hlen]; omega), List.take_left' hlen,
      List.drop_left' hlen, Base64.decode_encode, Base58.decode_encode, List.take_append_drop]
  · -- all of it is in the part for the salt
    have hle : (Base64.encode address).length ≤ encodedSaltLength := by
      have h := Base64.six_mul_length_encodeFrom_le 0 0 address
      simp only [saltLength, encodedSaltLength, Base64.encode] at hrest ⊢
      omega
    have htake : address.take (min saltLength address.length) = address :=
      List.take_of_length_le (by omega)
    rw [htake, if_neg hrest, List.append_nil]
    unfold unprintable
    rw [Nat.min_eq_right hle, List.take_length, if_neg (not_lt.mpr hle), List.append_nil,
      Base64.decode_encode]

/-- The printed form of a verified address is verified. -/
theorem verifyString_printable {o : OpenSsl} {address publicKey : Bytes}
    (h : verify o address publicKey = true) :
    verifyString o (printable address) publicKey = true := by
  unfold verifyString
  rw [unprintable_printable]
  exact h

theorem printable_injective {a b : Bytes} (h : printable a = printable b) : a = b := by
  rw [← unprintable_printable a, h, unprintable_printable]

end Fluffycoin.Address
