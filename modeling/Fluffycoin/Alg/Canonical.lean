import Fluffycoin.Alg.WalletFile

/-!
# Canonical address strings

`Address::verify` reads a string with two decoders that refuse nothing. `Base64::decode` takes the
characters of four alphabets, drops trailing `=` and skips the rest; `Base58::decode` takes every
character outside its alphabet for a zero digit. So one binary address has many strings, while
wallets compare strings.

`Canonical a`: the first eight characters are of the web alphabet and the others of the Base58
alphabet. Between strings of the two alphabets and their bytes both decoders are inverse to the
encoders (`Base64.encodeFrom_decodeFrom`, `Base58.encode_decode`), and the encoders write nothing
else, hence `printable_unprintable_iff`.

**`canonical_iff`**: an accepted string is the printed form of its address exactly when it is
canonical; that is also exactly when no other canonical string is accepted as the address, and when
a wallet finds the key stored under it by the printed form.
-/

namespace Fluffycoin

open Fluffycoin.Ossl

namespace Address

/-- The salt in the web alphabet, the rest in the Base58 alphabet. -/
def Canonical (address : List Char) : Prop :=
  (∀ ch ∈ address.take encodedSaltLength, ch ∈ Base64.webEncoding) ∧
    ∀ ch ∈ address.drop encodedSaltLength, ch ∈ Base58.b58Encoding

/-- A string for an address has more characters than its salt. -/
theorem lt_length_of_unprintable {a : List Char} (h : (unprintable a).length = length) :
    encodedSaltLength < a.length := by
  by_contra hle
  unfold unprintable at h
  rw [if_neg hle, List.append_nil] at h
  have hdec := Base64.length_decode_le (a.take (min encodedSaltLength a.length))
  have htake := List.length_take_le (min encodedSaltLength a.length) a
  simp only [encodedSaltLength, length] at *
  omega

theorem printable_of_length {x : Bytes} (h : x.length = length) :
    printable x = Base64.encode (x.take saltLength) ++ Base58.encode (x.drop saltLength) := by
  unfold printable
  rw [h, if_pos (by decide)]
  rfl

/-- **When a string is the printed form of the address it denotes.** -/
theorem printable_unprintable_iff {a : List Char} (h : (unprintable a).length = length) :
    printable (unprintable a) = a ↔ Canonical a := by
  have hlt := lt_length_of_unprintable h
  rw [printable_of_length h]
  constructor
  · intro he
    have hsalt : ((unprintable a).take saltLength).length = 6 := by
      rw [List.length_take, h]
      rfl
    have hlen : (Base64.encode ((unprintable a).take saltLength)).length = encodedSaltLength :=
      Base64.length_encode_six hsalt
    refine ⟨fun ch hch => ?_, fun ch hch => ?_⟩
    · rw [← he, List.take_left' hlen] at hch
      exact Base64.mem_encode hch
    · rw [← he, List.drop_left' hlen] at hch
      exact Base58.mem_encode hch
  · rintro ⟨hsalt, hrest⟩
    have htake : (a.take encodedSaltLength).length = 4 * 2 := by
      rw [List.length_take, Nat.min_eq_left hlt.le]
      rfl
    obtain ⟨henc, hdec⟩ := Base64.encodeFrom_decodeFrom 2 htake hsalt 0 0
    rw [show 3 * 2 = saltLength from rfl] at hdec
    have hun : unprintable a = Base64.decodeFrom 0 0 (a.take encodedSaltLength) ++
        Base58.decode (a.drop encodedSaltLength) := by
      unfold unprintable
      rw [if_pos hlt, Nat.min_eq_left hlt.le, Base64.decode_eq_decodeFrom]
    rw [hun, List.take_left' hdec, List.drop_left' hdec, Base58.encode_decode hrest]
    unfold Base64.encode
    rw [henc, List.take_append_drop]

theorem canonical_printable {x : Bytes} (h : x.length = length) : Canonical (printable x) := by
  have hun : unprintable (printable x) = x := unprintable_printable x
  rw [← printable_unprintable_iff (by rw [hun]; exact h), hun]

/-- The string is the only canonical one for its address. -/
def OnlyString (o : OpenSsl) (a : List Char) (publicKey : Bytes) : Prop :=
  ∀ b, verifyString o b publicKey = true → unprintable b = unprintable a → Canonical b → b = a

theorem onlyString_iff {o : OpenSsl} {a : List Char} {publicKey : Bytes}
    (h : verifyString o a publicKey = true) : OnlyString o a publicKey ↔ Canonical a := by
  have hlen := length_of_verify h
  have hsame : unprintable (printable (unprintable a)) = unprintable a := unprintable_printable _
  constructor
  · intro honly
    have hprinted := honly (printable (unprintable a))
      (by unfold verifyString; rw [hsame]; exact h) hsame (canonical_printable hlen)
    exact (printable_unprintable_iff hlen).mp hprinted
  · intro ha b hb hbin hcanon
    rw [← (printable_unprintable_iff (length_of_verify hb)).mpr hcanon, hbin]
    exact (printable_unprintable_iff hlen).mpr ha

end Address

namespace Alg.Wallet

variable {K : Type} {o : OpenSsl} {c : Keys K}

/-- `addKey` puts the key in front, under the string it got. -/
theorem addKey_of_true (hc : c.Laws) {w : Wallet} {d : Draws} {usage : KeyUsage} {key : K}
    {address : List Char} (h : (w.addKey o c d usage key address).1 = true) :
    ∃ e, Holds c (w.opened d).password e ⟨usage, key, address⟩ ∧
      (w.addKey o c d usage key address).2 = { w.opened d with keys := e :: w.keys } := by
  have hret : (w.addStep o c d usage key address).2 = some ⟨usage, key, address⟩ := by
    unfold addStep
    simp only [h, if_true]
  rcases addStep_cases (o := o) hc w d usage key address with he | he | ⟨e, hholds, he⟩
  · rw [he] at hret
    cases hret
  · rw [he] at hret
    cases hret
  · exact ⟨e, hholds, congrArg Prod.fst he⟩

/-- The key just added is found under the string it was added with, and only there if the wallet
has no other entry under the string asked for. -/
theorem getKey_addKey_iff (hc : c.Laws) {w : Wallet} {d : Draws} {usage : KeyUsage} {key : K}
    {address : List Char} (h : (w.addKey o c d usage key address).1 = true) {asked : List Char}
    (hfree : ∀ e ∈ w.keys, e.address ≠ asked) :
    (w.addKey o c d usage key address).2.getKey c asked = some key ↔ asked = address := by
  obtain ⟨e, hholds, he⟩ := addKey_of_true hc h
  have haddr : e.address = address := hholds.address
  unfold getKey
  rw [he]
  by_cases heq : asked = address
  · refine iff_of_true ?_ heq
    simp only [List.find?_cons, haddr, heq, decide_true]
    exact hholds.key
  · refine iff_of_false ?_ heq
    have hnone : (e :: w.keys).find? (fun entry => entry.address = asked) = none := by
      rw [List.find?_eq_none]
      intro x hx
      rcases List.mem_cons.mp hx with rfl | hx
      · simpa [haddr] using Ne.symm heq
      · simpa using hfree x hx
    simp only [hnone]
    simp

/-- **When an accepted string is canonical**, by the printed form of its address, by the other
strings for the address, and by what a wallet finds. -/
theorem canonical_iff (o : OpenSsl) (c : Keys K) (hc : c.Laws) (a : List Char) (key : K)
    (h : Address.verifyString o a (c.toPublic key) = true) :
    (Address.printable (Address.unprintable a) = a ↔ Address.Canonical a) ∧
    (Address.OnlyString o a (c.toPublic key) ↔ Address.Canonical a) ∧
    ∀ (w : Wallet) (d : Draws) (usage : KeyUsage),
      (w.addKey o c d usage key a).1 = true →
      (∀ e ∈ w.keys, e.address ≠ Address.printable (Address.unprintable a)) →
        ((w.addKey o c d usage key a).2.getKey c (Address.printable (Address.unprintable a)) =
          some key ↔ Address.Canonical a) := by
  have hprint := Address.printable_unprintable_iff (Address.length_of_verify h)
  refine ⟨hprint, Address.onlyString_iff h, fun w d usage hadd hfree => ?_⟩
  rw [getKey_addKey_iff hc hadd hfree]
  exact hprint

/-- A salt with a `+`, which the web alphabet writes as `-`, and twenty zero bytes. -/
def plusAddress : List Char :=
  ['+', 'A', 'A', 'A', 'A', 'A', 'A', 'A'] ++ List.replicate 20 '1'

theorem unprintable_plusAddress :
    Address.unprintable plusAddress = [248, 0, 0, 0, 0, 0] ++ List.replicate 20 0 := by
  decide +kernel

theorem verifyString_plusAddress :
    Address.verifyString zeroDigest plusAddress (plainKeys.toPublic zeroKey) = true := by
  unfold Address.verifyString
  rw [unprintable_plusAddress]
  rfl

theorem canonical_iff_plusAddress :
    (Address.printable (Address.unprintable plusAddress) = plusAddress ↔
      Address.Canonical plusAddress) ∧
    (Address.OnlyString zeroDigest plusAddress (plainKeys.toPublic zeroKey) ↔
      Address.Canonical plusAddress) ∧
    ∀ (w : Wallet) (d : Draws) (usage : KeyUsage),
      (w.addKey zeroDigest plainKeys d usage zeroKey plusAddress).1 = true →
      (∀ e ∈ w.keys, e.address ≠ Address.printable (Address.unprintable plusAddress)) →
        ((w.addKey zeroDigest plainKeys d usage zeroKey plusAddress).2.getKey plainKeys
            (Address.printable (Address.unprintable plusAddress)) = some zeroKey ↔
          Address.Canonical plusAddress) :=
  canonical_iff zeroDigest plainKeys plainKeys_laws plusAddress zeroKey verifyString_plusAddress

/-- It is accepted, and printed differently. -/
theorem plusAddress_not_canonical :
    Address.verifyString zeroDigest plusAddress (plainKeys.toPublic zeroKey) = true ∧
      Address.printable (Address.unprintable plusAddress) ≠ plusAddress := by
  refine ⟨verifyString_plusAddress, fun h => ?_⟩
  have hlen : (Address.unprintable plusAddress).length = Address.length := by
    rw [unprintable_plusAddress]
    rfl
  have hplus := ((Address.printable_unprintable_iff hlen).mp h).1 '+' (by decide)
  exact absurd hplus (by decide)

end Alg.Wallet

end Fluffycoin
