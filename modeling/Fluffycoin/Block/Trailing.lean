import Fluffycoin.Block.Der
import Fluffycoin.Block.Objects

/-!
# Bytes after the block

`block::decode` (`decode.cpp:6-48`) hands OpenSSL a pointer into the data and the number of bytes
and, when it gets a structure, returns true. Where the pointer stands then it does not look at.

`Item.ReadsFront` is what the `d2i` functions document: one value is parsed from the front of the
`len` bytes, and it takes those bytes that the pointer advanced over. `Ossl.der_within_readsFront`
shows that DER decoders that keep to `len` are such functions.

* `read_append`: what follows the value changes nothing as long as the cast of the new length to
  `int` still covers the value.
* `read_append_wrap`: there is always such a continuation: `2^32` more bytes leave the cast as it
  is.
* **`decode_accepts_trailing`**: for all four overloads, an input that is accepted is accepted with
  any bytes after it, up to `2^31` in all, and gives the same object; for no accepted input do all
  longer ones fail.
-/

namespace Fluffycoin

open Der

namespace Ossl

variable {α : Type}

/-- `d2i` parses one value from the front of its `len` bytes and advances past it. -/
structure Item.ReadsFront (it : Item α) : Prop where
  le_len : ∀ {d : Bytes} {len : Int} {v : α} {n : Nat},
    it.d2i d len = some (v, n) → (n : Int) ≤ len
  front : ∀ {d d' : Bytes} {len len' : Int} {v : α} {n : Nat}, it.d2i d len = some (v, n) →
    len ≤ d.length → d'.take n = d.take n → (n : Int) ≤ len' → len' ≤ d'.length →
      it.d2i d' len' = some (v, n)

/-- The items `block::decode` uses parse from the front. -/
structure OpenSsl.ReadsFront (o : OpenSsl) : Prop where
  hash : o.hash.ReadsFront
  genesis : o.genesis.ReadsFront
  reconciliation : o.reconciliation.ReadsFront
  block : o.block.ReadsFront

/-! ## Reading a longer input -/

theorem castInt_le (n : Nat) : castInt n ≤ n := by
  unfold castInt
  rw [Int.bmod_def]
  split <;> omega

theorem castInt_add_wrap (n : Nat) : castInt (n + 2 ^ 32) = castInt n := by
  unfold castInt
  rw [Nat.cast_add]
  exact Int.add_bmod_right _ _

variable {it : Item α} {d : Bytes} {v : α} {n : Nat}

/-- The value is read from a longer input if the cast of its length covers it. -/
theorem read_append (hit : it.ReadsFront) (h : it.d2i d (castInt d.length) = some (v, n))
    {x : Bytes} (hx : (n : Int) ≤ castInt (d ++ x).length) : it.read (d ++ x) = some v := by
  have hn : n ≤ d.length := by
    have := hit.le_len h
    have := castInt_le d.length
    omega
  have htake : (d ++ x).take n = d.take n := List.take_append_of_le_length hn
  unfold Item.read
  rw [hit.front h (castInt_le _) htake hx (castInt_le _), Option.map_some]

theorem read_append_of_lt (hit : it.ReadsFront) (h : it.read d = some v) {x : Bytes}
    (hx : (d ++ x).length < 2 ^ 31) : it.read (d ++ x) = some v := by
  obtain ⟨⟨v, n⟩, hd, rfl⟩ := Option.map_eq_some_iff.mp h
  refine read_append hit hd ?_
  have hn := hit.le_len hd
  have hd' := castInt_le d.length
  rw [castInt_of_lt hx, List.length_append]
  omega

/-- Some longer input is read, however long the input. -/
theorem read_append_wrap (hit : it.ReadsFront) (h : it.read d = some v) :
    it.read (d ++ List.replicate (2 ^ 32) 0) = some v := by
  obtain ⟨⟨v, n⟩, hd, rfl⟩ := Option.map_eq_some_iff.mp h
  refine read_append hit hd ?_
  rw [List.length_append, List.length_replicate, castInt_add_wrap]
  exact hit.le_len hd

/-! ## DER decoders parse from the front -/

/-- The item that looks at the first `len` bytes of its input and at no others. -/
def Item.within (it : Item α) : Item α where
  i2d := it.i2d
  d2i l len := if 0 ≤ len then it.d2i (l.take len.toNat) len else none

/-- `o` with the items of `block::decode` keeping to their length arguments. -/
def OpenSsl.within (o : OpenSsl) : OpenSsl :=
  { o with
    hash := o.hash.within
    genesis := o.genesis.within
    reconciliation := o.reconciliation.within
    block := o.block.within }

theorem Item.ofCodec_within_d2i {c : Codec α} (hc : c.ReadsFront) {l : Bytes} {len : Int} :
    (Item.ofCodec c).within.d2i l len = some (v, n) ↔
      0 ≤ len ∧ ∃ used rest, l.take len.toNat = used ++ rest ∧ n = used.length ∧
        ∀ rest', c.dec (used ++ rest') = some (v, rest') := by
  unfold Item.within Item.ofCodec
  constructor
  · intro h
    simp only at h
    split at h
    case isFalse => cases h
    case isTrue hlen =>
      obtain ⟨⟨a, rest⟩, hdec, ha⟩ := Option.map_eq_some_iff.mp h
      obtain ⟨rfl, hn⟩ := Prod.mk.inj ha
      obtain ⟨used, hl, hused⟩ := hc _ _ _ hdec
      refine ⟨hlen, used, rest, hl, ?_, hused⟩
      rw [← hn, hl, List.length_append, Nat.add_sub_cancel]
  · rintro ⟨hlen, used, rest, hl, rfl, hused⟩
    simp only [if_pos hlen, hl, hused, Option.map_some, List.length_append, Nat.add_sub_cancel]

theorem Item.ofCodec_within_readsFront {c : Codec α} (hc : c.ReadsFront) :
    (Item.ofCodec c).within.ReadsFront where
  le_len := by
    intro d len v n h
    obtain ⟨hlen, used, rest, hl, rfl, -⟩ := (Item.ofCodec_within_d2i hc).mp h
    have := congrArg List.length hl
    rw [List.length_take, List.length_append] at this
    omega
  front := by
    intro d d' len len' v n h hlen hd hn hlen'
    obtain ⟨-, used, rest, hl, rfl, hused⟩ := (Item.ofCodec_within_d2i hc).mp h
    have hfit : used.length ≤ len'.toNat := by omega
    have htake : d.take used.length = used := by
      have hle := congrArg List.length hl
      rw [List.length_take, List.length_append] at hle
      calc d.take used.length = (d.take len.toNat).take used.length := by
            rw [List.take_take, Nat.min_eq_left (by omega)]
        _ = used := by rw [hl, List.take_left]
    refine (Item.ofCodec_within_d2i hc).mpr ⟨by omega, used, (d'.take len'.toNat).drop used.length,
      ?_, rfl, hused⟩
    conv_lhs => rw [← List.take_append_drop used.length (d'.take len'.toNat)]
    rw [List.take_take, Nat.min_eq_left hfit, hd, htake]

/-- The alternatives of a block start with four different octets. -/
theorem blockCodec_readsFront : Asn1.Block.codec.ReadsFront := by
  have hr := alt_readsFront (tagged_readsFront 0xA2 Asn1.Reconciliation.fields)
    (tagged_readsFront 0xA3 Asn1.Node.fields) (tagged_startsIn _ _) (tagged_startsIn _ _)
    (by simp)
  have hrs := alt_startsIn (tagged_startsIn 0xA2 Asn1.Reconciliation.fields)
    (tagged_startsIn 0xA3 Asn1.Node.fields)
  have hg := alt_readsFront (tagged_readsFront 0xA1 Asn1.Genesis.fields) hr
    (tagged_startsIn _ _) hrs (by simp)
  have hgs := alt_startsIn (tagged_startsIn 0xA1 Asn1.Genesis.fields) hrs
  have hn := alt_readsFront (tagged_readsFront 0x05 Der.null) hg (tagged_startsIn _ _) hgs
    (by simp)
  exact hn.via _ _

/-- **DER decoders are such functions.** -/
theorem der_within_readsFront (sha2_256 sha3_256 : Bytes → Bytes) :
    (der sha2_256 sha3_256).within.ReadsFront where
  hash := Item.ofCodec_within_readsFront (tagged_readsFront _ _)
  genesis := Item.ofCodec_within_readsFront (tagged_readsFront _ _)
  reconciliation := Item.ofCodec_within_readsFront (tagged_readsFront _ _)
  block := Item.ofCodec_within_readsFront blockCodec_readsFront

end Ossl

open Fluffycoin.Ossl

/-! ## The four overloads -/

/-- No continuation of `d` is accepted. -/
def Exact {β : Type} (decode : Bytes → Option β) (d : Bytes) : Prop :=
  ∀ x, x ≠ [] → decode (d ++ x) = none

/-- What is accepted is accepted with more bytes after it, as the same object. -/
structure AcceptsTrailing {β : Type} (decode : Bytes → Option β) : Prop where
  of_lt : ∀ {d b}, decode d = some b → ∀ x, (d ++ x).length < 2 ^ 31 → decode (d ++ x) = some b
  not_exact : ∀ {d b}, decode d = some b → ¬ Exact decode d

theorem decodeItem_acceptsTrailing {α β : Type} {it : Item α} (hit : it.ReadsFront)
    (fromAsn1 : α → β) : AcceptsTrailing (decodeItem it fromAsn1) where
  of_lt := by
    intro d b h x hx
    obtain ⟨v, hv, rfl⟩ := Option.map_eq_some_iff.mp h
    unfold decodeItem
    rw [read_append_of_lt hit hv hx, Option.map_some]
  not_exact := by
    intro d b h hexact
    obtain ⟨v, hv, rfl⟩ := Option.map_eq_some_iff.mp h
    have hne : List.replicate (2 ^ 32) (0 : UInt8) ≠ [] := by
      rw [Ne, List.replicate_eq_nil_iff]
      decide
    have hnone := hexact _ hne
    unfold decodeItem at hnone
    rw [read_append_wrap hit hv] at hnone
    cases hnone

/-- **Every overload accepts what it accepts with bytes after it.** -/
theorem decode_accepts_trailing (o : OpenSsl) (ho : o.ReadsFront) :
    AcceptsTrailing (decodeHash o) ∧ AcceptsTrailing (decodeBlock o) ∧
      AcceptsTrailing (decodeGenesis o) ∧ AcceptsTrailing (decodeReconciliation o) :=
  ⟨decodeItem_acceptsTrailing ho.hash _, decodeItem_acceptsTrailing ho.block _,
    decodeItem_acceptsTrailing ho.genesis _, decodeItem_acceptsTrailing ho.reconciliation _⟩

theorem decode_accepts_trailing_der :
    AcceptsTrailing (decodeHash (der id id).within) ∧
      AcceptsTrailing (decodeBlock (der id id).within) ∧
      AcceptsTrailing (decodeGenesis (der id id).within) ∧
      AcceptsTrailing (decodeReconciliation (der id id).within) :=
  decode_accepts_trailing _ (der_within_readsFront id id)

/-- An empty block, and the same with one byte after it. -/
theorem decodeBlock_null_trailing :
    decodeBlock (der id id).within [5, 0] = some .none ∧
      decodeBlock (der id id).within ([5, 0] ++ [7]) = some .none :=
  ⟨rfl, rfl⟩

end Fluffycoin
