import Fluffycoin.Block.Asn1
import Fluffycoin.Der.Codec

/-!
# The templates of `src/block` in DER

The distinguished encoding of every template of `Fluffycoin.Block.Asn1`, put together from the
combinators of `Fluffycoin.Der.Codec` in template order, and the `OpenSsl` made of them
(`Ossl.der`). `Ossl.der_roundTrips` shows that it meets `OpenSsl.RoundTrips`: the assumption the
results about blocks rest on is what DER gives.

The digests are parameters. `d2i` takes the length of the input from the input itself.
-/

namespace Fluffycoin

open Der

namespace Asn1

/-! ## Strings and integers -/

/-- The content octets of a string type. -/
def Str.content : Content Str :=
  octets.via Str.data fun l => if h : l.length < 2 ^ 31 - 1 then some ⟨l, h⟩ else none

/-- `ASN1_OCTET_STRING`. -/
def Str.octetString : Codec Str := Str.content.tagged 0x04

/-- `ASN1_UTF8STRING`. -/
def Str.utf8String : Codec Str := Str.content.tagged 0x0C

/-- `ASN1_INTEGER`. -/
def integer : Codec Int := Der.integer.tagged 0x02

theorem Str.content_readsBack : Str.content.ReadsBack (· = ·) :=
  octets_readsBack.via_eq fun s => dif_pos s.length_lt

theorem Str.octetString_readsBack : Str.octetString.ReadsBack (· = ·) :=
  Str.content_readsBack.tagged _

theorem Str.utf8String_readsBack : Str.utf8String.ReadsBack (· = ·) :=
  Str.content_readsBack.tagged _

theorem integer_readsBack : Asn1.integer.ReadsBack (· = ·) := Der.integer_readsBack.tagged _

/-! ## The templates -/

def Hash.codec : Codec Hash :=
  ((pair Str.octetString Str.octetString).body.via (fun t => (t.sha2, t.sha3))
    fun p => some ⟨p.1, p.2⟩).tagged 0x30

def Specie.codec : Codec Specie :=
  ((pair integer integer).body.via (fun t => (t.coins, t.fluffs))
    fun p => some ⟨p.1, p.2⟩).tagged 0x30

def Genesis.fields : Content Genesis :=
  (pair integer <| pair Str.utf8String <| pair integer <| pair integer <| pair Str.octetString <|
    pair Str.octetString <| pair Str.octetString <| pair Specie.codec Str.octetString).body.via
    (fun t => (t.protocol, t.name, t.version, t.creation, t.creator, t.validatorKey,
      t.stakeAddress, t.greed, t.seed))
    fun (protocol, name, version, creation, creator, validatorKey, stakeAddress, greed, seed) =>
      some { protocol, name, version, creation, creator, validatorKey, stakeAddress, greed, seed }

def Validation.codec : Codec Validation :=
  ((pair (boolean.tagged 0x01) <| pair Str.octetString Str.octetString).body.via
    (fun t => (t.verified, t.authAddress, t.signature))
    fun (verified, authAddress, signature) =>
      some { verified, authAddress, signature }).tagged 0x30

def ReconciliationShardInfo.codec : Codec ReconciliationShardInfo :=
  ((pair Hash.codec integer).body.via (fun t => (t.hash, t.blocks))
    fun p => some ⟨p.1, p.2⟩).tagged 0x30

def ReconciliationContent.codec : Codec ReconciliationContent :=
  ((pair integer <| pair integer <| pair integer <|
    pair ((sequenceOf ReconciliationShardInfo.codec).tagged 0x30) Str.octetString).body.via
    (fun t => (t.protocol, t.time, t.chainId, t.shardInfo, t.leader))
    fun (protocol, time, chainId, shardInfo, leader) =>
      some { protocol, time, chainId, shardInfo, leader }).tagged 0x30

def Reconciliation.fields : Content Reconciliation :=
  (pair ReconciliationContent.codec <|
    pair Str.octetString ((setOf Validation.codec).tagged 0x31)).body.via
    (fun t => (t.content, t.signature, t.votes))
    fun (content, signature, votes) => some { content, signature, votes }

def Exchange.codec : Codec Exchange :=
  ((pair Str.octetString Specie.codec).body.via (fun t => (t.receiver, t.amount))
    fun p => some ⟨p.1, p.2⟩).tagged 0x30

def Transfer.fields : Content Transfer :=
  (pair ((sequenceOf Exchange.codec).tagged 0x30) Str.utf8String).body.via
    (fun t => (t.exchanges, t.coin)) fun p => some ⟨p.1, p.2⟩

def TransactionChoice.codec : Codec TransactionChoice :=
  (alt (Der.null.tagged 0x05) (Transfer.fields.tagged 0xA1)).via
    (fun
      | .null => .inl ()
      | .transfer x => .inr x)
    (fun
      | .inl _ => .null
      | .inr x => .transfer x)

def TransactionContent.codec : Codec TransactionContent :=
  ((pair integer <| pair TransactionChoice.codec <| pair Str.octetString <|
    pair Str.octetString Str.octetString).body.via
    (fun t => (t.time, t.action, t.signer, t.signerKey, t.newAddress))
    fun (time, action, signer, signerKey, newAddress) =>
      some { time, action, signer, signerKey, newAddress }).tagged 0x30

def Transaction.codec : Codec Transaction :=
  ((pair TransactionContent.codec Str.octetString).body.via (fun t => (t.content, t.signature))
    fun p => some ⟨p.1, p.2⟩).tagged 0x30

def NodeContent.codec : Codec NodeContent :=
  ((pair integer <| pair integer <| pair integer <| pair Hash.codec <|
    pair ((sequenceOf Transaction.codec).tagged 0x30) <| pair Str.octetString <|
    pair Str.octetString Str.octetString).body.via
    (fun t => (t.chainId, t.shardId, t.index, t.prevHash, t.transactions, t.nonce, t.leader,
      t.newAddress))
    fun (chainId, shardId, index, prevHash, transactions, nonce, leader, newAddress) =>
      some { chainId, shardId, index, prevHash, transactions, nonce, leader,
             newAddress }).tagged 0x30

def Node.fields : Content Node :=
  (pair NodeContent.codec <|
    pair Str.octetString ((setOf Validation.codec).tagged 0x31)).body.via
    (fun t => (t.content, t.signature, t.votes))
    fun (content, signature, votes) => some { content, signature, votes }

def Block.codec : Codec Block :=
  (alt (Der.null.tagged 0x05) <| alt (Genesis.fields.tagged 0xA1) <|
    alt (Reconciliation.fields.tagged 0xA2) (Node.fields.tagged 0xA3)).via
    (fun
      | .null => .inl ()
      | .genesis t => .inr (.inl t)
      | .reconciliation t => .inr (.inr (.inl t))
      | .node t => .inr (.inr (.inr t)))
    (fun
      | .inl _ => .null
      | .inr (.inl t) => .genesis t
      | .inr (.inr (.inl t)) => .reconciliation t
      | .inr (.inr (.inr t)) => .node t)

/-! ## They read back -/

theorem Hash.codec_readsBack : Hash.codec.ReadsBack (· = ·) := by
  refine Codec.ReadsBack.sequence _ ?_ fun _ => rfl
  exact pair_readsBack_eq Str.octetString_readsBack Str.octetString_readsBack

theorem Specie.codec_readsBack : Specie.codec.ReadsBack (· = ·) := by
  refine Codec.ReadsBack.sequence _ ?_ fun _ => rfl
  exact pair_readsBack_eq integer_readsBack integer_readsBack

theorem Genesis.fields_readsBack : Genesis.fields.ReadsBack (· = ·) :=
  (pair_readsBack_eq integer_readsBack <| pair_readsBack_eq Str.utf8String_readsBack <|
    pair_readsBack_eq integer_readsBack <| pair_readsBack_eq integer_readsBack <|
    pair_readsBack_eq Str.octetString_readsBack <| pair_readsBack_eq Str.octetString_readsBack <|
    pair_readsBack_eq Str.octetString_readsBack <|
    pair_readsBack_eq Specie.codec_readsBack Str.octetString_readsBack).body.via_eq fun _ => rfl

theorem Validation.codec_readsBack : Validation.codec.ReadsBack (· = ·) := by
  refine Codec.ReadsBack.sequence _ ?_ fun _ => rfl
  exact pair_readsBack_eq (boolean_readsBack.tagged _) <|
    pair_readsBack_eq Str.octetString_readsBack Str.octetString_readsBack

theorem ReconciliationShardInfo.codec_readsBack :
    ReconciliationShardInfo.codec.ReadsBack (· = ·) := by
  refine Codec.ReadsBack.sequence _ ?_ fun _ => rfl
  exact pair_readsBack_eq Hash.codec_readsBack integer_readsBack

theorem ReconciliationContent.codec_readsBack : ReconciliationContent.codec.ReadsBack (· = ·) := by
  refine Codec.ReadsBack.sequence _ ?_ fun _ => rfl
  exact pair_readsBack_eq integer_readsBack <| pair_readsBack_eq integer_readsBack <|
    pair_readsBack_eq integer_readsBack <|
    pair_readsBack_eq ((sequenceOf_readsBack ReconciliationShardInfo.codec_readsBack).tagged _)
      Str.octetString_readsBack

theorem Reconciliation.fields_readsBack :
    Reconciliation.fields.ReadsBack Reconciliation.SetEq :=
  (pair_readsBack ReconciliationContent.codec_readsBack <|
    pair_readsBack Str.octetString_readsBack
      ((setOf_readsBack Validation.codec_readsBack).tagged _)).body.via
    fun _ _ ⟨hc, hs, hv⟩ => ⟨_, rfl, hc, hs, hv⟩

theorem Exchange.codec_readsBack : Exchange.codec.ReadsBack (· = ·) := by
  refine Codec.ReadsBack.sequence _ ?_ fun _ => rfl
  exact pair_readsBack_eq Str.octetString_readsBack Specie.codec_readsBack

theorem Transfer.fields_readsBack : Transfer.fields.ReadsBack (· = ·) :=
  (pair_readsBack_eq ((sequenceOf_readsBack Exchange.codec_readsBack).tagged _)
    Str.utf8String_readsBack).body.via_eq fun _ => rfl

theorem TransactionChoice.codec_readsBack : TransactionChoice.codec.ReadsBack (· = ·) := by
  refine (alt_readsBack (null_readsBack.tagged _) (Transfer.fields_readsBack.tagged _)
    (rejects_tagged (by decide))).via fun b a' h => ?_
  cases b with
  | null =>
    cases h
    rfl
  | transfer x =>
    cases h
    subst_vars
    rfl

theorem TransactionContent.codec_readsBack : TransactionContent.codec.ReadsBack (· = ·) := by
  refine Codec.ReadsBack.sequence _ ?_ fun _ => rfl
  exact pair_readsBack_eq integer_readsBack <|
    pair_readsBack_eq TransactionChoice.codec_readsBack <|
    pair_readsBack_eq Str.octetString_readsBack <|
    pair_readsBack_eq Str.octetString_readsBack Str.octetString_readsBack

theorem Transaction.codec_readsBack : Transaction.codec.ReadsBack (· = ·) := by
  refine Codec.ReadsBack.sequence _ ?_ fun _ => rfl
  exact pair_readsBack_eq TransactionContent.codec_readsBack Str.octetString_readsBack

theorem NodeContent.codec_readsBack : NodeContent.codec.ReadsBack (· = ·) := by
  refine Codec.ReadsBack.sequence _ ?_ fun _ => rfl
  exact pair_readsBack_eq integer_readsBack <| pair_readsBack_eq integer_readsBack <|
    pair_readsBack_eq integer_readsBack <| pair_readsBack_eq Hash.codec_readsBack <|
    pair_readsBack_eq ((sequenceOf_readsBack Transaction.codec_readsBack).tagged _) <|
    pair_readsBack_eq Str.octetString_readsBack <|
    pair_readsBack_eq Str.octetString_readsBack Str.octetString_readsBack

theorem Node.fields_readsBack : Node.fields.ReadsBack Node.SetEq :=
  (pair_readsBack NodeContent.codec_readsBack <|
    pair_readsBack Str.octetString_readsBack
      ((setOf_readsBack Validation.codec_readsBack).tagged _)).body.via
    fun _ _ ⟨hc, hs, hv⟩ => ⟨_, rfl, hc, hs, hv⟩

/-- The four alternatives have four identifier octets, so no decoder takes another's element. -/
theorem Block.codec_readsBack : Block.codec.ReadsBack Block.SetEq := by
  have hr := alt_readsBack (Reconciliation.fields_readsBack.tagged 0xA2)
    (Node.fields_readsBack.tagged 0xA3) (rejects_tagged (by decide))
  have hg := alt_readsBack (Genesis.fields_readsBack.tagged 0xA1) hr
    (rejects_alt (rejects_tagged (by decide)) (rejects_tagged (by decide)))
  have hn := alt_readsBack (null_readsBack.tagged 0x05) hg
    (rejects_alt (rejects_tagged (by decide))
      (rejects_alt (rejects_tagged (by decide)) (rejects_tagged (by decide))))
  refine hn.via fun b a' h => ?_
  cases b with
  | null =>
    rcases h with h | _
    trivial
  | genesis t =>
    rcases h with _ | h | _
    exact h
  | reconciliation t =>
    rcases h with _ | _ | h | _
    exact h
  | node t =>
    rcases h with _ | _ | _ | h
    exact h

end Asn1

/-! ## OpenSSL over DER -/

namespace Ossl

/-- The item of an encoding: `d2i` decodes from the front and reports what it consumed. -/
def Item.ofCodec {α : Type} (c : Codec α) : Item α where
  i2d := c.enc
  d2i l _ := (c.dec l).map fun p => (p.1, l.length - p.2.length)

theorem Item.ofCodec_roundTrips {α : Type} {c : Codec α} {r : α → α → Prop}
    (h : c.ReadsBack r) : (Item.ofCodec c).RoundTrips r := by
  intro v
  obtain ⟨v', hdec, hv⟩ := h v []
  rw [List.append_nil] at hdec
  exact ⟨v', by simp only [Item.read, Item.ofCodec, hdec, Option.map_some], hv⟩

/-- OpenSSL with the given digests and the distinguished encoding of every template. -/
def der (sha2_256 sha3_256 : Bytes → Bytes) : OpenSsl where
  sha2_256 := sha2_256
  sha3_256 := sha3_256
  hash := .ofCodec Asn1.Hash.codec
  genesis := .ofCodec (Asn1.Genesis.fields.tagged 0x30)
  reconciliationContent := .ofCodec Asn1.ReconciliationContent.codec
  reconciliation := .ofCodec (Asn1.Reconciliation.fields.tagged 0x30)
  block := .ofCodec Asn1.Block.codec

/-- **DER meets the assumption on OpenSSL**, whatever the digests. -/
theorem der_roundTrips (sha2_256 sha3_256 : Bytes → Bytes) :
    (der sha2_256 sha3_256).RoundTrips where
  hash := Item.ofCodec_roundTrips Asn1.Hash.codec_readsBack
  genesis := Item.ofCodec_roundTrips (Asn1.Genesis.fields_readsBack.tagged _)
  reconciliationContent := Item.ofCodec_roundTrips Asn1.ReconciliationContent.codec_readsBack
  reconciliation := Item.ofCodec_roundTrips (Asn1.Reconciliation.fields_readsBack.tagged _)
  block := Item.ofCodec_roundTrips Asn1.Block.codec_readsBack

end Ossl

end Fluffycoin
