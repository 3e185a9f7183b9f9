import Fluffycoin.Block.Der
import Fluffycoin.Block.MineAction

/-!
# What signatures cover

Signatures are made over `toContent()`: of a `Node`, `Reconciliation`, `Transaction`, `Register` and
`CredentialChange` the DER encoding of the content half of its template, of an `Unregister` the
bytes of the address (`Unregister.cpp:64-67`). Nothing in these bytes names the kind of object.

The encoders are OpenSSL's, and `Encoders` is what `ossl::encode` returns with them. `Encoders.Der`
is what is assumed: they write the distinguished encoding of their templates, if it has less than
`2^31 - 1` bytes. A longer one has a size that OpenSSL does not give in an `int`, and nothing is
said about it.

**`content_eq_iff`** says exactly which objects can share a signature: those that differ only in
signatures and votes, and an `Unregister` with any object whose content its address is. The five
contents that are encoded stay apart by the tags of their fields (`isSequence_encoding`), and each
one determines every field (`covered_eq_of_encoding_eq`). An address can be any string of bytes, so
each object has an `Unregister` with its content.
-/

namespace Fluffycoin

open Der
open Fluffycoin.Ossl

namespace Asn1

def RegisterContent.codec : Codec RegisterContent :=
  ((pair Specie.codec <| pair Str.octetString <| pair Str.octetString <| pair Str.octetString <|
    pair Str.octetString Str.octetString).body.via
    (fun t => (t.stakeAmount, t.stakeAddress, t.stakeKey, t.newAddress, t.authAddress, t.authKey))
    fun (stakeAmount, stakeAddress, stakeKey, newAddress, authAddress, authKey) =>
      some { stakeAmount, stakeAddress, stakeKey, newAddress, authAddress, authKey }).tagged 0x30

def CredentialChangeContent.codec : Codec CredentialChangeContent :=
  ((pair Str.octetString <| pair Str.octetString <| pair Str.octetString <|
    pair Str.octetString <| pair Str.octetString Str.octetString).body.via
    (fun t => (t.authAddress, t.newAuthAddress, t.newAuthKey, t.stakeAddress, t.stakeKey,
      t.newStakeAddress))
    fun (authAddress, newAuthAddress, newAuthKey, stakeAddress, stakeKey, newStakeAddress) =>
      some { authAddress, newAuthAddress, newAuthKey, stakeAddress, stakeKey,
             newStakeAddress }).tagged 0x30

theorem RegisterContent.codec_readsBack : RegisterContent.codec.ReadsBack (· = ·) := by
  refine Codec.ReadsBack.sequence _ ?_ fun _ => rfl
  exact pair_readsBack_eq Specie.codec_readsBack <|
    pair_readsBack_eq Str.octetString_readsBack <| pair_readsBack_eq Str.octetString_readsBack <|
    pair_readsBack_eq Str.octetString_readsBack <|
    pair_readsBack_eq Str.octetString_readsBack Str.octetString_readsBack

theorem CredentialChangeContent.codec_readsBack :
    CredentialChangeContent.codec.ReadsBack (· = ·) := by
  refine Codec.ReadsBack.sequence _ ?_ fun _ => rfl
  exact pair_readsBack_eq Str.octetString_readsBack <|
    pair_readsBack_eq Str.octetString_readsBack <| pair_readsBack_eq Str.octetString_readsBack <|
    pair_readsBack_eq Str.octetString_readsBack <|
    pair_readsBack_eq Str.octetString_readsBack Str.octetString_readsBack

end Asn1

/-- What `ossl::encode` returns for the content halves of the templates (`encode.h:16-32`). -/
structure Encoders extends OpenSsl where
  nodeContent : Asn1.NodeContent → Bytes
  transactionContent : Asn1.TransactionContent → Bytes
  registerContent : Asn1.RegisterContent → Bytes
  credentialChangeContent : Asn1.CredentialChangeContent → Bytes

/-- The distinguished encoding is written, if its length is one of OpenSSL's. -/
def WritesDer {α : Type} (codec : Codec α) (encode : α → Bytes) : Prop :=
  ∀ v, (codec.enc v).length < 2 ^ 31 - 1 → encode v = codec.enc v

structure Encoders.Der (o : Encoders) : Prop where
  node : WritesDer Asn1.NodeContent.codec o.nodeContent
  reconciliation : WritesDer Asn1.ReconciliationContent.codec o.reconciliationContent.i2d
  transaction : WritesDer Asn1.TransactionContent.codec o.transactionContent
  register : WritesDer Asn1.RegisterContent.codec o.registerContent
  credentialChange : WritesDer Asn1.CredentialChangeContent.codec o.credentialChangeContent

/-- `Node::toContent`. -/
def Node.toContent (o : Encoders) (n : Node) : Bytes := o.nodeContent (n.toAsn1 default).content

/-- `Transaction::toContent`. -/
def Transaction.toContent (o : Encoders) (x : Transaction) : Bytes :=
  o.transactionContent (x.toAsn1 default).content

/-- `Register::toContent`. -/
def Register.toContent (o : Encoders) (r : Register) : Bytes :=
  o.registerContent (r.toAsn1 default).content

/-- `Unregister::toContent`. -/
def Unregister.toContent (u : Unregister) : Bytes := u.authAddress

/-- `CredentialChange::toContent`. -/
def CredentialChange.toContent (o : Encoders) (c : CredentialChange) : Bytes :=
  o.credentialChangeContent (c.toAsn1 default).content

/-- An object that is signed. -/
inductive Signed where
  | node (n : Node)
  | reconciliation (r : Reconciliation)
  | transaction (x : Transaction)
  | register (r : Register)
  | unregister (u : Unregister)
  | credentialChange (c : CredentialChange)

namespace Signed

/-- What the signature is made over. -/
def content (o : Encoders) : Signed → Bytes
  | .node n => n.toContent o
  | .reconciliation r => r.toContent o.toOpenSsl
  | .transaction x => x.toContent o
  | .register r => r.toContent o
  | .unregister u => u.toContent
  | .credentialChange c => c.toContent o

/-- The distinguished encoding of the content half of the template. -/
def encoding : Signed → Bytes
  | .node n => Asn1.NodeContent.codec.enc (n.toAsn1 default).content
  | .reconciliation r => Asn1.ReconciliationContent.codec.enc (r.toAsn1 default).content
  | .transaction x => Asn1.TransactionContent.codec.enc (x.toAsn1 default).content
  | .register r => Asn1.RegisterContent.codec.enc (r.toAsn1 default).content
  | .unregister u => u.authAddress
  | .credentialChange c => Asn1.CredentialChangeContent.codec.enc (c.toAsn1 default).content

/-- The object without signatures and votes. -/
def covered : Signed → Signed
  | .node n => .node { n with signature := [], votes := [] }
  | .reconciliation r => .reconciliation { r with signature := [], votes := [] }
  | .transaction x => .transaction { x with signature := [] }
  | .register r => .register { r with stakeSignature := [], authSignature := [] }
  | .unregister u => .unregister { u with authSignature := [] }
  | .credentialChange c =>
    .credentialChange { c with authSignature := [], newAuthSignature := [], stakeSignature := [] }

/-- Byte strings shorter than `2^31 - 1` and 64-bit numbers that survive `ASN1_INTEGER`. -/
def FieldsFit : Signed → Prop
  | .node n => n.Fits Kept
  | .reconciliation r => r.Fits
  | .transaction x => x.Fits Kept
  | .register r => r.Fits
  | .unregister u => u.Fits
  | .credentialChange c => c.Fits

/-- An object that can be signed: the encoding is not too long either. -/
structure Fits (a : Signed) : Prop where
  fields : a.FieldsFit
  encoding : a.encoding.length < 2 ^ 31 - 1

theorem content_eq_encoding {o : Encoders} (ho : o.Der) {a : Signed} (ha : a.Fits) :
    a.content o = a.encoding := by
  cases a with
  | node n => exact ho.node _ ha.encoding
  | reconciliation r => exact ho.reconciliation _ ha.encoding
  | transaction x => exact ho.transaction _ ha.encoding
  | register r => exact ho.register _ ha.encoding
  | unregister u => rfl
  | credentialChange c => exact ho.credentialChange _ ha.encoding

/-! ## The kind of an object -/

/-- The tag of the choice in a transaction. -/
def actionTag : Action → UInt8
  | .none => 0x05
  | .transfer _ => 0xA1

/-- The tags of the fields of a content that is encoded. -/
def tags : Signed → List UInt8
  | .node _ => [0x02, 0x02, 0x02, 0x30, 0x30, 0x04, 0x04, 0x04]
  | .reconciliation _ => [0x02, 0x02, 0x02, 0x30, 0x04]
  | .transaction x => [0x02, actionTag x.action, 0x04, 0x04, 0x04]
  | .register _ => [0x30, 0x04, 0x04, 0x04, 0x04, 0x04]
  | .unregister _ => []
  | .credentialChange _ => [0x04, 0x04, 0x04, 0x04, 0x04, 0x04]

theorem isSequence_node (n : Node) : IsSequence (encoding (.node n)) (tags (.node n)) :=
  (pair_tags (tagged_tags _ _ _) <| pair_tags (tagged_tags _ _ _) <|
    pair_tags (tagged_tags _ _ _) <| pair_tags (tagged_tags _ _ _) <|
    pair_tags (tagged_tags _ _ _) <| pair_tags (tagged_tags _ _ _) <|
    pair_tags (tagged_tags _ _ _) (tagged_tags _ _ _)).isSequence _

theorem isSequence_reconciliation (r : Reconciliation) :
    IsSequence (encoding (.reconciliation r)) (tags (.reconciliation r)) :=
  (pair_tags (tagged_tags _ _ _) <| pair_tags (tagged_tags _ _ _) <|
    pair_tags (tagged_tags _ _ _) <|
    pair_tags (tagged_tags _ _ _) (tagged_tags _ _ _)).isSequence _

theorem action_tags (a : Action) : Asn1.TransactionChoice.codec.Tags a.toAsn1 [actionTag a] := by
  cases a with
  | none => exact ⟨[(0x05, [])], rfl, rfl⟩
  | transfer x =>
    exact ⟨[(0xA1, Asn1.Transfer.fields.enc (x.toAsn1 default))], (List.append_nil _).symm, rfl⟩

theorem isSequence_transaction (x : Transaction) :
    IsSequence (encoding (.transaction x)) (tags (.transaction x)) := by
  show IsSequence _ ([0x02] ++ ([actionTag x.action] ++ ([0x04] ++ ([0x04] ++ [0x04]))))
  refine Codec.Tags.isSequence ?_ _
  exact pair_tags (tagged_tags _ _ _) <| pair_tags (action_tags x.action) <|
    pair_tags (tagged_tags _ _ _) <| pair_tags (tagged_tags _ _ _) (tagged_tags _ _ _)

theorem isSequence_register (r : Register) :
    IsSequence (encoding (.register r)) (tags (.register r)) :=
  (pair_tags (tagged_tags _ _ _) <| pair_tags (tagged_tags _ _ _) <|
    pair_tags (tagged_tags _ _ _) <| pair_tags (tagged_tags _ _ _) <|
    pair_tags (tagged_tags _ _ _) (tagged_tags _ _ _)).isSequence _

theorem isSequence_credentialChange (c : CredentialChange) :
    IsSequence (encoding (.credentialChange c)) (tags (.credentialChange c)) :=
  (pair_tags (tagged_tags _ _ _) <| pair_tags (tagged_tags _ _ _) <|
    pair_tags (tagged_tags _ _ _) <| pair_tags (tagged_tags _ _ _) <|
    pair_tags (tagged_tags _ _ _) (tagged_tags _ _ _)).isSequence _

/-- The content is the encoding of a template. -/
def Encoded : Signed → Prop
  | .unregister _ => False
  | _ => True

theorem isSequence_encoding {a : Signed} (h : a.Encoded) : IsSequence a.encoding a.tags := by
  cases a with
  | node n => exact isSequence_node n
  | reconciliation r => exact isSequence_reconciliation r
  | transaction x => exact isSequence_transaction x
  | register r => exact isSequence_register r
  | unregister u => exact h.elim
  | credentialChange c => exact isSequence_credentialChange c

end Signed

/-! ## The fields of an object -/

section Fields

/-- Two objects that are read back from templates with the same content. -/
theorem eq_of_enc_eq {κ τ α : Type} {codec : Codec κ} (hcodec : codec.ReadsBack (· = ·))
    (template : κ → τ) (fromAsn1 : τ → α) {c d : κ} {x y : α} (hx : fromAsn1 (template c) = x)
    (hy : fromAsn1 (template d) = y) (h : codec.enc c = codec.enc d) : x = y := by
  rw [← hx, hcodec.injective h, hy]

theorem short_nil : Short [] := by
  unfold Short
  decide

theorem Reconciliation.covered_eq {r q : Reconciliation} (hr : r.Fits) (hq : q.Fits)
    (h : Asn1.ReconciliationContent.codec.enc (r.toAsn1 default).content =
      Asn1.ReconciliationContent.codec.enc (q.toAsn1 default).content) :
    { r with signature := [], votes := [] } = { q with signature := [], votes := [] } := by
  have hfits {r : Reconciliation} (hr : r.Fits) : { r with signature := [], votes := [] }.Fits :=
    ⟨hr.shardInfo, hr.leader, short_nil, List.forall_mem_nil _⟩
  exact eq_of_enc_eq Asn1.ReconciliationContent.codec_readsBack
    (fun content => Asn1.Reconciliation.mk content (fromBin []) []) fromAsn1
    (fromAsn1_toAsn1 (hfits hr) default) (fromAsn1_toAsn1 (hfits hq) default) h

theorem Transaction.covered_eq {x y : Transaction} (hx : x.Fits Kept) (hy : y.Fits Kept)
    (h : Asn1.TransactionContent.codec.enc (x.toAsn1 default).content =
      Asn1.TransactionContent.codec.enc (y.toAsn1 default).content) :
    { x with signature := [] } = { y with signature := [] } := by
  have hfits {x : Transaction} (hx : x.Fits Kept) : { x with signature := [] }.Fits Kept :=
    { hx with signature := short_nil }
  exact eq_of_enc_eq Asn1.TransactionContent.codec_readsBack
    (fun content => Asn1.Transaction.mk content (fromBin [])) fromAsn1
    (fromAsn1_toAsn1 (hfits hx) default) (fromAsn1_toAsn1 (hfits hy) default) h

theorem Register.covered_eq {r q : Register} (hr : r.Fits) (hq : q.Fits)
    (h : Asn1.RegisterContent.codec.enc (r.toAsn1 default).content =
      Asn1.RegisterContent.codec.enc (q.toAsn1 default).content) :
    { r with stakeSignature := [], authSignature := [] } =
      { q with stakeSignature := [], authSignature := [] } := by
  have hfits {r : Register} (hr : r.Fits) :
      { r with stakeSignature := [], authSignature := [] }.Fits :=
    { hr with stakeSignature := short_nil, authSignature := short_nil }
  exact eq_of_enc_eq Asn1.RegisterContent.codec_readsBack
    (fun content => Asn1.Register.mk content (fromBin []) (fromBin [])) fromAsn1
    (fromAsn1_toAsn1 (hfits hr) default) (fromAsn1_toAsn1 (hfits hq) default) h

theorem CredentialChange.covered_eq {c d : CredentialChange} (hc : c.Fits) (hd : d.Fits)
    (h : Asn1.CredentialChangeContent.codec.enc (c.toAsn1 default).content =
      Asn1.CredentialChangeContent.codec.enc (d.toAsn1 default).content) :
    { c with authSignature := [], newAuthSignature := [], stakeSignature := [] } =
      { d with authSignature := [], newAuthSignature := [], stakeSignature := [] } := by
  have hfits {c : CredentialChange} (hc : c.Fits) :
      { c with authSignature := [], newAuthSignature := [], stakeSignature := [] }.Fits :=
    { hc with
      authSignature := short_nil, newAuthSignature := short_nil, stakeSignature := short_nil }
  exact eq_of_enc_eq Asn1.CredentialChangeContent.codec_readsBack
    (fun content => Asn1.CredentialChange.mk content (fromBin []) (fromBin []) (fromBin []))
    fromAsn1 (fromAsn1_toAsn1 (hfits hc) default) (fromAsn1_toAsn1 (hfits hd) default) h

/-- The transactions are compared with their signatures. They are read back one by one, without the
move that `Node.fromAsn1` makes. -/
theorem Node.covered_eq {n m : Node} (hn : n.Fits Kept) (hm : m.Fits Kept)
    (h : Asn1.NodeContent.codec.enc (n.toAsn1 default).content =
      Asn1.NodeContent.codec.enc (m.toAsn1 default).content) :
    { n with signature := [], votes := [] } = { m with signature := [], votes := [] } := by
  have hfits {n : Node} (hn : n.Fits Kept) : { n with signature := [], votes := [] }.Fits Kept :=
    { hn with signature := short_nil, votes := List.forall_mem_nil _ }
  have hmoved := eq_of_enc_eq Asn1.NodeContent.codec_readsBack
    (fun content => Asn1.Node.mk content (fromBin []) []) fromAsn1
    (fromAsn1_toAsn1 (hfits hn) default) (fromAsn1_toAsn1 (hfits hm) default) h
  have hback {n : Node} (hn : n.Fits Kept) :
      fromStack Transaction.fromAsn1 id (n.toAsn1 default).content.transactions =
        n.transactions := by
    have hstack : fromStack Transaction.fromAsn1 id (toStack Transaction.toAsn1 n.transactions) =
        n.transactions.map id := fromStack_toStack fun x hx =>
      Transaction.fromAsn1_toAsn1 (hn.transactions x hx) default
    rwa [List.map_id] at hstack
  have htransactions : n.transactions = m.transactions :=
    eq_of_enc_eq Asn1.NodeContent.codec_readsBack Asn1.NodeContent.transactions
      (fromStack Transaction.fromAsn1 id) (hback hn) (hback hm) h
  obtain ⟨chainId, shardId, index, prevHash, transactions, nonce, leader, newAddress, _, _⟩ := n
  obtain ⟨chainId', shardId', index', prevHash', transactions', nonce', leader', newAddress', _,
    _⟩ := m
  simp only [mk.injEq] at hmoved htransactions ⊢
  obtain ⟨rfl, rfl, rfl, rfl, -, rfl, rfl, rfl, -, -⟩ := hmoved
  exact ⟨rfl, rfl, rfl, rfl, htransactions, rfl, rfl, rfl, trivial, trivial⟩

end Fields

namespace Signed

variable {a b : Signed}

/-- **An encoding determines the kind and the fields.** -/
theorem covered_eq_of_encoding_eq (ha : a.FieldsFit) (hb : b.FieldsFit) (hea : a.Encoded)
    (heb : b.Encoded) (h : a.encoding = b.encoding) : a.covered = b.covered := by
  have htags : a.tags = b.tags :=
    (isSequence_encoding hea).unique (h ▸ isSequence_encoding heb)
  cases a with
  | node n =>
    cases b with
    | node m => exact congrArg Signed.node (Node.covered_eq ha hb h)
    | unregister => exact heb.elim
    | reconciliation | transaction | register | credentialChange => simp [tags] at htags
  | reconciliation r =>
    cases b with
    | reconciliation q => exact congrArg Signed.reconciliation (Reconciliation.covered_eq ha hb h)
    | unregister => exact heb.elim
    | node | transaction | register | credentialChange => simp [tags] at htags
  | transaction x =>
    cases b with
    | transaction y => exact congrArg Signed.transaction (Transaction.covered_eq ha hb h)
    | unregister => exact heb.elim
    | node | reconciliation | register | credentialChange => simp [tags] at htags
  | register r =>
    cases b with
    | register q => exact congrArg Signed.register (Register.covered_eq ha hb h)
    | unregister => exact heb.elim
    | node | reconciliation | transaction | credentialChange => simp [tags] at htags
  | unregister => exact hea.elim
  | credentialChange c =>
    cases b with
    | credentialChange d =>
      exact congrArg Signed.credentialChange (CredentialChange.covered_eq ha hb h)
    | unregister => exact heb.elim
    | node | reconciliation | transaction | register => simp [tags] at htags

/-- What is not covered is not in the content. -/
theorem content_covered (o : Encoders) (a : Signed) : a.covered.content o = a.content o := by
  cases a <;> rfl

/-- **Which objects can share a signature**: those that differ in signatures and votes only, and an
`Unregister` with an object whose content is its address. -/
theorem content_eq_iff (o : Encoders) (ho : o.Der) (a b : Signed) (ha : a.Fits) (hb : b.Fits) :
    a.content o = b.content o ↔
      a.covered = b.covered ∨ (∃ u, a = .unregister u ∧ u.authAddress = b.content o) ∨
        ∃ u, b = .unregister u ∧ u.authAddress = a.content o := by
  constructor
  · intro h
    by_cases hea : a.Encoded
    · by_cases heb : b.Encoded
      · rw [content_eq_encoding ho ha, content_eq_encoding ho hb] at h
        exact .inl (covered_eq_of_encoding_eq ha.fields hb.fields hea heb h)
      · cases b with
        | unregister u => exact .inr (.inr ⟨u, rfl, h.symm⟩)
        | node | reconciliation | transaction | register | credentialChange =>
          exact absurd trivial heb
    · cases a with
      | unregister u => exact .inr (.inl ⟨u, rfl, h⟩)
      | node | reconciliation | transaction | register | credentialChange =>
        exact absurd trivial hea
  · rintro (h | ⟨u, rfl, h⟩ | ⟨u, rfl, h⟩)
    · rw [← content_covered o a, h, content_covered]
    · exact h
    · exact h.symm

/-- Encoders that write the distinguished encoding of every template. -/
def derEncoders : Encoders where
  toOpenSsl := der id id
  nodeContent := Asn1.NodeContent.codec.enc
  transactionContent := Asn1.TransactionContent.codec.enc
  registerContent := Asn1.RegisterContent.codec.enc
  credentialChangeContent := Asn1.CredentialChangeContent.codec.enc

theorem derEncoders_der : derEncoders.Der :=
  ⟨fun _ _ => rfl, fun _ _ => rfl, fun _ _ => rfl, fun _ _ => rfl, fun _ _ => rfl⟩

/-- A registration, and an `Unregister` that its signature fits. -/
theorem content_eq_iff_register :
    (register {}).content derEncoders =
        (unregister { authAddress := (register {}).content derEncoders }).content derEncoders ∧
      (register {}).covered ≠
        (unregister { authAddress := (register {}).content derEncoders }).covered := by
  have hregister : (register {}).Fits := by
    refine ⟨?_, by decide⟩
    constructor
    · unfold Specie.Fits Kept
      decide
    all_goals simp [Short]
  have hunregister :
      (unregister { authAddress := (register {}).content derEncoders }).Fits :=
    ⟨⟨by unfold Short; decide, by simp [Short]⟩, by decide⟩
  exact ⟨(content_eq_iff derEncoders derEncoders_der _ _ hregister hunregister).mpr
    (.inr (.inr ⟨_, rfl, rfl⟩)), Signed.noConfusion⟩

end Signed

end Fluffycoin
