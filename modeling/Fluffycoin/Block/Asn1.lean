import Fluffycoin.Ossl.Convert

/-!
# The ASN.1 templates of `src/block`, and OpenSSL as a parameter

One structure for each `ASN1_SEQUENCE` and one inductive type for each `ASN1_CHOICE` of
`src/block/*.cpp`, fields and alternatives in template order. `default` is what `X_new()`
allocates: zero integers, empty strings, empty stacks.

OpenSSL itself is not part of the repository. `Item α` is what the code uses of the functions
`IMPLEMENT_ASN1_FUNCTIONS` generates for a template: `i2d` gives the encoding, `d2i p len` parses
one value from the front of the `len` bytes at `p` and gives it with the number of bytes it
advanced. `OpenSsl` collects the items and digests in use. What is assumed of it is said where it is
used, by `Item.RoundTrips`: decoding an encoding, with the length argument the code passes, gives
the value back up to a relation that is equality except for the order inside a `SET OF`
(`Block.SetEq`), because DER sorts those.
-/

namespace Fluffycoin

namespace Asn1

/-- `asn1::Hash`. -/
structure Hash where
  sha2 : Str
  sha3 : Str
  deriving DecidableEq, Repr, Inhabited

/-- `asn1::Specie`. -/
structure Specie where
  coins : Int
  fluffs : Int
  deriving DecidableEq, Repr, Inhabited

/-- `asn1::Genesis`. -/
structure Genesis where
  protocol : Int
  name : Str
  version : Int
  creation : Int
  creator : Str
  validatorKey : Str
  stakeAddress : Str
  greed : Specie
  seed : Str
  deriving DecidableEq, Repr, Inhabited

/-- `asn1::Validation`. The content octet of the `BOOLEAN` is the `ASN1_BOOLEAN`'s low byte. -/
structure Validation where
  verified : UInt8
  authAddress : Str
  signature : Str
  deriving DecidableEq, Repr, Inhabited

/-- `asn1::ReconciliationShardInfo`. -/
structure ReconciliationShardInfo where
  hash : Hash
  blocks : Int
  deriving DecidableEq, Repr, Inhabited

/-- `asn1::ReconciliationContent`. -/
structure ReconciliationContent where
  protocol : Int
  time : Int
  chainId : Int
  shardInfo : List ReconciliationShardInfo
  leader : Str
  deriving DecidableEq, Repr, Inhabited

/-- `asn1::Reconciliation`. -/
structure Reconciliation where
  content : ReconciliationContent
  signature : Str
  votes : List Validation
  deriving DecidableEq, Repr, Inhabited

/-- `asn1::Exchange`. -/
structure Exchange where
  receiver : Str
  amount : Specie
  deriving DecidableEq, Repr, Inhabited

/-- `asn1::Transfer`. -/
structure Transfer where
  exchanges : List Exchange
  coin : Str
  deriving DecidableEq, Repr, Inhabited

/-- `asn1::TransactionChoice`: `NULL`, or `[1] IMPLICIT Transfer`. -/
inductive TransactionChoice where
  | null
  | transfer (transfer : Transfer)
  deriving DecidableEq, Repr, Inhabited

/-- `asn1::TransactionContent`. -/
structure TransactionContent where
  time : Int
  action : TransactionChoice
  signer : Str
  signerKey : Str
  newAddress : Str
  deriving DecidableEq, Repr, Inhabited

/-- `asn1::Transaction`. -/
structure Transaction where
  content : TransactionContent
  signature : Str
  deriving DecidableEq, Repr, Inhabited

/-- `asn1::NodeContent`. -/
structure NodeContent where
  chainId : Int
  shardId : Int
  index : Int
  prevHash : Hash
  transactions : List Transaction
  nonce : Str
  leader : Str
  newAddress : Str
  deriving DecidableEq, Repr, Inhabited

/-- `asn1::Node`. -/
structure Node where
  content : NodeContent
  signature : Str
  votes : List Validation
  deriving DecidableEq, Repr, Inhabited

/-- `asn1::Block`: `NULL`, `[1] Genesis`, `[2] Reconciliation` or `[3] Node`, all implicit. -/
inductive Block where
  | null
  | genesis (genesis : Genesis)
  | reconciliation (reconciliation : Reconciliation)
  | node (node : Node)
  deriving DecidableEq, Repr, Inhabited

/-- Equal up to the order of the `SET OF` votes. -/
def Reconciliation.SetEq (a b : Reconciliation) : Prop :=
  a.content = b.content ∧ a.signature = b.signature ∧ a.votes.Perm b.votes

/-- Equal up to the order of the `SET OF` votes. -/
def Node.SetEq (a b : Node) : Prop :=
  a.content = b.content ∧ a.signature = b.signature ∧ a.votes.Perm b.votes

/-- Equal up to the order inside each `SET OF`. -/
def Block.SetEq : Block → Block → Prop
  | .null, .null => True
  | .genesis a, .genesis b => a = b
  | .reconciliation a, .reconciliation b => a.SetEq b
  | .node a, .node b => a.SetEq b
  | _, _ => False

end Asn1

namespace Ossl

/-- The encoder and decoder OpenSSL generates for one template. -/
structure Item (α : Type) where
  i2d : α → Bytes
  d2i : Bytes → Int → Option (α × Nat)

namespace Item

variable {α : Type}

/-- The call `d2i_X(nullptr, &p, static_cast<int>(data.length()))` of `block::decode`. -/
def read (it : Item α) (data : Bytes) : Option α :=
  (it.d2i data (castInt data.length)).map Prod.fst

/-- `i2d` and `d2i` round-trip the values of the template, up to `r`. -/
def RoundTrips (it : Item α) (r : α → α → Prop) : Prop :=
  ∀ v, ∃ v', it.read (it.i2d v) = some v' ∧ r v v'

/-- With equality for `r` the encoding determines the value. -/
theorem RoundTrips.injective {it : Item α} (h : it.RoundTrips (· = ·)) {v w : α}
    (e : it.i2d v = it.i2d w) : v = w := by
  obtain ⟨v', hv, rfl⟩ := h v
  obtain ⟨w', hw, rfl⟩ := h w
  rw [e, hw] at hv
  exact (Option.some.inj hv).symm

end Item

/-- The part of OpenSSL the blocks use. -/
structure OpenSsl where
  sha2_256 : Bytes → Bytes
  sha3_256 : Bytes → Bytes
  hash : Item Asn1.Hash
  genesis : Item Asn1.Genesis
  reconciliationContent : Item Asn1.ReconciliationContent
  reconciliation : Item Asn1.Reconciliation
  block : Item Asn1.Block

/-- Every item in use round-trips its values, a `SET OF` up to order. -/
structure OpenSsl.RoundTrips (o : OpenSsl) : Prop where
  hash : o.hash.RoundTrips (· = ·)
  genesis : o.genesis.RoundTrips (· = ·)
  reconciliationContent : o.reconciliationContent.RoundTrips (· = ·)
  reconciliation : o.reconciliation.RoundTrips Asn1.Reconciliation.SetEq
  block : o.block.RoundTrips Asn1.Block.SetEq

end Ossl

end Fluffycoin
