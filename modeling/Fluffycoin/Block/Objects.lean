import Fluffycoin.Block.Asn1

/-!
# The block objects

Model of the classes of `src/block`: their fields, `toAsn1` / `fromAsn1`, the copy and move
operators that are not defaulted, `encode` / `toContent` and `block::decode`.

* `toAsn1 x t` writes the object into the ASN.1 structure `t`, field by field as the source does,
  so a template field the source does not write keeps what `t` held
  (`Reconciliation.toAsn1` and `time`).
* `Address`, `PublicKey` and `Signature` wrap one `BinData`, `Time` wraps one `uint64_t`; they are
  their content here. `std::string` fields are byte strings.
* `Transaction` and `Block` hold a tag and one pointer for each alternative. With the pointer
  the tag selects set and the others null they are the values of an inductive type, whose
  constructors stand in the order of the tags and of the `ASN1_CHOICE` templates.
* `toStack` / `fromStack` are the two functions of `FLUFFYCOIN_DEFINE_STACK_FUNCTIONS`
  (`ossl/convert.h:33-60`) and its `_VEC` twin. Each decoded element passes through the move
  constructor of its class (`push_back(std::move(cur))`), a parameter of `fromStack`: defaulted,
  hence the identity, for every class but `Transaction`.
-/

namespace Fluffycoin

open Fluffycoin.Ossl

/-! ## Stacks -/

/-- `to##Type##Stack`. -/
def toStack {α β : Type} [Inhabited β] (toAsn1 : α → β → β) (objs : List α) : List β :=
  objs.map fun cur => toAsn1 cur default

/-- `from##Type##Stack`. -/
def fromStack {α β : Type} (fromAsn1 : β → α) (move : α → α) (st : List β) : List α :=
  st.map fun pt => move (fromAsn1 pt)

/-! ## Parts -/

/-- `block::Hash`. -/
structure Hash where
  sha2 : Bytes := []
  sha3 : Bytes := []
  deriving DecidableEq, Repr, Inhabited

namespace Hash

/-- `Hash::Hash(const BinData &)`. -/
def ofData (o : OpenSsl) (value : Bytes) : Hash := ⟨o.sha2_256 value, o.sha3_256 value⟩

def toAsn1 (h : Hash) (t : Asn1.Hash) : Asn1.Hash :=
  { t with sha2 := fromBin h.sha2, sha3 := fromBin h.sha3 }

def fromAsn1 (t : Asn1.Hash) : Hash := ⟨toBin t.sha2, toBin t.sha3⟩

/-- `Hash::encode`. -/
def encode (o : OpenSsl) (h : Hash) : Bytes := o.hash.i2d (h.toAsn1 default)

end Hash

/-- `block::Specie`. -/
structure Specie where
  coins : UInt64 := 0
  fluffs : UInt32 := 0
  deriving DecidableEq, Repr, Inhabited

namespace Specie

def toAsn1 (s : Specie) (t : Asn1.Specie) : Asn1.Specie :=
  { t with coins := fromUInt64 s.coins, fluffs := fromUInt32 s.fluffs }

def fromAsn1 (t : Asn1.Specie) : Specie := ⟨toUInt64 t.coins, toUInt32 t.fluffs⟩

end Specie

/-- `block::Validation`. -/
structure Validation where
  verified : Bool := false
  address : Bytes := []
  signature : Bytes := []
  deriving DecidableEq, Repr, Inhabited

namespace Validation

def toAsn1 (v : Validation) (t : Asn1.Validation) : Asn1.Validation :=
  { t with
    verified := if v.verified then 1 else 0
    authAddress := fromBin v.address
    signature := fromBin v.signature }

def fromAsn1 (t : Asn1.Validation) : Validation :=
  ⟨t.verified != 0, toBin t.authAddress, toBin t.signature⟩

end Validation

/-- `block::ReconciliationShardInfo`. -/
structure ReconciliationShardInfo where
  hash : Hash := {}
  blocks : UInt32 := 0
  deriving DecidableEq, Repr, Inhabited

namespace ReconciliationShardInfo

def toAsn1 (i : ReconciliationShardInfo) (t : Asn1.ReconciliationShardInfo) :
    Asn1.ReconciliationShardInfo :=
  { t with hash := i.hash.toAsn1 t.hash, blocks := fromUInt32 i.blocks }

def fromAsn1 (t : Asn1.ReconciliationShardInfo) : ReconciliationShardInfo :=
  ⟨Hash.fromAsn1 t.hash, toUInt32 t.blocks⟩

end ReconciliationShardInfo

/-- `block::Exchange`. -/
structure Exchange where
  receiver : Bytes := []
  amount : Specie := {}
  deriving DecidableEq, Repr, Inhabited

namespace Exchange

def toAsn1 (e : Exchange) (t : Asn1.Exchange) : Asn1.Exchange :=
  { t with receiver := fromBin e.receiver, amount := e.amount.toAsn1 t.amount }

def fromAsn1 (t : Asn1.Exchange) : Exchange := ⟨toBin t.receiver, Specie.fromAsn1 t.amount⟩

end Exchange

/-- `block::Transfer`. -/
structure Transfer where
  exchanges : List Exchange := []
  coin : Bytes := []
  deriving DecidableEq, Repr, Inhabited

namespace Transfer

def toAsn1 (x : Transfer) (t : Asn1.Transfer) : Asn1.Transfer :=
  { t with exchanges := toStack Exchange.toAsn1 x.exchanges, coin := fromBin x.coin }

def fromAsn1 (t : Asn1.Transfer) : Transfer :=
  ⟨fromStack Exchange.fromAsn1 id t.exchanges, toBin t.coin⟩

end Transfer

/-- `Transaction::Action` with the object its tag selects. -/
inductive Action where
  | none
  | transfer (transfer : Transfer)
  deriving DecidableEq, Repr, Inhabited

namespace Action

/-- The choice half of `Transaction::toAsn1`. -/
def toAsn1 : Action → Asn1.TransactionChoice
  | .none => .null
  | .transfer x => .transfer (x.toAsn1 default)

/-- The choice half of `Transaction::fromAsn1`. -/
def fromAsn1 : Asn1.TransactionChoice → Action
  | .null => .none
  | .transfer x => .transfer (Transfer.fromAsn1 x)

end Action

/-- `block::Transaction`. -/
structure Transaction where
  action : Action := .none
  time : UInt64 := 0
  signer : Bytes := []
  signerKey : Bytes := []
  newAddress : Bytes := []
  signature : Bytes := []
  deriving DecidableEq, Repr, Inhabited

namespace Transaction

/-- `Transaction::operator=(Transaction &&)` (`Transaction.cpp:103-124`): the tag and the pointers
move, nothing else does. -/
def moveAssign (this rhs : Transaction) : Transaction := { this with action := rhs.action }

/-- `Transaction::Transaction(Transaction &&)`: default members, then the move assignment. -/
def moveConstruct (rhs : Transaction) : Transaction := moveAssign {} rhs

def toAsn1 (x : Transaction) (t : Asn1.Transaction) : Asn1.Transaction :=
  { t with
    content := { t.content with
      action := x.action.toAsn1
      time := fromUInt64 x.time
      signer := fromBin x.signer
      signerKey := fromBin x.signerKey
      newAddress := fromBin x.newAddress }
    signature := fromBin x.signature }

def fromAsn1 (t : Asn1.Transaction) : Transaction where
  action := Action.fromAsn1 t.content.action
  time := toUInt64 t.content.time
  signer := toBin t.content.signer
  signerKey := toBin t.content.signerKey
  newAddress := toBin t.content.newAddress
  signature := toBin t.signature

end Transaction

/-! ## Blocks -/

/-- `block::Genesis`. -/
structure Genesis where
  protocol : UInt32 := 0
  name : Bytes := []
  version : UInt32 := 0
  creation : UInt64 := 0
  creator : Bytes := []
  validatorKey : Bytes := []
  stakeAddress : Bytes := []
  greed : Specie := {}
  seed : Bytes := []
  deriving DecidableEq, Repr, Inhabited

namespace Genesis

/-- `Genesis::toAsn1`: the two 32-bit numbers widen to the 64-bit helper. -/
def toAsn1 (g : Genesis) (t : Asn1.Genesis) : Asn1.Genesis :=
  { t with
    protocol := fromUInt64 g.protocol.toUInt64
    name := fromBin g.name
    version := fromUInt64 g.version.toUInt64
    creation := fromUInt64 g.creation
    creator := fromBin g.creator
    validatorKey := fromBin g.validatorKey
    stakeAddress := fromBin g.stakeAddress
    greed := g.greed.toAsn1 t.greed
    seed := fromBin g.seed }

def fromAsn1 (t : Asn1.Genesis) : Genesis where
  protocol := toUInt32 t.protocol
  name := toBin t.name
  version := toUInt32 t.version
  creation := toUInt64 t.creation
  creator := toBin t.creator
  validatorKey := toBin t.validatorKey
  stakeAddress := toBin t.stakeAddress
  greed := Specie.fromAsn1 t.greed
  seed := toBin t.seed

/-- `Genesis::encode`. -/
def encode (o : OpenSsl) (g : Genesis) : Bytes := o.genesis.i2d (g.toAsn1 default)

end Genesis

/-- `block::Reconciliation`. -/
structure Reconciliation where
  protocol : UInt32 := 0
  chainId : UInt32 := 0
  shardInfo : List ReconciliationShardInfo := []
  leader : Bytes := []
  signature : Bytes := []
  votes : List Validation := []
  deriving DecidableEq, Repr, Inhabited

namespace Reconciliation

/-- `Reconciliation::toAsn1` (`Reconciliation.cpp:142-150`). -/
def toAsn1 (r : Reconciliation) (t : Asn1.Reconciliation) : Asn1.Reconciliation :=
  { t with
    content := { t.content with
      protocol := fromUInt32 r.protocol
      chainId := fromUInt32 r.chainId
      shardInfo := toStack ReconciliationShardInfo.toAsn1 r.shardInfo
      leader := fromBin r.leader }
    signature := fromBin r.signature
    votes := toStack Validation.toAsn1 r.votes }

/-- `Reconciliation::fromAsn1` (`Reconciliation.cpp:152-160`). -/
def fromAsn1 (t : Asn1.Reconciliation) : Reconciliation where
  protocol := toUInt32 t.content.protocol
  chainId := toUInt32 t.content.chainId
  shardInfo := fromStack ReconciliationShardInfo.fromAsn1 id t.content.shardInfo
  leader := toBin t.content.leader
  signature := toBin t.signature
  votes := fromStack Validation.fromAsn1 id t.votes

/-- `Reconciliation::toContent`: the encoded content of a fresh structure the object was written
to. -/
def toContent (o : OpenSsl) (r : Reconciliation) : Bytes :=
  o.reconciliationContent.i2d (r.toAsn1 default).content

end Reconciliation

/-- `block::Node`. -/
structure Node where
  chainId : UInt64 := 0
  shardId : UInt32 := 0
  index : UInt32 := 0
  prevHash : Hash := {}
  transactions : List Transaction := []
  nonce : Bytes := []
  leader : Bytes := []
  newAddress : Bytes := []
  signature : Bytes := []
  votes : List Validation := []
  deriving DecidableEq, Repr, Inhabited

namespace Node

/-- `Node::toAsn1` (`Node.cpp:172-185`). -/
def toAsn1 (n : Node) (t : Asn1.Node) : Asn1.Node :=
  { t with
    signature := fromBin n.signature
    votes := toStack Validation.toAsn1 n.votes
    content := { t.content with
      chainId := fromUInt64 n.chainId
      shardId := fromUInt32 n.shardId
      index := fromUInt32 n.index
      prevHash := n.prevHash.toAsn1 t.content.prevHash
      transactions := toStack Transaction.toAsn1 n.transactions
      nonce := fromBin n.nonce
      leader := fromBin n.leader
      newAddress := fromBin n.newAddress } }

/-- `Node::fromAsn1` (`Node.cpp:187-200`). -/
def fromAsn1 (t : Asn1.Node) : Node where
  signature := toBin t.signature
  votes := fromStack Validation.fromAsn1 id t.votes
  chainId := toUInt64 t.content.chainId
  shardId := toUInt32 t.content.shardId
  index := toUInt32 t.content.index
  prevHash := Hash.fromAsn1 t.content.prevHash
  transactions := fromStack Transaction.fromAsn1 Transaction.moveConstruct t.content.transactions
  nonce := toBin t.content.nonce
  leader := toBin t.content.leader
  newAddress := toBin t.content.newAddress

end Node

/-- `block::Block`: its tag (`Block::Type`) with the object the tag selects. -/
inductive Block where
  | none
  | genesis (genesis : Genesis)
  | reconciliation (reconciliation : Reconciliation)
  | node (node : Node)
  deriving DecidableEq, Repr, Inhabited

/-- `Block::Type`. -/
inductive BlockType where
  | none | genesis | reconciliation | node
  deriving DecidableEq, Repr

/-- `to_string(Block::Type)`. -/
def BlockType.toString : BlockType → String
  | .none => "None"
  | .genesis => "Genesis"
  | .reconciliation => "Reconciliation"
  | .node => "Node"

namespace Block

/-- `Block::getType`. -/
def getType : Block → BlockType
  | .none => .none
  | .genesis _ => .genesis
  | .reconciliation _ => .reconciliation
  | .node _ => .node

/-- `Block::toAsn1`: whatever the structure held is freed first. -/
def toAsn1 (b : Block) (_t : Asn1.Block) : Asn1.Block :=
  match b with
  | .none => .null
  | .genesis g => .genesis (g.toAsn1 default)
  | .reconciliation r => .reconciliation (r.toAsn1 default)
  | .node n => .node (n.toAsn1 default)

/-- `Block::fromAsn1`. -/
def fromAsn1 : Asn1.Block → Block
  | .null => .none
  | .genesis g => .genesis (Genesis.fromAsn1 g)
  | .reconciliation r => .reconciliation (Reconciliation.fromAsn1 r)
  | .node n => .node (Node.fromAsn1 n)

/-- `Block::operator=(const Block &)` (`Block.cpp:75-85`): the copy goes through ASN.1. -/
def copyAssign (rhs : Block) : Block := fromAsn1 (rhs.toAsn1 default)

/-- `Block::encode`. -/
def encode (o : OpenSsl) (b : Block) : Bytes := o.block.i2d (b.toAsn1 default)

/-- The hash the integrator stores for a block it imports (`DbIntegrator.cpp:266-267, 364-365`):
over `genesis.encode()` or `recon.toContent()`. -/
def importHash (o : OpenSsl) : Block → Hash
  | .genesis g => Hash.ofData o (g.encode o)
  | .reconciliation r => Hash.ofData o (r.toContent o)
  | _ => {}

end Block

/-! ## `block::decode` -/

/-- The common body of the four overloads. -/
def decodeItem {α β : Type} (it : Item α) (fromAsn1 : α → β) (data : Bytes) : Option β :=
  (it.read data).map fromAsn1

/-- `block::decode(const BinData &, Hash &)`. -/
def decodeHash (o : OpenSsl) : Bytes → Option Hash := decodeItem o.hash Hash.fromAsn1

/-- `block::decode(const BinData &, Block &)`. -/
def decodeBlock (o : OpenSsl) : Bytes → Option Block := decodeItem o.block Block.fromAsn1

/-- `block::decode(const BinData &, Genesis &)`. -/
def decodeGenesis (o : OpenSsl) : Bytes → Option Genesis := decodeItem o.genesis Genesis.fromAsn1

/-- `block::decode(const BinData &, Reconciliation &)`. -/
def decodeReconciliation (o : OpenSsl) : Bytes → Option Reconciliation :=
  decodeItem o.reconciliation Reconciliation.fromAsn1

end Fluffycoin
