import Fluffycoin.Block.Objects

/-!
# Writing an object to ASN.1 and reading it back

`Block::operator=(const Block &)` copies through `toAsn1` and `fromAsn1`, and so does every block
that is encoded and decoded. This module says what that pair keeps.

`Fits w x`: the byte strings of `x` are shorter than `2^31 - 1`, as `ASN1_STRING_set` asks, and
`w` holds of its 64-bit numbers. With `w` the numbers that `toUInt64 ∘ fromUInt64` keeps (`Kept`,
those below `2^63` among them) every object but a transaction comes back unchanged
(`X.fromAsn1_toAsn1`), whatever the ASN.1 structure held before. A `Node` comes back with each
transaction replaced by a move-constructed one (`Node.fromAsn1_toAsn1`), which has lost everything
but its action.

What `fromAsn1` builds always fits (`X.fits_fromAsn1`), out-of-range integers included. So a block
that does not fit is not its own copy (`Block.copyAssign_genesis_iff` and the like), and a decoded
block is (`Block.copyAssign_fromAsn1`): the copies the curator takes of its pending blocks are the
blocks.
-/

namespace Fluffycoin

open Fluffycoin.Ossl

/-- The 64-bit number survives its own round trip. -/
def Kept (v : UInt64) : Prop := toUInt64 (fromUInt64 v) = v

/-- Below `2^63`. -/
def Small (v : UInt64) : Prop := v.toNat < 2 ^ 63

theorem Small.kept {v : UInt64} (h : Small v) : Kept v := toUInt64_fromUInt64 h

/-- A byte string that `ASN1_STRING_set` takes whole. -/
def Short (data : Bytes) : Prop := data.length < 2 ^ 31 - 1

theorem short_toBin (t : Asn1.Str) : Short (toBin t) := t.length_lt

theorem Short.accepted {data : Bytes} (h : Short data) : Accepted data :=
  (accepted_iff_of_lt (h.trans (by decide))).mpr h

theorem kept_toUInt64 (t : Int) : Kept (toUInt64 t) := toUInt64_fromUInt64_toUInt64 t

/-- Each element of a stack comes back as its move constructor leaves it. -/
theorem fromStack_toStack {α β : Type} [Inhabited β] {put : α → β → β} {get : β → α}
    {move : α → α} {l : List α} (h : ∀ x ∈ l, get (put x default) = x) :
    fromStack get move (toStack put l) = l.map move := by
  unfold fromStack toStack
  rw [List.map_map]
  refine List.map_congr_left fun x hx => ?_
  simp only [Function.comp]
  rw [h x hx]

section Fits

variable (w : UInt64 → Prop)

namespace Hash

def Fits (h : Hash) : Prop := Short h.sha2 ∧ Short h.sha3

theorem fromAsn1_toAsn1 {h : Hash} (hf : h.Fits) (t : Asn1.Hash) : fromAsn1 (h.toAsn1 t) = h := by
  simp only [fromAsn1, toAsn1]
  rw [toBin_fromBin hf.1, toBin_fromBin hf.2]

theorem fits_fromAsn1 (t : Asn1.Hash) : (fromAsn1 t).Fits := ⟨short_toBin _, short_toBin _⟩

end Hash

namespace Specie

def Fits (s : Specie) : Prop := w s.coins

theorem fromAsn1_toAsn1 {s : Specie} (hf : s.Fits Kept) (t : Asn1.Specie) :
    fromAsn1 (s.toAsn1 t) = s := by
  simp only [fromAsn1, toAsn1]
  rw [show toUInt64 (fromUInt64 s.coins) = s.coins from hf, toUInt32_fromUInt32]

theorem fits_fromAsn1 (t : Asn1.Specie) : (fromAsn1 t).Fits Kept := kept_toUInt64 _

end Specie

namespace Validation

def Fits (v : Validation) : Prop := Short v.address ∧ Short v.signature

theorem fromAsn1_toAsn1 {v : Validation} (hf : v.Fits) (t : Asn1.Validation) :
    fromAsn1 (v.toAsn1 t) = v := by
  simp only [fromAsn1, toAsn1]
  rw [toBin_fromBin hf.1, toBin_fromBin hf.2]
  cases v with
  | mk verified address signature => cases verified <;> rfl

theorem fits_fromAsn1 (t : Asn1.Validation) : (fromAsn1 t).Fits :=
  ⟨short_toBin _, short_toBin _⟩

end Validation

namespace ReconciliationShardInfo

def Fits (i : ReconciliationShardInfo) : Prop := i.hash.Fits

theorem fromAsn1_toAsn1 {i : ReconciliationShardInfo} (hf : i.Fits)
    (t : Asn1.ReconciliationShardInfo) : fromAsn1 (i.toAsn1 t) = i := by
  simp only [fromAsn1, toAsn1]
  rw [Hash.fromAsn1_toAsn1 hf, toUInt32_fromUInt32]

theorem fits_fromAsn1 (t : Asn1.ReconciliationShardInfo) : (fromAsn1 t).Fits :=
  Hash.fits_fromAsn1 _

end ReconciliationShardInfo

namespace Exchange

def Fits (e : Exchange) : Prop := Short e.receiver ∧ e.amount.Fits w

theorem fromAsn1_toAsn1 {e : Exchange} (hf : e.Fits Kept) (t : Asn1.Exchange) :
    fromAsn1 (e.toAsn1 t) = e := by
  simp only [fromAsn1, toAsn1]
  rw [toBin_fromBin hf.1, Specie.fromAsn1_toAsn1 hf.2]

theorem fits_fromAsn1 (t : Asn1.Exchange) : (fromAsn1 t).Fits Kept :=
  ⟨short_toBin _, Specie.fits_fromAsn1 _⟩

end Exchange

namespace Transfer

def Fits (x : Transfer) : Prop := (∀ e ∈ x.exchanges, e.Fits w) ∧ Short x.coin

theorem fromAsn1_toAsn1 {x : Transfer} (hf : x.Fits Kept) (t : Asn1.Transfer) :
    fromAsn1 (x.toAsn1 t) = x := by
  simp only [fromAsn1, toAsn1]
  rw [fromStack_toStack fun e he => Exchange.fromAsn1_toAsn1 (hf.1 e he) default, List.map_id,
    toBin_fromBin hf.2]

theorem fits_fromAsn1 (t : Asn1.Transfer) : (fromAsn1 t).Fits Kept := by
  refine ⟨fun e he => ?_, short_toBin _⟩
  obtain ⟨e', _, rfl⟩ := List.mem_map.mp he
  exact Exchange.fits_fromAsn1 e'

end Transfer

namespace Action

def Fits : Action → Prop
  | .none => True
  | .transfer x => x.Fits w

theorem fromAsn1_toAsn1 {a : Action} (hf : a.Fits Kept) : fromAsn1 a.toAsn1 = a := by
  cases a with
  | none => rfl
  | transfer x =>
    simp only [fromAsn1, toAsn1]
    rw [Transfer.fromAsn1_toAsn1 hf]

theorem fits_fromAsn1 : ∀ t : Asn1.TransactionChoice, (fromAsn1 t).Fits Kept
  | .null => trivial
  | .transfer x => Transfer.fits_fromAsn1 x

end Action

namespace Transaction

structure Fits (x : Transaction) : Prop where
  action : x.action.Fits w
  time : w x.time
  signer : Short x.signer
  signerKey : Short x.signerKey
  newAddress : Short x.newAddress
  signature : Short x.signature

/-- `fromAsn1` itself reads every field back; what is lost is lost by the move after it. -/
theorem fromAsn1_toAsn1 {x : Transaction} (hf : x.Fits Kept) (t : Asn1.Transaction) :
    fromAsn1 (x.toAsn1 t) = x := by
  simp only [fromAsn1, toAsn1]
  rw [Action.fromAsn1_toAsn1 hf.action, toBin_fromBin hf.signer, toBin_fromBin hf.signerKey,
    toBin_fromBin hf.newAddress, toBin_fromBin hf.signature,
    show toUInt64 (fromUInt64 x.time) = x.time from hf.time]

theorem fits_fromAsn1 (t : Asn1.Transaction) : (fromAsn1 t).Fits Kept where
  action := Action.fits_fromAsn1 _
  time := kept_toUInt64 _
  signer := short_toBin _
  signerKey := short_toBin _
  newAddress := short_toBin _
  signature := short_toBin _

/-- Moved from a transaction that fits: fits. -/
theorem fits_moveConstruct {x : Transaction} (hf : x.Fits Kept) : (moveConstruct x).Fits Kept where
  action := hf.action
  time := by show Kept 0; unfold Kept; decide
  signer := by show Short []; unfold Short; decide
  signerKey := by show Short []; unfold Short; decide
  newAddress := by show Short []; unfold Short; decide
  signature := by show Short []; unfold Short; decide

end Transaction

namespace Genesis

structure Fits (g : Genesis) : Prop where
  name : Short g.name
  creation : w g.creation
  creator : Short g.creator
  validatorKey : Short g.validatorKey
  stakeAddress : Short g.stakeAddress
  greed : g.greed.Fits w
  seed : Short g.seed

theorem fromAsn1_toAsn1 {g : Genesis} (hf : g.Fits Kept) (t : Asn1.Genesis) :
    fromAsn1 (g.toAsn1 t) = g := by
  simp only [fromAsn1, toAsn1]
  rw [toUInt32_fromUInt64, toUInt32_fromUInt64, toBin_fromBin hf.name, toBin_fromBin hf.creator,
    toBin_fromBin hf.validatorKey, toBin_fromBin hf.stakeAddress, toBin_fromBin hf.seed,
    Specie.fromAsn1_toAsn1 hf.greed, show toUInt64 (fromUInt64 g.creation) = g.creation from
      hf.creation]

/-- A string that is not kept is lost once: what was read back is written as the original is. -/
theorem toAsn1_fromAsn1_toAsn1 {g : Genesis} (hcreation : Kept g.creation)
    (hgreed : g.greed.Fits Kept) (t : Asn1.Genesis) :
    (fromAsn1 (g.toAsn1 t)).toAsn1 t = g.toAsn1 t := by
  simp only [fromAsn1, toAsn1, fromBin_toBin, toUInt32_fromUInt64, Specie.fromAsn1_toAsn1 hgreed,
    show toUInt64 (fromUInt64 g.creation) = g.creation from hcreation]

theorem fits_fromAsn1 (t : Asn1.Genesis) : (fromAsn1 t).Fits Kept where
  name := short_toBin _
  creation := kept_toUInt64 _
  creator := short_toBin _
  validatorKey := short_toBin _
  stakeAddress := short_toBin _
  greed := Specie.fits_fromAsn1 _
  seed := short_toBin _

end Genesis

namespace Reconciliation

structure Fits (r : Reconciliation) : Prop where
  shardInfo : ∀ i ∈ r.shardInfo, i.Fits
  leader : Short r.leader
  signature : Short r.signature
  votes : ∀ v ∈ r.votes, v.Fits

theorem fromAsn1_toAsn1 {r : Reconciliation} (hf : r.Fits) (t : Asn1.Reconciliation) :
    fromAsn1 (r.toAsn1 t) = r := by
  simp only [fromAsn1, toAsn1]
  rw [toUInt32_fromUInt32, toUInt32_fromUInt32, toBin_fromBin hf.leader, toBin_fromBin hf.signature,
    fromStack_toStack fun i h => ReconciliationShardInfo.fromAsn1_toAsn1 (hf.shardInfo i h) default,
    fromStack_toStack fun v h => Validation.fromAsn1_toAsn1 (hf.votes v h) default,
    List.map_id, List.map_id]

theorem fits_fromAsn1 (t : Asn1.Reconciliation) : (fromAsn1 t).Fits where
  shardInfo i hi := by
    obtain ⟨i', _, rfl⟩ := List.mem_map.mp hi
    exact ReconciliationShardInfo.fits_fromAsn1 i'
  leader := short_toBin _
  signature := short_toBin _
  votes v hv := by
    obtain ⟨v', _, rfl⟩ := List.mem_map.mp hv
    exact Validation.fits_fromAsn1 v'

end Reconciliation

namespace Node

structure Fits (n : Node) : Prop where
  chainId : w n.chainId
  prevHash : n.prevHash.Fits
  transactions : ∀ x ∈ n.transactions, x.Fits w
  nonce : Short n.nonce
  leader : Short n.leader
  newAddress : Short n.newAddress
  signature : Short n.signature
  votes : ∀ v ∈ n.votes, v.Fits

/-- **A node comes back with its transactions moved**: every other field is kept. -/
theorem fromAsn1_toAsn1 {n : Node} (hf : n.Fits Kept) (t : Asn1.Node) :
    fromAsn1 (n.toAsn1 t) =
      { n with transactions := n.transactions.map Transaction.moveConstruct } := by
  simp only [fromAsn1, toAsn1]
  rw [toUInt32_fromUInt32, toUInt32_fromUInt32, toBin_fromBin hf.nonce, toBin_fromBin hf.leader,
    toBin_fromBin hf.newAddress, toBin_fromBin hf.signature, Hash.fromAsn1_toAsn1 hf.prevHash,
    fromStack_toStack fun x h => Transaction.fromAsn1_toAsn1 (hf.transactions x h) default,
    fromStack_toStack fun v h => Validation.fromAsn1_toAsn1 (hf.votes v h) default,
    List.map_id, show toUInt64 (fromUInt64 n.chainId) = n.chainId from hf.chainId]

theorem fits_fromAsn1 (t : Asn1.Node) : (fromAsn1 t).Fits Kept where
  chainId := kept_toUInt64 _
  prevHash := Hash.fits_fromAsn1 _
  transactions x hx := by
    obtain ⟨x', _, rfl⟩ := List.mem_map.mp hx
    exact Transaction.fits_moveConstruct (Transaction.fits_fromAsn1 x')
  nonce := short_toBin _
  leader := short_toBin _
  newAddress := short_toBin _
  signature := short_toBin _
  votes v hv := by
    obtain ⟨v', _, rfl⟩ := List.mem_map.mp hv
    exact Validation.fits_fromAsn1 v'

/-- The transactions of a decoded node have been moved already. -/
theorem map_moveConstruct_fromAsn1 (t : Asn1.Node) :
    (fromAsn1 t).transactions.map Transaction.moveConstruct = (fromAsn1 t).transactions := by
  simp only [fromAsn1, fromStack, List.map_map]
  rfl

end Node

end Fits

/-! ## Weakening the condition on the 64-bit numbers -/

section Mono

variable {w w' : UInt64 → Prop} (h : ∀ v, w v → w' v)

include h

theorem Transfer.Fits.mono {x : Transfer} (hf : x.Fits w) : x.Fits w' :=
  ⟨fun e he => ⟨(hf.1 e he).1, h _ (hf.1 e he).2⟩, hf.2⟩

theorem Action.Fits.mono {a : Action} (hf : a.Fits w) : a.Fits w' := by
  cases a with
  | none => trivial
  | transfer x => exact Transfer.Fits.mono h hf

theorem Transaction.Fits.mono {x : Transaction} (hf : x.Fits w) : x.Fits w' :=
  { hf with action := Action.Fits.mono h hf.action, time := h _ hf.time }

theorem Genesis.Fits.mono {g : Genesis} (hf : g.Fits w) : g.Fits w' :=
  { hf with creation := h _ hf.creation, greed := h _ hf.greed }

theorem Node.Fits.mono {n : Node} (hf : n.Fits w) : n.Fits w' :=
  { hf with
    chainId := h _ hf.chainId
    transactions := fun x hx => Transaction.Fits.mono h (hf.transactions x hx) }

end Mono

/-! ## The copy assignment -/

namespace Block

theorem copyAssign_genesis {g : Genesis} (hf : g.Fits Kept) :
    copyAssign (.genesis g) = .genesis g :=
  congrArg Block.genesis (Genesis.fromAsn1_toAsn1 hf default)

theorem copyAssign_reconciliation {r : Reconciliation} (hf : r.Fits) :
    copyAssign (.reconciliation r) = .reconciliation r :=
  congrArg Block.reconciliation (Reconciliation.fromAsn1_toAsn1 hf default)

theorem copyAssign_node {n : Node} (hf : n.Fits Kept) :
    copyAssign (.node n) =
      .node { n with transactions := n.transactions.map Transaction.moveConstruct } :=
  congrArg Block.node (Node.fromAsn1_toAsn1 hf default)

/-- A genesis block that does not fit is not its own copy. -/
theorem copyAssign_genesis_iff (g : Genesis) : copyAssign (.genesis g) = .genesis g ↔
    g.Fits Kept := by
  refine ⟨fun h => ?_, copyAssign_genesis⟩
  rw [← Block.genesis.inj h]
  exact Genesis.fits_fromAsn1 _

theorem copyAssign_reconciliation_iff (r : Reconciliation) :
    copyAssign (.reconciliation r) = .reconciliation r ↔ r.Fits := by
  refine ⟨fun h => ?_, copyAssign_reconciliation⟩
  rw [← Block.reconciliation.inj h]
  exact Reconciliation.fits_fromAsn1 _

theorem fits_of_copyAssign_node {n : Node} (h : copyAssign (.node n) = .node n) :
    n.Fits Kept := by
  rw [← Block.node.inj h]
  exact Node.fits_fromAsn1 _

/-- **A decoded block is its own copy**, whatever integers and strings it was decoded from. -/
theorem copyAssign_fromAsn1 (t : Asn1.Block) : copyAssign (fromAsn1 t) = fromAsn1 t := by
  cases t with
  | null => rfl
  | genesis g => exact copyAssign_genesis (Genesis.fits_fromAsn1 g)
  | reconciliation r => exact copyAssign_reconciliation (Reconciliation.fits_fromAsn1 r)
  | node n =>
    refine (copyAssign_node (Node.fits_fromAsn1 n)).trans ?_
    rw [Node.map_moveConstruct_fromAsn1]
    rfl

/-- The same for `block::decode`. -/
theorem copyAssign_decodeBlock {o : OpenSsl} {data : Bytes} {b : Block}
    (h : decodeBlock o data = some b) : copyAssign b = b := by
  unfold decodeBlock decodeItem at h
  obtain ⟨t, _, rfl⟩ := Option.map_eq_some_iff.mp h
  exact copyAssign_fromAsn1 t

end Block

end Fluffycoin
