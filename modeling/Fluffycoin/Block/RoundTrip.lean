import Fluffycoin.Block.Copy
import Fluffycoin.Block.Der

/-!
# Which blocks survive encoding and copying

A block leaves a process as `Block::encode()` and comes back through `block::decode`; inside a
process it is copied by `Block::operator=(const Block &)`. Over any OpenSSL that round-trips the
templates (`OpenSsl.RoundTrips`) this module says for each block type what comes back.

* A `Genesis` or a `Reconciliation` comes back with every field equal, the votes up to the order
  DER gives a `SET OF` when encoded, and in order when copied
  (`genesis_and_reconciliation_survive`), if its byte strings are shorter than `2^31 - 1` bytes. At
  that length `ASN1_STRING_set` refuses the string, and nobody looks at the result
  (`longest_int_lost`); from `2^31` on the `int` passed to it is negative, which asks OpenSSL to
  measure the string with `strlen`.
* A `Node` comes back with its transactions stripped: `fromTransactionStack` moves each decoded
  transaction into its list, and `Transaction::operator=(Transaction &&)` moves the action only.
  Time, signer, keys and signature are gone, on both paths, unless they were at their defaults in
  every transaction. That apart, the bound on the strings is the same (`node_survives_iff`).
-/

namespace Fluffycoin

open Fluffycoin.Ossl

/-! ## Equality up to the order of the votes -/

/-- Every field equal, the votes as a multiset. -/
structure Reconciliation.SetEq (a b : Reconciliation) : Prop where
  protocol : a.protocol = b.protocol
  chainId : a.chainId = b.chainId
  shardInfo : a.shardInfo = b.shardInfo
  leader : a.leader = b.leader
  signature : a.signature = b.signature
  votes : a.votes.Perm b.votes

/-- Every field equal, the votes as a multiset. -/
structure Node.SetEq (a b : Node) : Prop where
  chainId : a.chainId = b.chainId
  shardId : a.shardId = b.shardId
  index : a.index = b.index
  prevHash : a.prevHash = b.prevHash
  transactions : a.transactions = b.transactions
  nonce : a.nonce = b.nonce
  leader : a.leader = b.leader
  newAddress : a.newAddress = b.newAddress
  signature : a.signature = b.signature
  votes : a.votes.Perm b.votes

theorem Reconciliation.fromAsn1_setEq {t u : Asn1.Reconciliation} (h : t.SetEq u) :
    (fromAsn1 t).SetEq (fromAsn1 u) := by
  obtain ⟨hc, hs, hv⟩ := h
  constructor <;> simp only [fromAsn1, hc, hs]
  exact hv.map _

theorem Node.fromAsn1_setEq {t u : Asn1.Node} (h : t.SetEq u) :
    (fromAsn1 t).SetEq (fromAsn1 u) := by
  obtain ⟨hc, hs, hv⟩ := h
  constructor <;> simp only [fromAsn1, hc, hs]
  exact hv.map _

/-- A list of at most one vote has one order. -/
theorem Reconciliation.SetEq.eq_of_votes {a b : Reconciliation} (h : a.SetEq b)
    (hvotes : a.votes.length ≤ 1) : a = b := by
  obtain ⟨hp, hc, hs, hl, hg, hv⟩ := h
  have hsame : a.votes = b.votes := by
    match hlist : a.votes, hvotes with
    | [], _ =>
      rw [hlist] at hv
      exact List.Perm.nil_eq hv
    | [v], _ =>
      rw [hlist] at hv
      exact List.Perm.singleton_eq hv
  cases a with
  | mk protocol chainId shardInfo leader signature votes =>
    cases b with
    | mk protocol' chainId' shardInfo' leader' signature' votes' =>
      simp only at hp hc hs hl hg hsame
      rw [hp, hc, hs, hl, hg, hsame]

section Decode

variable {o : OpenSsl} (ho : o.RoundTrips)

include ho

/-! ## What `block::decode` makes of `Block::encode` -/

/-- A genesis block is decoded as its copy. -/
theorem decodeBlock_encode_genesis_copy (g : Genesis) :
    decodeBlock o (Block.encode o (.genesis g)) = some (Block.copyAssign (.genesis g)) := by
  obtain ⟨v, hread, hv⟩ := ho.block (Block.toAsn1 (.genesis g) default)
  unfold decodeBlock decodeItem Block.encode
  rw [hread]
  cases v with
  | genesis t =>
    obtain rfl : g.toAsn1 default = t := hv
    rfl
  | null => exact hv.elim
  | reconciliation t => exact hv.elim
  | node t => exact hv.elim

theorem decodeBlock_encode_genesis {g : Genesis} (hf : g.Fits Kept) :
    decodeBlock o (Block.encode o (.genesis g)) = some (.genesis g) := by
  rw [decodeBlock_encode_genesis_copy ho, Block.copyAssign_genesis hf]

/-- A reconciliation block is decoded as its copy, up to the order of the votes. -/
theorem exists_decodeBlock_encode_reconciliation (r : Reconciliation) :
    ∃ r', decodeBlock o (Block.encode o (.reconciliation r)) = some (.reconciliation r') ∧
      (Reconciliation.fromAsn1 (r.toAsn1 default)).SetEq r' := by
  obtain ⟨v, hread, hv⟩ := ho.block (Block.toAsn1 (.reconciliation r) default)
  unfold decodeBlock decodeItem Block.encode
  rw [hread]
  cases v with
  | reconciliation t => exact ⟨Reconciliation.fromAsn1 t, rfl, Reconciliation.fromAsn1_setEq hv⟩
  | null => exact hv.elim
  | genesis t => exact hv.elim
  | node t => exact hv.elim

theorem decodeBlock_encode_reconciliation {r : Reconciliation} (hf : r.Fits) :
    ∃ r', decodeBlock o (Block.encode o (.reconciliation r)) = some (.reconciliation r') ∧
      r.SetEq r' := by
  have h := exists_decodeBlock_encode_reconciliation ho r
  rwa [Reconciliation.fromAsn1_toAsn1 hf] at h

/-- With at most one vote there is no order to lose. -/
theorem decodeBlock_encode_reconciliation_copy (r : Reconciliation) (hvotes : r.votes.length ≤ 1) :
    decodeBlock o (Block.encode o (.reconciliation r)) =
      some (Block.copyAssign (.reconciliation r)) := by
  obtain ⟨r', hdecode, h⟩ := exists_decodeBlock_encode_reconciliation ho r
  have hone : (Reconciliation.fromAsn1 (r.toAsn1 default)).votes.length ≤ 1 := by
    simpa only [Reconciliation.fromAsn1, Reconciliation.toAsn1, fromStack, toStack,
      List.length_map] using hvotes
  rw [hdecode, ← h.eq_of_votes hone]
  rfl

theorem decodeBlock_encode_reconciliation_of_votes {r : Reconciliation} (hf : r.Fits)
    (hvotes : r.votes.length ≤ 1) :
    decodeBlock o (Block.encode o (.reconciliation r)) = some (.reconciliation r) := by
  rw [decodeBlock_encode_reconciliation_copy ho r hvotes, Block.copyAssign_reconciliation hf]

/-- A node is decoded with the same transactions it is copied with. -/
theorem decodeBlock_encode_node {n : Node} (hf : n.Fits Kept) :
    ∃ n', decodeBlock o (Block.encode o (.node n)) = some (.node n') ∧
      { n with transactions := n.transactions.map Transaction.moveConstruct }.SetEq n' := by
  obtain ⟨v, hread, hv⟩ := ho.block (Block.toAsn1 (.node n) default)
  unfold decodeBlock decodeItem Block.encode
  rw [hread]
  cases v with
  | node t =>
    have h := Node.fromAsn1_setEq (t := n.toAsn1 default) hv
    rw [Node.fromAsn1_toAsn1 hf] at h
    exact ⟨Node.fromAsn1 t, rfl, h⟩
  | null => exact hv.elim
  | genesis t => exact hv.elim
  | reconciliation t => exact hv.elim

end Decode

/-! ## Genesis and reconciliation blocks -/

/-- **Genesis and reconciliation blocks survive encoding and copying**, given strings shorter than
`2^31 - 1` bytes and 64-bit numbers below `2^63`. -/
theorem genesis_and_reconciliation_survive (o : OpenSsl) (ho : o.RoundTrips) :
    (∀ g : Genesis, g.Fits Small →
      decodeBlock o (Block.encode o (.genesis g)) = some (.genesis g) ∧
      Block.copyAssign (.genesis g) = .genesis g) ∧
    (∀ r : Reconciliation, r.Fits →
      (∃ r', decodeBlock o (Block.encode o (.reconciliation r)) = some (.reconciliation r') ∧
        r.SetEq r') ∧
      Block.copyAssign (.reconciliation r) = .reconciliation r) := by
  refine ⟨fun g hf => ?_, fun r hf => ?_⟩
  · have hk : g.Fits Kept := hf.mono fun _ => Small.kept
    exact ⟨decodeBlock_encode_genesis ho hk, Block.copyAssign_genesis hk⟩
  · exact ⟨decodeBlock_encode_reconciliation ho hf, Block.copyAssign_reconciliation hf⟩

theorem genesis_and_reconciliation_survive_der :
    decodeBlock (der id id) (Block.encode (der id id) (.genesis { creator := [7] })) =
        some (.genesis { creator := [7] }) ∧
      Block.copyAssign (.reconciliation { chainId := 1, leader := [8] }) =
        .reconciliation { chainId := 1, leader := [8] } := by
  obtain ⟨hg, hr⟩ := genesis_and_reconciliation_survive (der id id) (der_roundTrips id id)
  have hgf : Genesis.Fits Small { creator := [7] } := by
    constructor <;> simp [Short, Small, Specie.Fits]
  have hrf : Reconciliation.Fits { chainId := 1, leader := [8] } := by
    constructor <;> simp [Short]
  exact ⟨(hg _ hgf).1, (hr _ hrf).2⟩

theorem not_short_of_le {n : Nat} (h : 2 ^ 31 - 1 ≤ n) : ¬ Short (List.replicate n 0) := by
  rw [Short, List.length_replicate]
  exact Nat.not_lt.mpr h

/-- Where the bound on the strings is needed: `2^31 - 1` bytes, as many as an `int` can say, are
lost by the copy. -/
theorem longest_int_lost :
    Block.copyAssign (.genesis { name := List.replicate (2 ^ 31 - 1) 0 }) ≠
        .genesis { name := List.replicate (2 ^ 31 - 1) 0 } ∧
      Block.copyAssign (.reconciliation { leader := List.replicate (2 ^ 31 - 1) 0 }) ≠
        .reconciliation { leader := List.replicate (2 ^ 31 - 1) 0 } := by
  rw [Ne, Block.copyAssign_genesis_iff, Ne, Block.copyAssign_reconciliation_iff]
  exact ⟨fun h => not_short_of_le le_rfl h.name, fun h => not_short_of_le le_rfl h.leader⟩

/-! ## Nodes -/

/-- Everything but the action is at its default. -/
structure Transaction.Bare (x : Transaction) : Prop where
  time : x.time = 0
  signer : x.signer = []
  signerKey : x.signerKey = []
  newAddress : x.newAddress = []
  signature : x.signature = []

/-- The bare transactions are the ones the move keeps. -/
theorem Transaction.moveConstruct_eq_iff (x : Transaction) : moveConstruct x = x ↔ x.Bare := by
  cases x with
  | mk action time signer signerKey newAddress signature =>
    constructor
    · intro h
      simp only [moveConstruct, moveAssign, mk.injEq] at h
      obtain ⟨_, rfl, rfl, rfl, rfl, rfl⟩ := h
      constructor <;> rfl
    · rintro ⟨rfl, rfl, rfl, rfl, rfl⟩
      rfl

theorem map_moveConstruct_eq_iff (l : List Transaction) :
    l.map Transaction.moveConstruct = l ↔ ∀ x ∈ l, x.Bare := by
  simp only [← Transaction.moveConstruct_eq_iff]
  conv_lhs => rhs; rw [← List.map_id l]
  exact List.map_inj_left

theorem Block.copyAssign_node_eq_iff (n : Node) :
    Block.copyAssign (.node n) = .node n ↔ n.Fits Kept ∧ ∀ x ∈ n.transactions, x.Bare := by
  constructor
  · intro h
    have hf := Block.fits_of_copyAssign_node h
    rw [Block.copyAssign_node hf] at h
    exact ⟨hf, (map_moveConstruct_eq_iff _).mp (congrArg Node.transactions (Block.node.inj h))⟩
  · rintro ⟨hf, hbare⟩
    rw [Block.copyAssign_node hf, (map_moveConstruct_eq_iff _).mpr hbare]

/-- Whatever is equal to a decoded node fits. -/
theorem Node.SetEq.fits {n n' : Node} (h : n.SetEq n') (hf : n'.Fits Kept) : n.Fits Kept where
  chainId := h.chainId ▸ hf.chainId
  prevHash := h.prevHash ▸ hf.prevHash
  transactions := h.transactions ▸ hf.transactions
  nonce := h.nonce ▸ hf.nonce
  leader := h.leader ▸ hf.leader
  newAddress := h.newAddress ▸ hf.newAddress
  signature := h.signature ▸ hf.signature
  votes v hv := hf.votes v (h.votes.mem_iff.mp hv)

theorem fits_of_decodeBlock {o : OpenSsl} {data : Bytes} {n : Node}
    (h : decodeBlock o data = some (.node n)) : n.Fits Kept :=
  Block.fits_of_copyAssign_node (Block.copyAssign_decodeBlock h)

theorem decodeBlock_encode_node_iff {o : OpenSsl} (ho : o.RoundTrips) (n : Node) :
    (∃ n', decodeBlock o (Block.encode o (.node n)) = some (.node n') ∧ n.SetEq n') ↔
      n.Fits Kept ∧ ∀ x ∈ n.transactions, x.Bare := by
  constructor
  · rintro ⟨n', hdec, hn⟩
    have hf := hn.fits (fits_of_decodeBlock hdec)
    obtain ⟨n'', hdec', hn'⟩ := decodeBlock_encode_node ho hf
    obtain rfl : n' = n'' := Block.node.inj (Option.some.inj (hdec.symm.trans hdec'))
    exact ⟨hf, (map_moveConstruct_eq_iff _).mp (hn'.transactions.trans hn.transactions.symm)⟩
  · rintro ⟨hf, hbare⟩
    obtain ⟨n', hdec, hn⟩ := decodeBlock_encode_node ho hf
    rw [(map_moveConstruct_eq_iff _).mpr hbare] at hn
    exact ⟨n', hdec, hn⟩

/-- **When a node survives**: encoding and copying keep a node exactly if its byte strings are
shorter than `2^31 - 1`, its 64-bit numbers are kept, as those below `2^63` are, and every one of
its transactions is bare. -/
theorem node_survives_iff (o : OpenSsl) (ho : o.RoundTrips) (n : Node) :
    ((∃ n', decodeBlock o (Block.encode o (.node n)) = some (.node n') ∧ n.SetEq n') ∧
      Block.copyAssign (.node n) = .node n) ↔
      n.Fits Kept ∧ ∀ x ∈ n.transactions, x.Bare := by
  rw [decodeBlock_encode_node_iff ho n, Block.copyAssign_node_eq_iff n, and_self]

/-- A node with one transaction that has a signer. -/
def signedNode : Node := { transactions := [{ signer := [1] }] }

theorem signedNode_fits (w : UInt64 → Prop) (h0 : w 0) : signedNode.Fits w where
  chainId := h0
  prevHash := by simp [signedNode, Hash.Fits, Short]
  transactions x hx := by
    obtain rfl : x = { signer := [1] } := List.mem_singleton.mp hx
    constructor <;> simp [Short, Action.Fits, h0]
  nonce := by simp [signedNode, Short]
  leader := by simp [signedNode, Short]
  newAddress := by simp [signedNode, Short]
  signature := by simp [signedNode, Short]
  votes v hv := by simp [signedNode] at hv

theorem node_survives_iff_signedNode :
    ((∃ n', decodeBlock (der id id) (Block.encode (der id id) (.node signedNode)) =
          some (.node n') ∧ signedNode.SetEq n') ∧
        Block.copyAssign (.node signedNode) = .node signedNode) ↔
      signedNode.Fits Kept ∧ ∀ x ∈ signedNode.transactions, x.Bare :=
  node_survives_iff (der id id) (der_roundTrips id id) signedNode

/-- The signer is lost, over DER itself, by the decoded block and by the copy. The node fits. -/
theorem signedNode_does_not_survive :
    signedNode.Fits Small ∧
      (¬ ∃ n', decodeBlock (der id id) (Block.encode (der id id) (.node signedNode)) =
        some (.node n') ∧ signedNode.SetEq n') ∧
      Block.copyAssign (.node signedNode) ≠ .node signedNode := by
  have hbare : ¬ ∀ x ∈ signedNode.transactions, x.Bare := fun h => by
    have := (h { signer := [1] } (List.mem_singleton.mpr rfl)).signer
    cases this
  rw [decodeBlock_encode_node_iff (der_roundTrips id id)]
  exact ⟨signedNode_fits Small (by unfold Small; decide), fun h => hbare h.2,
    fun h => hbare ((Block.copyAssign_node_eq_iff _).mp h).2⟩

end Fluffycoin
