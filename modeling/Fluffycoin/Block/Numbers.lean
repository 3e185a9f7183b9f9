import Fluffycoin.Block.Content
import Fluffycoin.Block.Copy

/-!
# The numbers of a decoded block

Every number of a block is an `INTEGER` of any size on the wire and a `uint32_t` or `uint64_t` in
the object. Between them stand `toUInt32` and `toUInt64` (`convert.cpp:31-72`), which report an
integer out of range to the log and return zero, so `decode` accepts the block. `toUInt64` calls
`ASN1_INTEGER_get`, whose result is a signed `long`: from `2^63` on it is `-1`, the error value.
`Specie::fromAsn1` (`Specie.cpp:67-71`) does not pass through `setFluffs`, and that would only log.

* `Agrees x t`: the numbers of the object `x` are the integers at their places in `t`, and no
  amount holds a whole coin of fluffs.
* `NumbersInRange t`: what has to hold of the integers for that, place by place
  (`X.agrees_fromAsn1_iff`). A transaction's time has to be zero: the decoded transaction is moved
  into the node, and the move leaves the time behind (`Transaction::operator=(Transaction &&)`).
* **`numbers_kept_iff`**: decoding keeps the numbers of an accepted block exactly when they are in
  range; whatever they are, the block is accepted.
-/

namespace Fluffycoin

open Fluffycoin.Ossl

/-! ## The two converters -/

theorem toUInt32_eq_iff (t : Int) : ((toUInt32 t).toNat : Int) = t ↔ Asn1.IsUInt32 t := by
  constructor
  · intro h
    have hlt := (toUInt32 t).toNat_lt
    exact ⟨by omega, by omega⟩
  · intro h
    exact toUInt32_of_range h.1 h.2

/-- The integers `toUInt64` returns as they are. The last one is what `-1` is cast to. -/
def Asn1.IsUInt64 (t : Int) : Prop := (0 ≤ t ∧ t < 2 ^ 63) ∨ t = 2 ^ 64 - 1

theorem toUInt64_eq_iff (t : Int) : ((toUInt64 t).toNat : Int) = t ↔ Asn1.IsUInt64 t := by
  have hlt := (toUInt64 t).toNat_lt
  by_cases hsmall : 0 ≤ t ∧ t < 2 ^ 63
  · exact iff_of_true (toUInt64_of_range hsmall.1 hsmall.2) (.inl hsmall)
  by_cases hword : 0 ≤ t ∧ t < 2 ^ 64
  · -- from 2^63 to 2^64 the error value is all that comes back
    obtain ⟨n, rfl⟩ := Int.eq_ofNat_of_zero_le hword.1
    have hn : n < 2 ^ 64 := by exact_mod_cast hword.2
    have hfrom : fromUInt64 (UInt64.ofNat n) = n := by
      unfold fromUInt64
      rw [UInt64.toNat_ofNat_of_lt' hn]
    have hval : ((toUInt64 n).toNat : Int) = 2 ^ 64 - 1 := by
      rw [← hfrom, toUInt64_fromUInt64_of_le (by rw [UInt64.toNat_ofNat_of_lt' hn]; omega)]
      decide
    rw [hval, Asn1.IsUInt64]
    omega
  · refine iff_of_false (by omega) ?_
    unfold Asn1.IsUInt64
    omega

theorem kept_iff (v : UInt64) : Kept v ↔ v.toNat < 2 ^ 63 ∨ v.toNat = 2 ^ 64 - 1 := by
  have h := toUInt64_eq_iff (fromUInt64 v)
  unfold Kept
  rw [← UInt64.toNat_inj, ← Int.ofNat_inj, show ((v.toNat : Nat) : Int) = fromUInt64 v from rfl, h,
    Asn1.IsUInt64, fromUInt64]
  omega

/-! ## Part by part -/

/-- Over a stack, agreement is agreement element by element. -/
theorem forall₂_fromStack {α β : Type} {r : α → β → Prop} {get : β → α} {move : α → α}
    {st : List β} :
    List.Forall₂ r (fromStack get move st) st ↔ ∀ t ∈ st, r (move (get t)) t := by
  unfold fromStack
  rw [List.forall₂_map_left_iff, List.forall₂_same]

namespace Specie

/-- The amount is the one encoded, with less than one coin in fluffs. -/
structure Agrees (s : Specie) (t : Asn1.Specie) : Prop where
  coins : (s.coins.toNat : Int) = t.coins
  fluffs : (s.fluffs.toNat : Int) = t.fluffs
  fluffs_le : s.fluffs.toNat ≤ 99999999

end Specie

/-- Coins that `toUInt64` returns as they are, and the fluffs of `doc/asn1/core.asn1`. -/
structure Asn1.Specie.NumbersInRange (t : Asn1.Specie) : Prop where
  coins : IsUInt64 t.coins
  fluffs : 0 ≤ t.fluffs ∧ t.fluffs ≤ 99999999

theorem Specie.agrees_fromAsn1_iff (t : Asn1.Specie) :
    (fromAsn1 t).Agrees t ↔ t.NumbersInRange := by
  constructor
  · rintro ⟨hcoins, hfluffs, hle⟩
    exact ⟨(toUInt64_eq_iff _).mp hcoins, by omega⟩
  · rintro ⟨hcoins, hfluffs⟩
    have hsame := (toUInt32_eq_iff t.fluffs).mpr ⟨hfluffs.1, by omega⟩
    exact ⟨(toUInt64_eq_iff _).mpr hcoins, hsame, by simp only [fromAsn1]; omega⟩

namespace Exchange

def Agrees (e : Exchange) (t : Asn1.Exchange) : Prop := e.amount.Agrees t.amount

end Exchange

namespace Action

/-- The same alternative, and in a transfer every amount the one encoded. -/
def Agrees : Action → Asn1.TransactionChoice → Prop
  | .none, .null => True
  | .transfer x, .transfer t => List.Forall₂ Exchange.Agrees x.exchanges t.exchanges
  | _, _ => False

end Action

def Asn1.TransactionChoice.NumbersInRange : TransactionChoice → Prop
  | .null => True
  | .transfer t => ∀ e ∈ t.exchanges, e.amount.NumbersInRange

theorem Action.agrees_fromAsn1_iff (t : Asn1.TransactionChoice) :
    (fromAsn1 t).Agrees t ↔ t.NumbersInRange := by
  cases t with
  | null => exact Iff.rfl
  | transfer t =>
    show List.Forall₂ Exchange.Agrees (fromStack Exchange.fromAsn1 id t.exchanges) t.exchanges ↔ _
    rw [forall₂_fromStack]
    exact forall₂_congr fun e _ => Specie.agrees_fromAsn1_iff e.amount

namespace Transaction

structure Agrees (x : Transaction) (t : Asn1.Transaction) : Prop where
  time : (x.time.toNat : Int) = t.content.time
  action : x.action.Agrees t.content.action

end Transaction

/-- The time is the zero that a moved transaction has. -/
structure Asn1.Transaction.NumbersInRange (t : Asn1.Transaction) : Prop where
  time : t.content.time = 0
  action : t.content.action.NumbersInRange

/-- A decoded transaction in a node has passed through its move constructor. -/
theorem Transaction.agrees_moveConstruct_iff (t : Asn1.Transaction) :
    (moveConstruct (fromAsn1 t)).Agrees t ↔ t.NumbersInRange := by
  have htime : (moveConstruct (fromAsn1 t)).time = 0 := rfl
  constructor
  · rintro ⟨ht, ha⟩
    rw [htime] at ht
    exact ⟨ht.symm, (Action.agrees_fromAsn1_iff _).mp ha⟩
  · rintro ⟨ht, ha⟩
    exact ⟨by rw [htime, ht]; rfl, (Action.agrees_fromAsn1_iff _).mpr ha⟩

/-! ## Blocks -/

namespace Genesis

structure Agrees (g : Genesis) (t : Asn1.Genesis) : Prop where
  protocol : (g.protocol.toNat : Int) = t.protocol
  version : (g.version.toNat : Int) = t.version
  creation : (g.creation.toNat : Int) = t.creation
  greed : g.greed.Agrees t.greed

end Genesis

structure Asn1.Genesis.NumbersInRange (t : Asn1.Genesis) : Prop where
  protocol : IsUInt32 t.protocol
  version : IsUInt32 t.version
  creation : IsUInt64 t.creation
  greed : t.greed.NumbersInRange

theorem Genesis.agrees_fromAsn1_iff (t : Asn1.Genesis) :
    (fromAsn1 t).Agrees t ↔ t.NumbersInRange := by
  constructor
  · rintro ⟨hp, hv, hc, hg⟩
    exact ⟨(toUInt32_eq_iff _).mp hp, (toUInt32_eq_iff _).mp hv, (toUInt64_eq_iff _).mp hc,
      (Specie.agrees_fromAsn1_iff _).mp hg⟩
  · rintro ⟨hp, hv, hc, hg⟩
    exact ⟨(toUInt32_eq_iff _).mpr hp, (toUInt32_eq_iff _).mpr hv, (toUInt64_eq_iff _).mpr hc,
      (Specie.agrees_fromAsn1_iff _).mpr hg⟩

namespace Reconciliation

/-- The time of the content has no member in the object. -/
structure Agrees (r : Reconciliation) (t : Asn1.Reconciliation) : Prop where
  protocol : (r.protocol.toNat : Int) = t.content.protocol
  chainId : (r.chainId.toNat : Int) = t.content.chainId
  blocks : List.Forall₂ (fun i u => (i.blocks.toNat : Int) = u.blocks)
    r.shardInfo t.content.shardInfo

theorem agrees_fromAsn1_iff (t : Asn1.Reconciliation) :
    (fromAsn1 t).Agrees t ↔ t.content.InRange := by
  have hblocks : List.Forall₂ (fun i u => (i.blocks.toNat : Int) = u.blocks)
      (fromAsn1 t).shardInfo t.content.shardInfo ↔
        ∀ i ∈ t.content.shardInfo, Asn1.IsUInt32 i.blocks := by
    show List.Forall₂ _ (fromStack ReconciliationShardInfo.fromAsn1 id t.content.shardInfo) _ ↔ _
    rw [forall₂_fromStack]
    exact forall₂_congr fun i _ => toUInt32_eq_iff i.blocks
  constructor
  · rintro ⟨hp, hc, hb⟩
    exact ⟨(toUInt32_eq_iff _).mp hp, (toUInt32_eq_iff _).mp hc, hblocks.mp hb⟩
  · rintro ⟨hp, hc, hb⟩
    exact ⟨(toUInt32_eq_iff _).mpr hp, (toUInt32_eq_iff _).mpr hc, hblocks.mpr hb⟩

end Reconciliation

namespace Node

structure Agrees (n : Node) (t : Asn1.Node) : Prop where
  chainId : (n.chainId.toNat : Int) = t.content.chainId
  shardId : (n.shardId.toNat : Int) = t.content.shardId
  index : (n.index.toNat : Int) = t.content.index
  transactions : List.Forall₂ Transaction.Agrees n.transactions t.content.transactions

end Node

structure Asn1.Node.NumbersInRange (t : Asn1.Node) : Prop where
  chainId : IsUInt64 t.content.chainId
  shardId : IsUInt32 t.content.shardId
  index : IsUInt32 t.content.index
  transactions : ∀ x ∈ t.content.transactions, x.NumbersInRange

theorem Node.agrees_fromAsn1_iff (t : Asn1.Node) :
    (fromAsn1 t).Agrees t ↔ t.NumbersInRange := by
  have htxs : List.Forall₂ Transaction.Agrees (fromAsn1 t).transactions t.content.transactions ↔
      ∀ x ∈ t.content.transactions, x.NumbersInRange := by
    refine forall₂_fromStack.trans ?_
    exact forall₂_congr fun x _ => Transaction.agrees_moveConstruct_iff x
  constructor
  · rintro ⟨hc, hs, hi, ht⟩
    exact ⟨(toUInt64_eq_iff _).mp hc, (toUInt32_eq_iff _).mp hs, (toUInt32_eq_iff _).mp hi,
      htxs.mp ht⟩
  · rintro ⟨hc, hs, hi, ht⟩
    exact ⟨(toUInt64_eq_iff _).mpr hc, (toUInt32_eq_iff _).mpr hs, (toUInt32_eq_iff _).mpr hi,
      htxs.mpr ht⟩

/-- The decoded block is of the encoded type and has its numbers. -/
def Block.Agrees : Block → Asn1.Block → Prop
  | .none, .null => True
  | .genesis g, .genesis t => g.Agrees t
  | .reconciliation r, .reconciliation t => r.Agrees t
  | .node n, .node t => n.Agrees t
  | _, _ => False

def Asn1.Block.NumbersInRange : Asn1.Block → Prop
  | .null => True
  | .genesis t => t.NumbersInRange
  | .reconciliation t => t.content.InRange
  | .node t => t.NumbersInRange

theorem Block.agrees_fromAsn1_iff (t : Asn1.Block) :
    (fromAsn1 t).Agrees t ↔ t.NumbersInRange := by
  cases t with
  | null => exact Iff.rfl
  | genesis t => exact Genesis.agrees_fromAsn1_iff t
  | reconciliation t => exact Reconciliation.agrees_fromAsn1_iff t
  | node t => exact Node.agrees_fromAsn1_iff t

/-- **When decoding keeps the numbers of a block**, and when `toUInt64` undoes `fromUInt64`. -/
theorem numbers_kept_iff (o : OpenSsl) :
    (∀ d t, o.block.read d = some t →
      ∃ b, decodeBlock o d = some b ∧ (b.Agrees t ↔ t.NumbersInRange)) ∧
    ∀ v, toUInt64 (fromUInt64 v) = v ↔ v.toNat < 2 ^ 63 ∨ v.toNat = 2 ^ 64 - 1 := by
  refine ⟨fun d t hread => ?_, kept_iff⟩
  refine ⟨Block.fromAsn1 t, ?_, Block.agrees_fromAsn1_iff t⟩
  unfold decodeBlock decodeItem
  rw [hread, Option.map_some]

/-- A genesis block with the given greed. -/
def greedyGenesis (coins fluffs : Int) : Asn1.Block :=
  .genesis { (default : Asn1.Genesis) with greed := ⟨coins, fluffs⟩ }

theorem read_greedyGenesis (coins fluffs : Int) :
    (der id id).block.read ((der id id).block.i2d (greedyGenesis coins fluffs)) =
      some (greedyGenesis coins fluffs) := by
  obtain ⟨t, hread, ht⟩ := (der_roundTrips id id).block (greedyGenesis coins fluffs)
  cases t with
  | genesis t =>
    obtain rfl : _ = t := ht
    exact hread
  | null => exact ht.elim
  | reconciliation t => exact ht.elim
  | node t => exact ht.elim

theorem numbers_kept_iff_greedy :
    ∃ b, decodeBlock (der id id) ((der id id).block.i2d (greedyGenesis (2 ^ 63) 5)) = some b ∧
      (b.Agrees (greedyGenesis (2 ^ 63) 5) ↔ (greedyGenesis (2 ^ 63) 5).NumbersInRange) :=
  (numbers_kept_iff (der id id)).1 _ _ (read_greedyGenesis (2 ^ 63) 5)

/-- `2^63` coins and a whole coin in fluffs are decoded as `2^64 - 1` coins and the same fluffs. -/
theorem decodeBlock_greedyGenesis :
    ∃ g, decodeBlock (der id id) ((der id id).block.i2d (greedyGenesis (2 ^ 63) 100000000)) =
        some (.genesis g) ∧
      g.greed.coins.toNat = 2 ^ 64 - 1 ∧ g.greed.fluffs.toNat = 100000000 ∧
      ¬ Block.Agrees (.genesis g) (greedyGenesis (2 ^ 63) 100000000) := by
  refine ⟨Genesis.fromAsn1 { (default : Asn1.Genesis) with greed := ⟨2 ^ 63, 100000000⟩ }, ?_, ?_,
    ?_, fun h => ?_⟩
  · unfold decodeBlock decodeItem
    rw [read_greedyGenesis]
    rfl
  · decide
  · decide
  · have hle := (show Genesis.Agrees _ _ from h).greed.fluffs_le
    exact absurd hle (by decide)

end Fluffycoin
