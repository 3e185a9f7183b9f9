import Fluffycoin.Block.Copy
import Fluffycoin.Curator.DbIntegrator
import Fluffycoin.Utils.SortedMap

/-!
# `BlockIntegrator`

Model of `src/services/curator/core/BlockIntegrator.cpp`: blocks wait in nested maps, by
reconciliation, shard and block number, and are handed to the `DbIntegrator` from the front. Log
lines and the mutex are left out: the calls modelled here come one after the other.

The model is generic in the integrator it feeds. `ask w data i` is its answer to the block `data` at
index `i` in state `w`, with the state it is left in.

* `addBlock` files a block and runs the loop. A slot that is taken keeps the block it holds: the
  source uses `emplace` (`BlockIntegrator.cpp:44`).
* `tryNext` asks about one block and drops it when it is answered `Success` or with one of the
  results of `isBadBlock`. It says to go on only after `Success`.
* `tryIntegrate` repeats it. The loop ends because every round that goes on leaves less pending
  (`backlog_tryNext`), whatever the integrator answers.
-/

namespace Fluffycoin

open Std (ExtTreeMap)
open Fluffycoin.Ossl

/-- The three numbers a block is filed under. -/
structure Index where
  recon : UInt32
  shard : UInt32 := 0
  block : UInt32 := 0
  deriving DecidableEq, Repr

/-- `PendingShard::pendingBlocks`. -/
abbrev PendingShard := ExtTreeMap UInt32 Block

/-- `PendingRecon::pendingShards`. -/
abbrev PendingRecon := ExtTreeMap UInt32 PendingShard

/-- The type of `pendingRecons`. -/
abbrev PendingRecons := ExtTreeMap UInt32 PendingRecon

/-- The members of `BlockIntegrator`. -/
structure BlockIntegrator (σ : Type) where
  dbIntegrator : σ
  pendingRecons : PendingRecons := ∅
  shardCursor : UInt32 := 0

/-- `isSuccess` (`BlockIntegrator.cpp:65-69`). -/
def isSuccess (ret : Result) : Bool := ret == .success

/-- `isBadBlock` (`BlockIntegrator.cpp:71-80`). -/
def isBadBlock (ret : Result) : Bool :=
  ret == .invalidIndex || ret == .duplicate || ret == .badBlock || ret == .noMatch ||
    ret == .alreadyDone

namespace PendingRecons

/-- Find or make the reconciliation and the shard, then `emplace` (`BlockIntegrator.cpp:31-44`). -/
def place (p : PendingRecons) (i : Index) (data : Block) : PendingRecons :=
  let pendingRecon := SortedMap.under p i.recon
  let pendingShard := SortedMap.under pendingRecon i.shard
  p.insert i.recon (pendingRecon.insert i.shard (pendingShard.insertIfNew i.block data))

/-- `BlockIntegrator::removeBlock` (`BlockIntegrator.cpp:157-183`). A shard and a reconciliation
that end up empty go with the block. -/
def removeBlock (p : PendingRecons) (i : Index) : PendingRecons :=
  match p[i.recon]? with
  | none => p
  | some pendingShards =>
    match pendingShards[i.shard]? with
    | none => p
    | some pendingBlocks =>
      SortedMap.store p i.recon
        (SortedMap.store pendingShards i.shard (pendingBlocks.erase i.block))

/-- The two loops of `tryNext`: the first block of the first shard from the cursor on that has one
(`BlockIntegrator.cpp:110-134`). -/
def nextBlock (shardCursor : UInt32) (pendingShards : PendingRecon) :
    Option (UInt32 × UInt32 × Block) :=
  pendingShards.toList.findSome? fun (shard, pendingBlocks) =>
    if shard < shardCursor then none
    else (SortedMap.first pendingBlocks).map fun (block, data) => (shard, block, data)

/-- The rounds a reconciliation is good for: its pending blocks, and one to drop it when empty. -/
def reconBacklog (pendingShards : PendingRecon) : Nat :=
  1 + SortedMap.total ExtTreeMap.size pendingShards

theorem reconBacklog_pos (pendingShards : PendingRecon) : 0 < reconBacklog pendingShards :=
  Nat.add_pos_left Nat.one_pos _

/-- A bound on the rounds the loop can still go on for. -/
def backlog (p : PendingRecons) : Nat := SortedMap.total reconBacklog p

theorem backlog_removeBlock {p : PendingRecons} {i : Index} {pendingShards : PendingRecon}
    {pendingBlocks : PendingShard} {data : Block} (hr : p[i.recon]? = some pendingShards)
    (hs : pendingShards[i.shard]? = some pendingBlocks) (hb : pendingBlocks[i.block]? = some data) :
    (p.removeBlock i).backlog < p.backlog := by
  have hmem : i.block ∈ pendingBlocks := ExtTreeMap.mem_iff_isSome_getElem?.mpr (by rw [hb]; rfl)
  have hsize : (pendingBlocks.erase i.block).size < pendingBlocks.size := by
    rw [ExtTreeMap.size_erase, if_pos (ExtTreeMap.contains_iff_mem.mpr hmem)]
    have hne : pendingBlocks.size ≠ 0 := fun h0 => by
      rw [ExtTreeMap.eq_empty_iff_size_eq_zero.mpr h0] at hmem
      exact ExtTreeMap.not_mem_empty hmem
    omega
  unfold removeBlock
  simp only [hr, hs]
  refine SortedMap.total_store_lt hr ?_
  exact Nat.add_lt_add_left (SortedMap.total_store_lt hs hsize) 1

theorem getElem?_of_nextBlock {shardCursor : UInt32} {pendingShards : PendingRecon}
    {shard block : UInt32} {data : Block}
    (h : nextBlock shardCursor pendingShards = some (shard, block, data)) :
    ∃ pendingBlocks, pendingShards[shard]? = some pendingBlocks ∧
      pendingBlocks[block]? = some data := by
  obtain ⟨⟨shard', pendingBlocks⟩, hmem, hfound⟩ := List.exists_of_findSome?_eq_some h
  simp only at hfound
  split at hfound
  · cases hfound
  · obtain ⟨⟨block', data'⟩, hfirst, he⟩ := Option.map_eq_some_iff.mp hfound
    simp only [Prod.mk.injEq] at he
    obtain ⟨rfl, rfl, rfl⟩ := he
    exact ⟨pendingBlocks, ExtTreeMap.mem_toList_iff_getElem?_eq_some.mp hmem,
      SortedMap.getElem?_of_first hfirst⟩

end PendingRecons

namespace BlockIntegrator

variable {σ : Type} (ask : σ → Block → Index → Result × σ)

/-- `BlockIntegrator::tryNext` (`BlockIntegrator.cpp:84-155`): whether to go on, and the state. -/
def tryNext (q : BlockIntegrator σ) : Bool × BlockIntegrator σ :=
  match SortedMap.first q.pendingRecons with
  | none => (false, q)
  | some (recon, pendingShards) =>
    if pendingShards.isEmpty then
      (true, { q with pendingRecons := q.pendingRecons.erase recon })
    else
      match PendingRecons.nextBlock q.shardCursor pendingShards with
      | none => (false, q)
      | some (shard, block, data) =>
        -- the block is copied out of the map before the lock is released
        let (ret, dbIntegrator) := ask q.dbIntegrator (Block.copyAssign data) ⟨recon, shard, block⟩
        let pendingRecons :=
          if isSuccess ret || isBadBlock ret then
            PendingRecons.removeBlock q.pendingRecons ⟨recon, shard, block⟩
          else q.pendingRecons
        (isSuccess ret, { q with dbIntegrator, pendingRecons })

/-- A round that goes on leaves less pending. -/
theorem backlog_tryNext {q : BlockIntegrator σ} (h : (q.tryNext ask).1 = true) :
    (q.tryNext ask).2.pendingRecons.backlog < q.pendingRecons.backlog := by
  unfold tryNext at h ⊢
  cases hfirst : SortedMap.first q.pendingRecons with
  | none =>
    simp only [hfirst] at h
    cases h
  | some e =>
    obtain ⟨recon, pendingShards⟩ := e
    have hrecon := SortedMap.getElem?_of_first hfirst
    simp only [hfirst] at h ⊢
    split
    · exact SortedMap.total_erase_lt hrecon (PendingRecons.reconBacklog_pos _)
    · rename_i hne
      rw [if_neg hne] at h
      cases hnext : PendingRecons.nextBlock q.shardCursor pendingShards with
      | none =>
        simp only [hnext] at h
        cases h
      | some e =>
        obtain ⟨shard, block, data⟩ := e
        obtain ⟨pendingBlocks, hshard, hblock⟩ := PendingRecons.getElem?_of_nextBlock hnext
        simp only [hnext] at h ⊢
        rw [if_pos (by rw [h]; rfl)]
        exact PendingRecons.backlog_removeBlock hrecon hshard hblock

/-- `BlockIntegrator::tryIntegrate` (`BlockIntegrator.cpp:55-60`). -/
def tryIntegrate (q : BlockIntegrator σ) : BlockIntegrator σ :=
  if _h : (q.tryNext ask).1 = true then (q.tryNext ask).2.tryIntegrate else (q.tryNext ask).2
termination_by q.pendingRecons.backlog
decreasing_by exact backlog_tryNext ask _h

/-- The arguments of a call of `addBlock`. -/
structure Submission where
  binData : Bytes
  index : Index

/-- `BlockIntegrator::addBlock` (`BlockIntegrator.cpp:15-53`). -/
def addBlock (o : OpenSsl) (q : BlockIntegrator σ) (c : Submission) : BlockIntegrator σ :=
  match decodeBlock o c.binData with
  | none => q
  | some data =>
    tryIntegrate ask
      { q with pendingRecons := PendingRecons.place q.pendingRecons c.index data
               shardCursor := if q.shardCursor > c.index.shard then c.index.shard
                 else q.shardCursor }

theorem tryIntegrate_of_stop {q : BlockIntegrator σ} (h : (q.tryNext ask).1 = false) :
    q.tryIntegrate ask = (q.tryNext ask).2 := by
  rw [tryIntegrate, dif_neg (by rw [h]; exact Bool.false_ne_true)]

theorem tryIntegrate_of_go {q : BlockIntegrator σ} (h : (q.tryNext ask).1 = true) :
    q.tryIntegrate ask = (q.tryNext ask).2.tryIntegrate ask := by
  rw [tryIntegrate, dif_pos h]

/-- **The loop rule.** What every round keeps holds when the loop ends, and the last round, from
some state in which it holds, said to stop. -/
theorem tryIntegrate_rule (Inv : BlockIntegrator σ → Prop)
    (hstep : ∀ q, Inv q → Inv (q.tryNext ask).2) (q : BlockIntegrator σ) (hq : Inv q) :
    ∃ t, Inv t ∧ t.tryNext ask = (false, q.tryIntegrate ask) := by
  fun_induction tryIntegrate ask q with
  | case1 q h ih => exact ih (hstep q hq)
  | case2 q h =>
    refine ⟨q, hq, Prod.ext ?_ rfl⟩
    simpa using h

end BlockIntegrator

end Fluffycoin
