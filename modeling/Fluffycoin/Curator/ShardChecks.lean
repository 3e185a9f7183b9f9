import Fluffycoin.Curator.ChainSafety

/-!
# The two shard checks of a reconciliation block

A reconciliation block has its shards compared with the imported ones twice: in `integrate`
(`DbIntegrator.cpp:151-193`) and again in `integrateRecon` (`DbIntegrator.cpp:318-348`), where the
source asks whether the second time is needed. The first loop alone does not imply the second, as it
lets a shard pass that was never imported if the block gives it no blocks and no hash.

The second loop comes after a comparison of the number of shards. If the imported shards are
`0, …, n - 1` (`Contiguous`), every shard of a block with as many shards is an imported one, and
then the first loop has made all the comparisons of the second (`matchShards_of_checkShards`).
`second_check_redundant`: so a block that gets to the second loop fails only on a database error,
and the imported shards are of that form in every state a run reaches from an empty table
(`contiguous_of_reachable`).
-/

namespace Fluffycoin

open Std (ExtTreeMap)
open Fluffycoin.Ossl

namespace DbIntegrator

variable {lastImports : ExtTreeMap UInt32 ShardInfo} {n : Nat}

/-- The imported shards are `0, …, n - 1`. -/
def Contiguous (lastImports : ExtTreeMap UInt32 ShardInfo) (n : Nat) : Prop :=
  ∀ shard : UInt32, shard ∈ lastImports ↔ shard.toNat < n

theorem Contiguous.size_le (h : Contiguous lastImports n) : lastImports.size ≤ n := by
  have hnodup : (lastImports.keys.map UInt32.toNat).Nodup :=
    lastImports.nodup_keys.map fun _ _ => UInt32.toNat_inj.mp
  have hsubset : lastImports.keys.map UInt32.toNat ⊆ List.range n := by
    intro k hk
    obtain ⟨shard, hshard, rfl⟩ := List.mem_map.mp hk
    exact List.mem_range.mpr ((h shard).mp (ExtTreeMap.mem_keys.mp hshard))
  have hle := (hnodup.subperm hsubset).length_le
  rwa [List.length_map, List.length_range, ExtTreeMap.length_keys] at hle

/-- Every index below the number of shards is an imported one. -/
theorem Contiguous.mem (h : Contiguous lastImports n) {i : Nat} (hi : i < lastImports.size) :
    UInt32.ofNat i ∈ lastImports := by
  have hle : (UInt32.ofNat i).toNat ≤ i := by
    rw [UInt32.toNat_ofNat']
    exact Nat.mod_le _ _
  exact (h _).mpr (hle.trans_lt (hi.trans_le h.size_le))

/-- What the first loop lets pass the second does too, if every shard has been imported. -/
theorem matchShards_of_checkShards (recon : UInt32) (details : Details) :
    ∀ (k : Nat) (infos : List ReconciliationShardInfo),
      (∀ i < infos.length, UInt32.ofNat (k + i) ∈ lastImports) →
      checkShards lastImports recon k infos details = none →
        matchShards lastImports k infos details = none
  | _, [], _, _ => rfl
  | k, info :: infos, hmem, h => by
    have hrest : ∀ i < infos.length, UInt32.ofNat (k + 1 + i) ∈ lastImports := by
      intro i hi
      have := hmem (i + 1) (Nat.succ_lt_succ hi)
      rwa [Nat.add_right_comm, Nat.add_assoc]
    have ih := matchShards_of_checkShards recon details (k + 1) infos hrest
    obtain ⟨imported, hk⟩ : ∃ imported, lastImports[UInt32.ofNat k]? = some imported :=
      ⟨_, ExtTreeMap.getElem?_eq_some_getElem (hmem 0 (Nat.succ_pos _))⟩
    rw [checkShards] at h
    rw [matchShards]
    simp only [hk, Option.map_some, Option.getD_some] at h ⊢
    -- the comparisons of the first loop, each of which was passed
    split_ifs at h with hlt hgt hhash
    have hblock : imported.block = info.blocks :=
      UInt32.le_antisymm (UInt32.not_lt.mp hgt) (UInt32.not_lt.mp hlt)
    push Not at hhash
    rw [if_neg (not_not.mpr hblock), if_neg (not_not.mpr hhash.symm)]
    exact ih h

/-! ## Reaching the second loop -/

/-- A reconciliation block numbered `recon` gets to the second loop. -/
structure ReachesMatch (s : DbIntegrator) (r : Reconciliation) (recon : UInt32)
    (details : Details) : Prop where
  current : recon = s.currentRecon
  started : s.currentRecon ≠ 0
  checked : checkShards s.lastImports recon 0 r.shardInfo details = none
  chainId : r.chainId = s.currentRecon
  size : r.shardInfo.length = s.lastImports.size

variable {s : DbIntegrator} {r : Reconciliation} {recon shard block : UInt32} {details : Details}

theorem ReachesMatch.passes (h : ReachesMatch s r recon details)
    (hcont : Contiguous s.lastImports n) :
    matchShards s.lastImports 0 r.shardInfo details = none := by
  refine matchShards_of_checkShards recon details 0 r.shardInfo (fun i hi => ?_) h.checked
  rw [Nat.zero_add]
  exact hcont.mem (by rwa [← h.size])

theorem ReachesMatch.accepts (h : ReachesMatch s r recon details)
    (hcont : Contiguous s.lastImports n) : s.Accepts (.reconciliation r) recon shard block := by
  refine ⟨h.current, h.started, h.chainId, h.size, ?_⟩
  simpa using (matchShards_eq_none_iff details 0 r.shardInfo).mp (h.passes hcont)

/-- If the call fails, it fails on a database error. -/
def OnlyDatabaseErrors (r : Ret) : Prop := r.result = .success ∨ r.result = .databaseError

/-- Past the second loop there are only the statements. -/
theorem ReachesMatch.onlyDatabaseErrors (h : ReachesMatch s r recon details)
    (hcont : Contiguous s.lastImports n) (o : OpenSsl) (db : Database) (dbsession : Session) :
    OnlyDatabaseErrors
      (dispatch o s db dbsession (.reconciliation r) recon shard block details) := by
  rw [dispatch_of_accepts (h.accepts hcont)]
  unfold commitSteps
  split
  · exact .inr rfl
  · exact .inl rfl

end DbIntegrator

open DbIntegrator

theorem contiguous_single (info : ShardInfo) :
    Contiguous ((∅ : ExtTreeMap UInt32 ShardInfo).insertIfNew 0 info) 1 := by
  intro shard
  have hzero : shard.toNat < 1 ↔ shard = 0 := by
    rw [Nat.lt_one_iff, ← UInt32.toNat_inj]
    rfl
  rw [hzero, ExtTreeMap.mem_insertIfNew, Std.compare_eq_iff_eq]
  simp [eq_comm]

/-- Reached by calls from a fresh integrator on an empty `imported_blocks`. -/
def ReachableFromEmpty (o : OpenSsl) (w : System) : Prop :=
  ∃ tables calls, w = System.run o (System.fresh tables) calls

theorem ReachableFromEmpty.ready {o : OpenSsl} {w : System} (h : ReachableFromEmpty o w) :
    w.integrator.Ready w.db := by
  obtain ⟨tables, calls, rfl⟩ := h
  exact (tracks_run o tables calls).1.ready

/-- Every such state has imported no shard, or shard 0 alone. -/
theorem contiguous_of_reachable {o : OpenSsl} {w : System} (h : ReachableFromEmpty o w) :
    ∃ n, Contiguous w.integrator.lastImports n := by
  obtain ⟨tables, calls, rfl⟩ := h
  rw [(tracks_run o tables calls).1.lastImports]
  unfold importsOf
  split
  · exact ⟨0, fun shard => by simp⟩
  · exact ⟨1, contiguous_single _⟩

/-- **The second shard check is redundant.** In every state whose imported shards are
`0, …, n - 1`, a reconciliation block that gets to the second loop passes it, and fails only on a
database error. The states that calls of `integrate` reach from an empty table are of that form. -/
theorem second_check_redundant (o : OpenSsl) :
    (∀ (s : DbIntegrator) (n : Nat), Contiguous s.lastImports n →
      ∀ (r : Reconciliation) (recon shard block : UInt32) (details : Details),
        ReachesMatch s r recon details →
        matchShards s.lastImports 0 r.shardInfo details = none ∧
        ∀ (db : Database) (dbsession : Session),
          OnlyDatabaseErrors
            (dispatch o s db dbsession (.reconciliation r) recon shard block details)) ∧
    ∀ w, ReachableFromEmpty o w →
      (∃ n, Contiguous w.integrator.lastImports n) ∧
      ∀ (c : Call) (r : Reconciliation), c.data = .reconciliation r →
        Opens c.env w.integrator c.details →
        ReachesMatch w.integrator r c.recon c.details → OnlyDatabaseErrors (w.call o c) := by
  constructor
  · intro s n hcont r recon shard block details h
    exact ⟨h.passes hcont, fun db dbsession => h.onlyDatabaseErrors hcont o db dbsession⟩
  · intro w hw
    obtain ⟨n, hcont⟩ := contiguous_of_reachable hw
    refine ⟨⟨n, hcont⟩, fun c r hdata hopen h => ?_⟩
    unfold System.call
    rw [integrate_of_opens hw.ready hopen, hdata]
    have h' : ReachesMatch { w.integrator with initialized := true } r c.recon c.details :=
      ⟨h.current, h.started, h.checked, h.chainId, h.size⟩
    exact h'.onlyDatabaseErrors hcont o w.db _

/-- After a genesis block, the reconciliation block that names its hash gets to the second loop. -/
theorem reachesMatch_afterImport (info : ShardInfo) :
    ReachesMatch
      { currentRecon := 1, lastImports := (∅ : ExtTreeMap UInt32 ShardInfo).insertIfNew 0 info }
      { chainId := 1, shardInfo := [{ hash := info.hash, blocks := info.block }] } 1 {} where
  current := rfl
  started := show (1 : UInt32) ≠ 0 by decide
  checked := by
    have hget : ((∅ : ExtTreeMap UInt32 ShardInfo).insertIfNew 0 info)[UInt32.ofNat 0]? =
        some info := getElem?_single info
    simp only [checkShards, hget, Option.map_some, Option.getD_some, gt_iff_lt, UInt32.lt_irrefl,
      if_false, ne_eq, not_true_eq_false]
  chainId := rfl
  size := (size_single info).symm

theorem second_check_redundant_afterImport :
    matchShards ((∅ : ExtTreeMap UInt32 ShardInfo).insertIfNew 0 {}) 0
      [{ hash := {}, blocks := 0 }] {} = none :=
  ((second_check_redundant (der id id)).1 _ 1 (contiguous_single {}) _ 1 0 0 {}
    (reachesMatch_afterImport {})).1

end Fluffycoin
