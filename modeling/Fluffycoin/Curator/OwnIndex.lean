import Fluffycoin.Curator.Host

/-!
# Indexes and identities

`integrate` gets a block together with the three numbers it is filed under, and `doc/schema.sql`
says which these are: `0,0,0` for the genesis block, `n,0,0` for reconciliation block `n`.

For a genesis block all three are checked (`DbIntegrator.cpp:120-140`). For a reconciliation block
the first is, twice over, and the other two are not looked at (`DbIntegrator.cpp:146-198`).

* `accepts_of_success`: what a call has passed that answers `Success`, from whatever state. It need
  not be `Ready`: a rebuilt state is only another state for the checks.
* **`own_index_iff`**: a block that is integrated is integrated under its own index exactly when it
  is no reconciliation block or comes with shard and block number zero.
-/

namespace Fluffycoin

open Fluffycoin.Ossl DbIntegrator

/-- The index is the one `doc/schema.sql` gives the block. -/
def OwnIndex : Block → Index → Prop
  | .genesis _, i => i = ⟨0, 0, 0⟩
  | .reconciliation r, i => i = ⟨r.chainId, 0, 0⟩
  | _, _ => True

/-- The index of a call. -/
def Call.index (c : Call) : Index := ⟨c.recon, c.shard, c.block⟩

/-- A genesis or reconciliation block that is answered `Success` was accepted by some state: the
one of the call, or what `init` made of it. -/
theorem accepts_of_success {o : OpenSsl} {w : System} {c : Call} (hc : isChain c.data = true)
    (h : (w.call o c).result = .success) :
    ∃ s : DbIntegrator, s.Accepts c.data c.recon c.shard c.block := by
  by_contra hnot
  push Not at hnot
  have hrefused : ∀ (s : DbIntegrator) (d : Details),
      (dispatch o s w.db (Session.newSession c.env.toLink w.db c.details).1 c.data c.recon c.shard
        c.block d).result ≠ .success :=
    fun s d => ((dispatch_of_not_accepts rfl (hnot s)).result hc).1
  -- whatever `init` makes of the state, the call ends in an error of its own or in `dispatch`
  unfold System.call integrate at h
  simp only at h
  split at h
  · cases h
  generalize (if w.integrator.initialized = true then _ else _ :
    Result × DbIntegrator × Details) = started at h
  by_cases hstatus : started.1 = .success
  · rw [if_neg (not_not.2 hstatus)] at h
    exact hrefused _ _ h
  · rw [if_pos hstatus] at h
    exact hstatus h

/-- **When a block is integrated under its own index.** -/
theorem own_index_iff (o : OpenSsl) (w : System) (c : Call)
    (h : (w.call o c).result = .success) :
    OwnIndex c.data c.index ↔
      ∀ r, c.data = .reconciliation r → c.shard = 0 ∧ c.block = 0 := by
  cases hdata : c.data with
  | none => exact iff_of_true trivial fun r hr => by cases hr
  | node n => exact iff_of_true trivial fun r hr => by cases hr
  | genesis g =>
    obtain ⟨s, hrecon, hacc⟩ := accepts_of_success (by rw [hdata]; rfl) h
    rw [hdata] at hacc
    obtain ⟨hzero, hshard, hblock⟩ := hacc
    refine iff_of_true ?_ fun r hr => by cases hr
    unfold OwnIndex Call.index
    rw [hrecon, hzero, hshard, hblock]
  | reconciliation r =>
    obtain ⟨s, hrecon, hacc⟩ := accepts_of_success (by rw [hdata]; rfl) h
    rw [hdata] at hacc
    have hchain : c.recon = r.chainId := hrecon.trans hacc.2.1.symm
    constructor
    · intro hown r' _
      exact ⟨congrArg Index.shard hown, congrArg Index.block hown⟩
    · intro hzero
      obtain ⟨hshard, hblock⟩ := hzero r rfl
      unfold OwnIndex Call.index
      rw [hchain, hshard, hblock]

/-- The first reconciliation block after `oneCoin`, filed under shard 5 and block 7. -/
def strayCall (o : OpenSsl) : Call :=
  Call.on {} (.reconciliation (successor o oneCoin)) { recon := 1, shard := 5, block := 7 }

theorem strayCall_success (o : OpenSsl) :
    (((System.fresh {}).serve o (.genesis oneCoin) (chainIndex 0)).system.call o
      (strayCall o)).result = .success := by
  have hstate := (serve_genesis genesisFits_oneCoin o).2
  exact (takes_of_succeeds (succeeds_successor o oneCoin) hstate rfl).result_serve
    (.inl (congrArg DbIntegrator.initialized hstate))

theorem own_index_iff_strayCall :
    OwnIndex (strayCall shortDer).data (strayCall shortDer).index ↔
      ∀ r, (strayCall shortDer).data = .reconciliation r →
        (strayCall shortDer).shard = 0 ∧ (strayCall shortDer).block = 0 :=
  own_index_iff shortDer _ _ (strayCall_success shortDer)

/-- It is integrated there. -/
theorem strayCall_not_own_index :
    (((System.fresh {}).serve shortDer (.genesis oneCoin) (chainIndex 0)).system.call shortDer
        (strayCall shortDer)).result = .success ∧
      ¬ OwnIndex (strayCall shortDer).data (strayCall shortDer).index := by
  refine ⟨strayCall_success shortDer, fun hown => ?_⟩
  have hshard : (5 : UInt32) = 0 := congrArg Index.shard hown
  exact absurd hshard (by decide)

end Fluffycoin
