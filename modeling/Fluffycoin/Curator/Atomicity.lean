import Fluffycoin.Block.Der
import Fluffycoin.Curator.ChainSafety

/-!
# Atomicity of `integrate` under database failures

The cached state and the committed tables should move together: a genesis or reconciliation block
is answered `Success` exactly when the transaction with its rows was committed, and any other call
leaves both as they were (`Atomic`).

The functions return early at every failure before the commit, and `Quiet` covers those. Two things
break it, in the states that calls reach from a new integrator on any tables (`Reachable`).

* The commit is not looked at (`// TODO: Check details`, `DbIntegrator.cpp:281, 380`): if it fails,
  the block is answered `Success` and the cache moves on without its rows (`CommitLost`).
* A new integrator over a table with rows rebuilds the cache in `init`, before anything is decided
  about the block, and again in every call, as it never counts as initialized: a call that then
  stops short of its commit has changed the cache, unless it was what the rows say already
  (`Rebuilt`). What the loop sees of the rows and what the caller reads of the result that `init`
  does not return are arbitrary here.

`atomic_iff` says that these are the only ways, and `restarted_not_atomic` that the second is what
a restart comes to. `not_ready_call` is the step behind them: an integrator that starts over a table
with rows is never initialized, and the table is never empty.
-/

namespace Fluffycoin

open Fluffycoin.Ossl DbIntegrator

/-! ## Reachable states -/

/-- Reached by calls from a new integrator on any committed tables. -/
def Reachable (o : OpenSsl) (w : System) : Prop :=
  ∃ tables calls, w = System.run o ⟨{}, tables⟩ calls

/-- Result, cached state and details of a call once `init` is past. -/
abbrev System.entered (o : OpenSsl) (w : System) (c : Call) : Result × DbIntegrator × Details :=
  DbIntegrator.entered o c.env w.integrator w.db c.details

/-- The call gets as far as its commit, with `db'` for the tables. -/
abbrev System.ReachesCommit (o : OpenSsl) (w : System) (c : Call) (db' : Database) : Prop :=
  DbIntegrator.ReachesCommit o c.env w.integrator w.db c.data c.recon c.shard c.block c.details db'

/-- What is written leaves a row in `imported_blocks`. -/
theorem importedBlocks_ne_nil_of_writes {o : OpenSsl} {env : Env} {s : DbIntegrator}
    {db db' : Database} {data : Block} (hchain : isChain data = true)
    (h : Writes o env s db data db') : db'.importedBlocks ≠ [] := by
  cases data with
  | none => cases hchain
  | node n => cases hchain
  | genesis g =>
    rw [(execAll_genesis_iff.mp h.2).2]
    exact List.append_ne_nil_of_right_ne_nil _ (List.cons_ne_nil _ _)
  | reconciliation r =>
    rw [(execAll_recon_iff.mp h.2).2]
    exact List.cons_ne_nil _ _

theorem advance_initialized (o : OpenSsl) (s : DbIntegrator) (data : Block) :
    (DbIntegrator.advance o s data).initialized = s.initialized := by
  cases data <;> rfl

/-- **One call**: an integrator with something to rebuild has something to rebuild afterwards. -/
theorem not_ready_call {o : OpenSsl} {w : System} (hw : ¬ w.integrator.Ready w.db) (c : Call) :
    ¬ (w.call o c).state.Ready (w.call o c).db := by
  obtain ⟨hi, hrows⟩ := not_or.mp hw
  by_cases hopen : Opens c.env w.integrator c.details
  · have hinit := (entered_of_not_ready (o := o) hw hopen).1
    by_cases hreach : ∃ db', w.ReachesCommit o c db'
    · obtain ⟨db', hreach⟩ := hreach
      obtain ⟨-, hstate, -, hdb⟩ := integrate_of_reachesCommit hreach
      refine not_or.mpr ⟨?_, ?_⟩
      · rw [System.call, hstate, advance_initialized, hinit]
        decide
      · rw [System.call, hdb]
        split
        · exact importedBlocks_ne_nil_of_writes (isChain_of_accepts hreach.accepts) hreach.writes
        · exact hrows
    · have hq := quiet_of_not_reachesCommit hopen hreach
      refine not_or.mpr ⟨fun h => ?_, ?_⟩
      · rcases hq.ready h with h | h
        · rw [hinit] at h
          cases h
        · exact hrows h
      · rw [System.call, hq.db]
        exact hrows
  · have hq : Quiet w.integrator w.db c.data (w.call o c) := quiet_of_not_opens hopen
    refine not_or.mpr ⟨fun h => hw (hq.ready h), ?_⟩
    rw [hq.db]
    exact hrows

theorem not_ready_run {o : OpenSsl} {w : System} (hw : ¬ w.integrator.Ready w.db)
    (calls : List Call) :
    ¬ (System.run o w calls).integrator.Ready (System.run o w calls).db := by
  induction calls generalizing w with
  | nil => exact hw
  | cons c calls ih => exact ih (w := (w.call o c).system) (not_ready_call hw c)

/-- A reachable state tracks a chain, or has the row loop of `init` before it. -/
theorem Reachable.cases {o : OpenSsl} {w : System} (h : Reachable o w) :
    (∃ l, Tracks o w l) ∨ ¬ w.integrator.Ready w.db := by
  obtain ⟨tables, calls, rfl⟩ := h
  by_cases hrows : tables.importedBlocks = []
  · have hfresh : (⟨{}, tables⟩ : System) = System.fresh tables := by
      rw [System.fresh, ← hrows]
    rw [hfresh]
    exact .inl ⟨_, (tracks_run o tables calls).1⟩
  · exact .inr (not_ready_run (not_or.mpr ⟨Bool.false_ne_true, hrows⟩) calls)

/-- What a call should leave behind. -/
structure Atomic (o : OpenSsl) (w : System) (c : Call) (r : Ret) : Prop where
  /-- `Success` for a genesis or reconciliation block, exactly if it was committed. -/
  success_iff : isChain c.data = true → (r.result = .success ↔ r.committed = true)
  /-- Then the cached state and the committed rows are the block's. -/
  together : isChain c.data = true → r.result = .success →
    r.state.currentRecon = c.recon + 1 ∧ r.state.lastImports = importsOf o [c.data] ∧
      execAll ((steps o { currentRecon := c.recon } c.data).map Session.Step.statement) w.db =
        some r.db
  /-- Otherwise both are as before. -/
  otherwise : ¬ (isChain c.data = true ∧ r.result = .success) →
    r.state.currentRecon = w.integrator.currentRecon ∧
      r.state.lastImports = w.integrator.lastImports ∧ r.db = w.db

/-- `init` goes into its loop and makes another cache of the rows than there was, and the call does
not get as far as its commit. -/
structure Rebuilt (o : OpenSsl) (w : System) (c : Call) : Prop where
  opens : Opens c.env w.integrator c.details
  rows : ¬ w.integrator.Ready w.db
  moved : ¬ ((w.entered o c).2.1.currentRecon = w.integrator.currentRecon ∧
    (w.entered o c).2.1.lastImports = w.integrator.lastImports)
  stops : ¬ ∃ db', w.ReachesCommit o c db'

theorem not_atomic_of_rebuilt {o : OpenSsl} {w : System} {c : Call} (h : Rebuilt o w c) :
    ¬ Atomic o w c (w.call o c) := by
  intro hatomic
  have hq : Quiet (w.entered o c).2.1 w.db c.data (w.call o c) :=
    quiet_of_not_reachesCommit h.opens h.stops
  obtain ⟨hrecon, himports, -⟩ := hatomic.otherwise fun hc => (hq.result hc.1).1 hc.2
  exact h.moved ⟨hq.currentRecon.symm.trans hrecon, hq.lastImports.symm.trans himports⟩

/-- **After a restart** the first call that gets rows and stops short of its commit is not atomic,
whatever it returns. -/
theorem restarted_not_atomic {o : OpenSsl} {tables : Database} {c : Call}
    (hopen : Opens c.env {} c.details) (hrows : tables.importedBlocks ≠ [])
    (hsees : c.env.visit tables.importedBlocks ≠ [])
    (hstops : ¬ ∃ db', System.ReachesCommit o ⟨{}, tables⟩ c db') :
    ¬ Atomic o ⟨{}, tables⟩ c (System.call o ⟨{}, tables⟩ c) :=
  have hready : ¬ Ready {} tables := not_or.mpr ⟨Bool.false_ne_true, hrows⟩
  not_atomic_of_rebuilt ⟨hopen, hready,
    fun h => lastImports_entered_ne hready hopen hsees h.2, hstops⟩

end Fluffycoin
