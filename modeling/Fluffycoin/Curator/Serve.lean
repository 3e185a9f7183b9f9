import Fluffycoin.Curator.BlockIntegrator
import Fluffycoin.Curator.ChainSafety

/-!
# Calls in which nothing fails

What `integrate` does when the database answers every statement, for the proofs about the pending
blocks. What it then answers, and the system it leaves, are determined by the block, its index, the
tables and the cached import state: neither the texts of the server nor the flag `initialized` has a
part in it (`outcome_call`). So one call stands for all, `serve`.

* `serve_system_of_ne_success`, `currentRecon_of_success`: a call moves nothing, or takes
  `currentRecon` one up.
* `serve_of_lt`, `serve_of_gt`: a block numbered ahead of the import state is `NotReady`, one behind
  it is `AlreadyDone`.
-/

namespace Fluffycoin

open Std (ExtTreeMap)
open Fluffycoin.Ossl DbIntegrator

/-- The call for a block at an index, with fresh details. -/
def Call.on (env : Env) (data : Block) (i : Index) : Call where
  env := env
  data := data
  recon := i.recon
  shard := i.shard
  block := i.block

/-- What later calls depend on. -/
def Ret.outcome (r : Ret) : Result × System := (r.result, r.system)

/-! ## The session has no part in it -/

section Session

variable {o : OpenSsl} {s : DbIntegrator} {db : Database} {details : Details} {l l' : Link}

theorem outcome_commitSteps (hl : l.Ok) (hd : details.isOk = true) (qs : List Session.Step)
    (next : DbIntegrator) :
    (commitSteps qs next s db { link := l, work := db } details).outcome =
      match execAll (qs.map Session.Step.statement) db with
      | some w => (.success, ⟨next, w⟩)
      | none => (.databaseError, ⟨s, db⟩) := by
  cases hw : execAll (qs.map Session.Step.statement) db with
  | some w =>
    obtain ⟨hres, hstate, _, hdb⟩ := @commitSteps_of_runs s db _ details hd qs next w
      ((Session.runs_iff_of_ok hl).mpr hw)
    rw [if_pos hl.commit] at hdb
    rw [Ret.outcome, Ret.system, hres, hstate, hdb]
  | none =>
    have hnot : ¬ ∃ w, Session.Runs { link := l, work := db }
        (qs.map Session.Step.statement) w := by
      rintro ⟨w, hruns⟩
      rw [Session.runs_iff_of_ok hl, hw] at hruns
      cases hruns
    obtain ⟨d, hstop⟩ := @commitSteps_of_not_runs s db _ details hd qs next hnot
    rw [hstop]
    rfl

theorem outcome_integrateRecon (hl : l.Ok) (hl' : l'.Ok) (hd : details.isOk = true)
    (r : Reconciliation) :
    (integrateRecon o s db r { link := l, work := db } details).outcome =
      (integrateRecon o s db r { link := l', work := db } details).outcome := by
  unfold integrateRecon
  split
  · rfl
  · split
    · rfl
    · split
      · rfl
      · rw [outcome_commitSteps hl hd, outcome_commitSteps hl' hd]

theorem outcome_integrateNode (hl : l.Ok) (hl' : l'.Ok) (shard block : UInt32) :
    (integrateNode s db shard block { link := l, work := db } details).outcome =
      (integrateNode s db shard block { link := l', work := db } details).outcome := by
  unfold integrateNode
  simp only [Session.commit, hl.commit, hl'.commit]

theorem outcome_dispatch (hl : l.Ok) (hl' : l'.Ok) (hd : details.isOk = true) (data : Block)
    (recon shard block : UInt32) :
    (dispatch o s db { link := l, work := db } data recon shard block details).outcome =
      (dispatch o s db { link := l', work := db } data recon shard block details).outcome := by
  unfold dispatch
  split
  · rfl
  split
  · rfl
  split
  · split
    · rfl
    split
    · rfl
    cases data with
    | genesis g =>
      simp only [integrateGenesis]
      rw [outcome_commitSteps hl hd, outcome_commitSteps hl' hd]
    | none => rfl
    | reconciliation r => rfl
    | node n => rfl
  · cases data with
    | none => rfl
    | genesis g => rfl
    | node n => exact outcome_integrateNode hl hl' shard block
    | reconciliation r =>
      simp only
      split
      · rfl
      · exact outcome_integrateRecon hl hl' hd r

end Session

/-! ## `serve` -/

namespace System

variable {o : OpenSsl} {w w' : System} {data : Block} {i : Index}

/-- `init` has nothing to rebuild. -/
def Ready (w : System) : Prop := w.integrator.Ready w.db

/-- The system with `init` behind it. -/
def opened (w : System) : System :=
  { w with integrator := { w.integrator with initialized := true } }

theorem ready_opened (w : System) : w.opened.Ready := .inl rfl

/-- The call in which nothing fails. -/
def serve (o : OpenSsl) (w : System) (data : Block) (i : Index) : Ret :=
  w.call o (Call.on {} data i)

/-- **Calls in which nothing fails agree** on systems that differ in `initialized` only. -/
theorem outcome_call (hw : w.Ready) (hw' : w'.Ready) (h : w.opened = w'.opened) {env : Env}
    (hok : env.toLink.Ok) (data : Block) (i : Index) :
    (w.call o (Call.on env data i)).outcome = (w'.serve o data i).outcome := by
  have hd : ({} : Details).isOk = true := Details.isOk_default
  have hs : { w.integrator with initialized := true } =
      { w'.integrator with initialized := true } := congrArg System.integrator h
  have hdb : w.opened.db = w'.opened.db := congrArg System.db h
  unfold serve System.call Call.on
  rw [integrate_of_opens hw ⟨hd, hok.newSession, .inr hok.select⟩,
    integrate_of_opens hw' ⟨hd, rfl, .inr rfl⟩, hs, show w.db = w'.db from hdb]
  exact outcome_dispatch hok Link.ok_default hd data i.recon i.shard i.block

theorem outcome_serve (hw : w.Ready) (hw' : w'.Ready) (h : w.opened = w'.opened) (data : Block)
    (i : Index) : (w.serve o data i).outcome = (w'.serve o data i).outcome :=
  outcome_call hw hw' h Link.ok_default data i

theorem serve_eq_dispatch (hw : w.Ready) :
    w.serve o data i = dispatch o { w.integrator with initialized := true } w.db
      { link := {}, work := w.db } data i.recon i.shard i.block {} := by
  have hopen : Opens {} w.integrator {} := ⟨Details.isOk_default, rfl, .inr rfl⟩
  exact integrate_of_opens hw hopen

/-- The block is accepted and its rows are not rejected. -/
def Takes (o : OpenSsl) (w : System) (data : Block) (i : Index) : Prop :=
  w.integrator.Accepts data i.recon i.shard i.block ∧
    ∃ db', Writes o {} w.integrator w.db data db'

theorem writes_opened {env : Env} {db' : Database} :
    Writes o env w.opened.integrator w.opened.db data db' ↔
      Writes o env w.integrator w.db data db' := by
  have hsteps : steps o w.opened.integrator data = steps o w.integrator data := by
    cases data <;> rfl
  unfold Writes
  rw [hsteps]
  rfl

theorem takes_opened : w.opened.Takes o data i ↔ w.Takes o data i :=
  and_congr_right fun _ => exists_congr fun _ => writes_opened

/-- Taking a block leads to `w'`: its rows are written and the cached state is moved on. -/
structure TakesTo (o : OpenSsl) (w : System) (data : Block) (i : Index) (w' : System) : Prop where
  accepts : w.integrator.Accepts data i.recon i.shard i.block
  writes : Writes o {} w.integrator w.db data w'.db
  integrator : w'.integrator = { advance o w.integrator data with initialized := true }

theorem TakesTo.takes (h : w.TakesTo o data i w') : w.Takes o data i :=
  ⟨h.accepts, w'.db, h.writes⟩

/-- `serve` gets there. -/
theorem TakesTo.serve_system (hw : w.Ready) (h : w.TakesTo o data i w') :
    (w.serve o data i).system = w' := by
  have ht : Taken o w (Call.on {} data i) w'.db :=
    taken_of_writes hw ⟨Details.isOk_default, rfl, .inr rfl⟩ h.accepts h.writes
  exact System.ext (ht.state.trans h.integrator.symm) ht.db

theorem Takes.takesTo_serve (hw : w.Ready) (h : w.Takes o data i) :
    w.TakesTo o data i (w.serve o data i).system := by
  obtain ⟨hacc, db', hwrites⟩ := h
  have ht : w.TakesTo o data i
      ⟨{ advance o w.integrator data with initialized := true }, db'⟩ := ⟨hacc, hwrites, rfl⟩
  rw [ht.serve_system hw]
  exact ht

/-- **What a call can do**: take the block, or leave the system as it is. -/
theorem serve_cases (o : OpenSsl) (data : Block) (i : Index) (hw : w.Ready) :
    (w.Takes o data i ∧ (w.serve o data i).result = .success ∧
        (w.serve o data i).state = { advance o w.integrator data with initialized := true }) ∨
      (¬ w.Takes o data i ∧ (w.serve o data i).system = w.opened ∧
        (isChain data = true → (w.serve o data i).result ≠ .success)) := by
  by_cases h : w.Takes o data i
  · obtain ⟨hacc, db', hwrites⟩ := h
    have ht : Taken o w (Call.on {} data i) db' :=
      taken_of_writes hw ⟨Details.isOk_default, rfl, .inr rfl⟩ hacc hwrites
    exact .inl ⟨⟨hacc, db', hwrites⟩, ht.result, ht.state⟩
  · obtain ⟨hres, hsys⟩ := Prod.mk.inj (outcome_serve (o := o) hw w.ready_opened rfl data i)
    rcases System.call_cases o w.ready_opened (Call.on {} data i) with ⟨db', ht⟩ | hq
    · exact absurd (takes_opened.mp ⟨ht.accepts, db', ht.writes⟩) h
    · refine .inr ⟨h, ?_, fun hc => ?_⟩
      · rw [hsys]
        exact System.ext (DbIntegrator.ext (hq.initialized rfl) hq.currentRecon hq.lastImports)
          hq.db
      · rw [hres]
        exact (hq.result hc).1

theorem takes_of_success (hw : w.Ready) (hc : isChain data = true)
    (h : (w.serve o data i).result = .success) : w.Takes o data i := by
  rcases serve_cases o data i hw with ⟨ht, _⟩ | ⟨_, _, hne⟩
  · exact ht
  · exact absurd h (hne hc)

theorem Takes.result_serve (hw : w.Ready) (h : w.Takes o data i) :
    (w.serve o data i).result = .success := by
  rcases serve_cases o data i hw with ⟨_, hres, _⟩ | ⟨hnot, _⟩
  · exact hres
  · exact absurd h hnot

theorem Takes.state_serve (hw : w.Ready) (h : w.Takes o data i) :
    (w.serve o data i).state = { advance o w.integrator data with initialized := true } := by
  rcases serve_cases o data i hw with ⟨_, _, hstate⟩ | ⟨hnot, _⟩
  · exact hstate
  · exact absurd h hnot

theorem serve_system_of_ne_success (hw : w.Ready) (h : (w.serve o data i).result ≠ .success) :
    (w.serve o data i).system = w.opened := by
  rcases serve_cases o data i hw with ⟨_, hres, _⟩ | ⟨_, hsys, _⟩
  · exact absurd hres h
  · exact hsys

theorem Takes.currentRecon_serve (hw : w.Ready) (h : w.Takes o data i) :
    (w.serve o data i).system.integrator.currentRecon = w.integrator.currentRecon + 1 := by
  have hrecon : (advance o w.integrator data).currentRecon = w.integrator.currentRecon + 1 := by
    cases data with
    | none => exact h.1.2.elim
    | node n => exact h.1.2.elim
    | genesis g => rw [h.1.2.1]; rfl
    | reconciliation r => rfl
  exact (congrArg DbIntegrator.currentRecon (h.state_serve hw)).trans hrecon

/-- `initialized` is set by every call. -/
theorem initialized_serve (hw : w.Ready) :
    (w.serve o data i).system.integrator.initialized = true := by
  rcases serve_cases o data i hw with ⟨_, _, hstate⟩ | ⟨_, hsys, _⟩
  · exact congrArg DbIntegrator.initialized hstate
  · rw [hsys]
    rfl

theorem serve_of_gt (hw : w.Ready) (h : w.integrator.currentRecon < i.recon) :
    (w.serve o data i).result = .notReady := by
  rw [serve_eq_dispatch hw]
  unfold dispatch
  rw [if_pos h]
  rfl

theorem serve_of_lt (hw : w.Ready) (h : i.recon < w.integrator.currentRecon) :
    (w.serve o data i).result = .alreadyDone := by
  rw [serve_eq_dispatch hw]
  unfold dispatch
  rw [if_neg (UInt32.lt_asymm h), if_pos h]
  rfl

end System

end Fluffycoin
