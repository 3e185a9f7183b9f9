import Fluffycoin.Curator.DbIntegrator

/-!
# What one call of `integrate` does

The effect of a call, said once, for the proofs about runs to build on.

* `Accepts s data recon shard block`: the checks of `integrate`, `integrateGenesis` and
  `integrateRecon` that a genesis or reconciliation block passes on its way to its statements. The
  first of the two loops over the shards is redundant: what the second lets pass it lets pass
  (`checkShards_of_matchShards`).
* `Opens`: the session opens and `init`, if it has to run, gets its rows. `entered` is what there is
  once it has run.
* A call that opens, whose `init` returns `Success`, that accepts and whose statements all run
  (`ReachesCommit`) answers `Success` and moves the cached state to `advance`, committed or not
  (`integrate_of_reachesCommit`); any other call that opens is `Quiet` after `init`
  (`quiet_of_not_reachesCommit`).

`Ready` is the condition under which `init` does not have to rebuild the cached state. It holds of a
fresh integrator over an empty table, and of an initialized one. Under it nothing but `initialized`
changes in `init`, and `integrate_of_writes` and `integrate_quiet` say the same of the state before
the call. Without it `init` goes into its loop over the rows.
-/

namespace Fluffycoin

open Std (ExtTreeMap)
open Fluffycoin.Ossl

namespace DbIntegrator

/-! ## What a genesis or reconciliation block has to pass -/

/-- The types of block that advance the import state. -/
def isChain : Block → Bool
  | .genesis _ => true
  | .reconciliation _ => true
  | _ => false

/-- The checks a genesis or reconciliation block passes to reach its statements. -/
def Accepts (s : DbIntegrator) (data : Block) (recon shard block : UInt32) : Prop :=
  recon = s.currentRecon ∧
    match data with
    | .genesis _ => s.currentRecon = 0 ∧ shard = 0 ∧ block = 0
    | .reconciliation r => s.currentRecon ≠ 0 ∧ r.chainId = s.currentRecon ∧
        r.shardInfo.length = s.lastImports.size ∧
        ∀ i info, r.shardInfo[i]? = some info →
          s.lastImports[UInt32.ofNat i]? = some ⟨info.blocks, info.hash⟩
    | _ => False

/-- The statements of an accepted block. -/
def steps (o : OpenSsl) (s : DbIntegrator) : Block → List Session.Step
  | .genesis g => genesisSteps o g
  | .reconciliation r => reconSteps o s.currentRecon r
  | _ => []

/-- The cached state after an accepted block. -/
def advance (o : OpenSsl) (s : DbIntegrator) : Block → DbIntegrator
  | .genesis g =>
    { s with currentRecon := 1,
             lastImports := s.lastImports.insertIfNew 0
               { hash := Block.importHash o (.genesis g) } }
  | .reconciliation r =>
    { s with currentRecon := s.currentRecon + 1,
             lastImports := (∅ : ExtTreeMap UInt32 ShardInfo).insertIfNew 0
               { hash := Block.importHash o (.reconciliation r) } }
  | _ => s

theorem isChain_of_accepts {s : DbIntegrator} {data : Block} {recon shard block : UInt32}
    (h : s.Accepts data recon shard block) : isChain data = true := by
  cases data with
  | none => exact h.2.elim
  | genesis g => rfl
  | reconciliation r => rfl
  | node n => exact h.2.elim

/-! ### The two loops over the shards -/

variable {lastImports : ExtTreeMap UInt32 ShardInfo} {recon shard block : UInt32}

/-- `matchShards` passes exactly when the cache holds each shard as the block has it. -/
theorem matchShards_eq_none_iff (details : Details) :
    ∀ (k : Nat) (infos : List ReconciliationShardInfo),
      matchShards lastImports k infos details = none ↔
        ∀ i info, infos[i]? = some info →
          lastImports[UInt32.ofNat (k + i)]? = some ⟨info.blocks, info.hash⟩
  | k, [] => by simp [matchShards]
  | k, info :: infos => by
    have ih := matchShards_eq_none_iff details (k + 1) infos
    have hsplit : (∀ i info', (info :: infos)[i]? = some info' →
          lastImports[UInt32.ofNat (k + i)]? = some ⟨info'.blocks, info'.hash⟩) ↔
        lastImports[UInt32.ofNat k]? = some ⟨info.blocks, info.hash⟩ ∧
        ∀ i info', infos[i]? = some info' →
          lastImports[UInt32.ofNat (k + 1 + i)]? = some ⟨info'.blocks, info'.hash⟩ := by
      constructor
      · intro h
        refine ⟨h 0 info rfl, fun i info' hi => ?_⟩
        have := h (i + 1) info' hi
        rwa [← Nat.add_assoc, Nat.add_right_comm] at this
      · rintro ⟨h0, hs⟩ i info' hi
        cases i with
        | zero =>
          obtain rfl : info = info' := Option.some.inj hi
          exact h0
        | succ i =>
          have := hs i info' hi
          rwa [Nat.add_right_comm, Nat.add_assoc] at this
    rw [hsplit, ← ih, matchShards]
    cases hk : lastImports[UInt32.ofNat k]? with
    | none => simp
    | some imported =>
      simp only [Option.some.injEq]
      by_cases hb : imported.block = info.blocks
      · by_cases hh : imported.hash = info.hash
        · have himp : imported = ⟨info.blocks, info.hash⟩ := by rw [← hb, ← hh]
          simp [himp]
        · have : imported ≠ ⟨info.blocks, info.hash⟩ := fun h => hh (by rw [h])
          simp [hb, hh, this]
      · have : imported ≠ ⟨info.blocks, info.hash⟩ := fun h => hb (by rw [h])
        simp [hb, this]

/-- What the second loop lets pass the first does too. -/
theorem checkShards_of_matchShards (details : Details) :
    ∀ (k : Nat) (infos : List ReconciliationShardInfo),
      matchShards lastImports k infos details = none →
        checkShards lastImports recon k infos details = none
  | _, [], _ => rfl
  | k, info :: infos, h => by
    have ih := checkShards_of_matchShards details (k + 1) infos
    rw [matchShards] at h
    rw [checkShards]
    cases hk : lastImports[UInt32.ofNat k]? with
    | none =>
      rw [hk] at h
      cases h
    | some imported =>
      rw [hk] at h
      simp only at h
      split at h
      · cases h
      · split at h
        · cases h
        · rename_i hb hh
          push Not at hb hh
          simp [hb, hh, ih h, UInt32.lt_irrefl]

theorem matchShards_ne_success {details d : Details} {result : Result} :
    ∀ {k : Nat} {infos : List ReconciliationShardInfo},
      matchShards lastImports k infos details = some (result, d) → result ≠ .success
  | _, [], h => by cases h
  | k, info :: infos, h => by
    rw [matchShards] at h
    repeat' split at h
    · cases h
      decide
    · cases h
      decide
    · cases h
      decide
    · exact matchShards_ne_success h

theorem checkShards_ne_success {details d : Details} {result : Result} :
    ∀ {k : Nat} {infos : List ReconciliationShardInfo},
      checkShards lastImports recon k infos details = some (result, d) → result ≠ .success
  | _, [], h => by cases h
  | k, info :: infos, h => by
    rw [checkShards] at h
    repeat' split at h
    · cases h
      decide
    · cases h
      decide
    · cases h
      decide
    · exact checkShards_ne_success h
    · cases h
      decide
    · exact checkShards_ne_success h

/-! ## The statements and the commit -/

variable {o : OpenSsl} {env : Env} {s : DbIntegrator} {db : Database} {data : Block}
variable {dbsession : Session} {details : Details}

theorem commitSteps_of_runs (hd : details.isOk = true) {qs : List Session.Step}
    {next : DbIntegrator} {w : Database} (h : dbsession.Runs (qs.map Session.Step.statement) w) :
    let r := commitSteps qs next s db dbsession details
    r.result = .success ∧ r.state = next ∧ r.committed = dbsession.link.commit.isNone ∧
      r.db = if dbsession.link.commit = none then w else db := by
  simp only [commitSteps, Session.queries_of_runs hd h, Session.commit_fst,
    Option.isNone_iff_eq_none, and_self]

theorem commitSteps_of_not_runs (hd : details.isOk = true) {qs : List Session.Step}
    {next : DbIntegrator} (h : ¬ ∃ w, dbsession.Runs (qs.map Session.Step.statement) w) :
    ∃ d, commitSteps qs next s db dbsession details = stop .databaseError s db d := by
  have hflag := Session.queries_of_not_runs hd h
  unfold commitSteps
  generalize Session.queries qs dbsession details = q at hflag
  obtain ⟨s', d, flag⟩ := q
  obtain rfl : flag = false := hflag
  exact ⟨d, rfl⟩

/-- A transaction that was committed holds what its statements wrote. -/
theorem db_of_committed {qs : List Session.Step} {next : DbIntegrator} (hne : qs ≠ [])
    (h : (commitSteps qs next s db dbsession details).committed = true) :
    ∃ w, dbsession.Runs (qs.map Session.Step.statement) w ∧
      (commitSteps qs next s db dbsession details).db = w := by
  have hflag : (Session.queries qs dbsession details).2.2 = true := by
    by_contra hflag
    rw [Bool.not_eq_true] at hflag
    unfold commitSteps at h
    generalize Session.queries qs dbsession details = q at h hflag
    obtain ⟨s', d, flag⟩ := q
    obtain rfl : flag = false := hflag
    cases h
  obtain ⟨hd, w, hw⟩ := Session.runs_of_queries hne hflag
  rw [(commitSteps_of_runs hd hw).2.2.1, Option.isNone_iff_eq_none] at h
  refine ⟨w, hw, ?_⟩
  rw [(commitSteps_of_runs hd hw).2.2.2, if_pos h]

/-! ## Calls that change nothing -/

/-- The cached import state and the tables are as before, and no genesis or reconciliation block
was answered `Success` or committed. -/
structure Quiet (s : DbIntegrator) (db : Database) (data : Block) (r : Ret) : Prop where
  currentRecon : r.state.currentRecon = s.currentRecon
  lastImports : r.state.lastImports = s.lastImports
  initialized : s.initialized = true → r.state.initialized = true
  ready : r.state.initialized = true → s.initialized = true ∨ db.importedBlocks = []
  db : r.db = db
  result : isChain data = true → r.result ≠ .success ∧ r.committed = false

theorem quiet_stop {result : Result} (h : result ≠ .success) :
    Quiet s db data (stop result s db details) :=
  ⟨rfl, rfl, id, .inl, rfl, fun _ => ⟨h, rfl⟩⟩

/-! ## `dispatch` -/

theorem dispatch_of_accepts (h : s.Accepts data recon shard block) :
    dispatch o s db dbsession data recon shard block details =
      commitSteps (steps o s data) (advance o s data) s db dbsession details := by
  obtain ⟨rfl, h⟩ := h
  have hirr : ¬ (s.currentRecon > s.currentRecon) := UInt32.lt_irrefl _
  have hirr' : ¬ (s.currentRecon < s.currentRecon) := UInt32.lt_irrefl _
  unfold dispatch
  rw [if_neg hirr, if_neg hirr']
  cases data with
  | none => exact h.elim
  | node n => exact h.elim
  | genesis g =>
    obtain ⟨h0, rfl, rfl⟩ := h
    rw [if_pos h0]
    rfl
  | reconciliation r =>
    obtain ⟨h0, hchain, hsize, hshards⟩ := h
    have hmatch : matchShards s.lastImports 0 r.shardInfo details = none := by
      rw [matchShards_eq_none_iff]
      simpa using hshards
    rw [if_neg h0]
    simp only [checkShards_of_matchShards details 0 r.shardInfo hmatch]
    simp only [integrateRecon, hchain, hsize, hmatch, ne_eq, not_true_eq_false, if_false]
    rfl

theorem quiet_integrateNode {n : Node} (hw : dbsession.work = db) :
    Quiet s db (.node n) (integrateNode s db shard block dbsession details) := by
  unfold integrateNode
  simp only
  split
  · exact quiet_stop (by decide)
  split
  · exact quiet_stop (by decide)
  refine ⟨rfl, rfl, id, .inl, ?_, fun h => by cases h⟩
  simp only [hw, ite_self]

theorem quiet_integrateRecon {r : Reconciliation}
    (h : r.chainId = s.currentRecon → r.shardInfo.length = s.lastImports.size →
      matchShards s.lastImports 0 r.shardInfo details ≠ none) :
    Quiet s db (.reconciliation r) (integrateRecon o s db r dbsession details) := by
  unfold integrateRecon
  split
  · exact quiet_stop (by decide)
  split
  · exact quiet_stop (by decide)
  rename_i hchain hsize
  push Not at hchain hsize
  cases hmatch : matchShards s.lastImports 0 r.shardInfo details with
  | none => exact absurd hmatch (h hchain hsize)
  | some p => exact quiet_stop (matchShards_ne_success hmatch)

theorem dispatch_of_not_accepts (hw : dbsession.work = db)
    (h : ¬ s.Accepts data recon shard block) :
    Quiet s db data (dispatch o s db dbsession data recon shard block details) := by
  unfold dispatch
  split
  · exact quiet_stop (by decide)
  split
  · exact quiet_stop (by decide)
  rename_i hgt hlt
  have hrecon : recon = s.currentRecon := UInt32.le_antisymm (UInt32.not_lt.mp hgt)
    (UInt32.not_lt.mp hlt)
  split
  · rename_i h0
    split
    · exact quiet_stop (by decide)
    split
    · exact quiet_stop (by decide)
    rename_i hshard hblock
    push Not at hshard hblock
    cases data with
    | genesis g => exact absurd ⟨hrecon, h0, hshard, hblock⟩ h
    | none => exact quiet_stop (by decide)
    | reconciliation r => exact quiet_stop (by decide)
    | node n => exact quiet_stop (by decide)
  · rename_i h0
    cases data with
    | none => exact quiet_stop (by decide)
    | genesis g => exact quiet_stop (by decide)
    | node n => exact quiet_integrateNode hw
    | reconciliation r =>
      simp only
      split
      · rename_i hcheck
        exact quiet_stop (checkShards_ne_success hcheck)
      · refine quiet_integrateRecon fun hchain hsize hmatch => h ⟨hrecon, h0, hchain, hsize, ?_⟩
        simpa using (matchShards_eq_none_iff details 0 r.shardInfo).mp hmatch

/-! ## `integrate` -/

/-- `init` has nothing to rebuild. -/
def Ready (s : DbIntegrator) (db : Database) : Prop :=
  s.initialized = true ∨ db.importedBlocks = []

theorem Ready.importedBlocks_eq_nil (h : s.Ready db) (hi : s.initialized = false) :
    db.importedBlocks = [] := by
  rcases h with h | h
  · rw [hi] at h
    cases h
  · exact h

/-- The call gets past its session and `init`. -/
def Opens (env : Env) (s : DbIntegrator) (details : Details) : Prop :=
  details.isOk = true ∧ env.newSession = none ∧ (s.initialized = true ∨ env.select = none)

/-- None of the block's statements fails, and `w` is what the transaction sees after them. -/
def Writes (o : OpenSsl) (env : Env) (s : DbIntegrator) (db : Database) (data : Block)
    (w : Database) : Prop :=
  Session.Runs { link := env.toLink, work := db }
    ((steps o s data).map Session.Step.statement) w

/-- Result, cached state and details once `init` is past, if it has to run
(`DbIntegrator.cpp:93-99`). -/
def entered (o : OpenSsl) (env : Env) (s : DbIntegrator) (db : Database) (details : Details) :
    Result × DbIntegrator × Details :=
  if s.initialized then (.success, s, details)
  else init o env s { link := env.toLink, work := db } details

/-- A call that opens, from `init` on. -/
theorem integrate_eq (h : Opens env s details) :
    integrate o env s db data recon shard block details =
      if (entered o env s db details).1 ≠ .success then
        stop (entered o env s db details).1 (entered o env s db details).2.1 db
          (entered o env s db details).2.2
      else dispatch o (entered o env s db details).2.1 db { link := env.toLink, work := db } data
        recon shard block (entered o env s db details).2.2 := by
  obtain ⟨hd, hsession, -⟩ := h
  unfold integrate
  rw [Session.newSession_of_none hsession]
  simp only [hd, Bool.not_true, Bool.false_eq_true, if_false]
  rfl

/-- The query of `init` goes through. -/
theorem Opens.select (h : Opens env s details) (hi : s.initialized = false) :
    Session.select { link := env.toLink, work := db } details = details := by
  have hsel : env.select = none := h.2.2.resolve_left (by rw [hi]; decide)
  rw [Session.select_of_none hsel]

/-- With nothing to rebuild only `initialized` changes. -/
theorem entered_of_ready (hr : s.Ready db) (h : Opens env s details) :
    entered o env s db details = (.success, { s with initialized := true }, details) := by
  unfold entered
  cases hi : s.initialized with
  | true =>
    have hs : { s with initialized := true } = s := by rw [← hi]
    simp [hs]
  | false =>
    simp only [Bool.false_eq_true, if_false, init, h.select hi, h.1, Bool.not_true,
      hr.importedBlocks_eq_nil hi, if_true]

theorem integrate_of_opens (hr : s.Ready db) (h : Opens env s details) :
    integrate o env s db data recon shard block details =
      dispatch o { s with initialized := true } db { link := env.toLink, work := db } data recon
        shard block details := by
  rw [integrate_eq h, entered_of_ready hr h]
  rfl

/-- A call that does not get past its session and `init` changes nothing. -/
theorem integrate_of_not_opens (h : ¬ Opens env s details) :
    ∃ result d, (result = .noDatabase ∨ result = .databaseError) ∧
      integrate o env s db data recon shard block details = stop result s db d := by
  unfold integrate
  by_cases hopen : env.newSession = none ∧ details.isOk = true
  · obtain ⟨hsession, hd⟩ := hopen
    have hnot : ¬ (s.initialized = true ∨ env.select = none) := fun hs => h ⟨hd, hsession, hs⟩
    push Not at hnot
    obtain ⟨hi, hsel⟩ := hnot
    have hbad : (Session.select { link := env.toLink, work := db } details).isOk = false := by
      by_contra hok
      rw [Bool.not_eq_false, Session.isOk_select] at hok
      exact hsel hok.1
    rw [Session.newSession_of_none hsession]
    simp only [hd, Bool.not_true, Bool.false_eq_true, if_false, hi, init, hbad, Bool.not_false,
      if_true]
    exact ⟨.databaseError, _, Or.inr rfl, rfl⟩
  · have hbad : (Session.newSession env.toLink db details).2.isOk = false := by
      by_contra hok
      rw [Bool.not_eq_false, Session.isOk_newSession] at hok
      exact hopen hok
    simp only [hbad, Bool.not_false, if_true]
    exact ⟨.noDatabase, _, Or.inl rfl, rfl⟩

theorem quiet_of_not_opens (h : ¬ Opens env s details) :
    Quiet s db data (integrate o env s db data recon shard block details) := by
  obtain ⟨result, d, hres, he⟩ := integrate_of_not_opens (o := o) h
  rw [he]
  refine quiet_stop ?_
  rcases hres with rfl | rfl <;> decide

/-! ### The row loop of `init` -/

theorem readRows_initialized (first : Bool) (s : DbIntegrator) (rows : List ImportedBlock)
    (details : Details) : (readRows o first s rows details).1.initialized = s.initialized := by
  induction rows generalizing first s with
  | nil => rfl
  | cons row rows ih =>
    rw [readRows]
    split
    · rfl
    · rw [ih]
      cases first <;> rfl

/-- Unless it stops at a mismatch the loop reports nothing. -/
theorem readRows_details {first : Bool} {s : DbIntegrator} {rows : List ImportedBlock}
    {details : Details} (h : (readRows o first s rows details).2.2 = true) :
    (readRows o first s rows details).2.1 = details := by
  induction rows generalizing first s with
  | nil => rfl
  | cons row rows ih =>
    rw [readRows] at h ⊢
    split at h
    · cases h
    · rename_i hmatch
      rw [if_neg hmatch]
      exact ih h

/-- With something to rebuild `init` goes into its loop, with an empty cached state. -/
theorem exists_entered_eq (hr : ¬ s.Ready db) (h : Opens env s details) :
    ∃ s' d ok, readRows o true {} (env.visit db.importedBlocks) details = (s', d, ok) ∧
      entered o env s db details =
        if !ok then (.invalidState, s', d)
        else (env.fallOff, if !s'.lastImports.isEmpty && s'.currentRecon == 0 then
          { s' with currentRecon := 1 } else s', d) := by
  obtain ⟨hi, hrows⟩ := not_or.mp hr
  rw [Bool.not_eq_true] at hi
  refine ⟨_, _, _, rfl, ?_⟩
  simp only [entered, hi, Bool.false_eq_true, if_false, init, h.select hi, h.1, Bool.not_true,
    hrows]

/-- **What the row loop leaves** when there is something to rebuild: the integrator is still not
initialized; and if the caller reads `Success`, there are no errors, and a cached state that stands
before the genesis block has no imports. -/
theorem entered_of_not_ready (hr : ¬ s.Ready db) (h : Opens env s details) :
    (entered o env s db details).2.1.initialized = false ∧
      ((entered o env s db details).1 = .success → (entered o env s db details).2.2 = details ∧
        ((entered o env s db details).2.1.currentRecon = 0 →
          (entered o env s db details).2.1.lastImports = ∅)) := by
  obtain ⟨s', d, ok, hread, hentered⟩ := exists_entered_eq (o := o) hr h
  have hinit : s'.initialized = false := by
    have := readRows_initialized (o := o) true {} (env.visit db.importedBlocks) details
    rwa [hread] at this
  have hdetails (hok : ok = true) : d = details := by
    have hflag : (readRows o true {} (env.visit db.importedBlocks) details).2.2 = true := by
      rw [hread]
      exact hok
    have := readRows_details hflag
    rwa [hread] at this
  rw [hentered]
  cases ok with
  | false => exact ⟨hinit, fun h => by cases h⟩
  | true =>
    simp only [Bool.not_true, Bool.false_eq_true, if_false]
    refine ⟨?_, fun _ => ⟨hdetails rfl, fun h0 => ?_⟩⟩
    · split <;> exact hinit
    · split at h0
      · cases h0
      · rename_i hempty
        rw [if_neg hempty]
        rw [Bool.and_eq_true, not_and, beq_iff_eq, Bool.not_eq_true'] at hempty
        by_contra hne
        refine hempty ?_ h0
        rw [← Bool.not_eq_true, ExtTreeMap.isEmpty_iff]
        exact hne

/-- The loop only adds imports. -/
theorem readRows_lastImports_ne {first : Bool} {s : DbIntegrator} (rows : List ImportedBlock)
    (details : Details) (h : s.lastImports ≠ ∅) :
    (readRows o first s rows details).1.lastImports ≠ ∅ := by
  induction rows generalizing first s with
  | nil => exact h
  | cons row rows ih =>
    rw [readRows]
    split
    · exact h
    · exact ih ExtTreeMap.insert_ne_empty

/-- A row that the loop sees is in the rebuilt cache. -/
theorem lastImports_entered_ne (hr : ¬ s.Ready db) (h : Opens env s details)
    (hsees : env.visit db.importedBlocks ≠ []) :
    (entered o env s db details).2.1.lastImports ≠ ∅ := by
  obtain ⟨s', d, ok, hread, hentered⟩ := exists_entered_eq (o := o) hr h
  have hne : s'.lastImports ≠ ∅ := by
    have hread' : (readRows o true {} (env.visit db.importedBlocks) details).1 = s' := by rw [hread]
    rw [← hread']
    cases hvisit : env.visit db.importedBlocks with
    | nil => exact absurd hvisit hsees
    | cons row rows => exact readRows_lastImports_ne rows details ExtTreeMap.insert_ne_empty
  rw [hentered]
  split
  · exact hne
  · dsimp only
    split <;> exact hne

theorem entered_details (h : Opens env s details)
    (hs : (entered o env s db details).1 = .success) :
    (entered o env s db details).2.2 = details := by
  by_cases hr : s.Ready db
  · rw [entered_of_ready hr h]
  · exact ((entered_of_not_ready hr h).2 hs).1

/-! ### Calls that get to their commit, and the others -/

/-- The call gets as far as its commit, with `w` for the tables. -/
structure ReachesCommit (o : OpenSsl) (env : Env) (s : DbIntegrator) (db : Database) (data : Block)
    (recon shard block : UInt32) (details : Details) (w : Database) : Prop where
  opens : Opens env s details
  entered : (entered o env s db details).1 = .success
  accepts : (DbIntegrator.entered o env s db details).2.1.Accepts data recon shard block
  writes : Writes o env (DbIntegrator.entered o env s db details).2.1 db data w

theorem integrate_of_reachesCommit {w : Database}
    (h : ReachesCommit o env s db data recon shard block details w) :
    let r := integrate o env s db data recon shard block details
    r.result = .success ∧ r.state = advance o (entered o env s db details).2.1 data ∧
      r.committed = env.commit.isNone ∧ r.db = if env.commit = none then w else db := by
  rw [integrate_eq h.opens, if_neg (not_not.mpr h.entered), dispatch_of_accepts h.accepts,
    entered_details h.opens h.entered]
  exact commitSteps_of_runs h.opens.1 h.writes

/-- Any other call that opens changes nothing after `init`. -/
theorem quiet_of_not_reachesCommit (hopen : Opens env s details)
    (h : ¬ ∃ w, ReachesCommit o env s db data recon shard block details w) :
    Quiet (entered o env s db details).2.1 db data
      (integrate o env s db data recon shard block details) := by
  rw [integrate_eq hopen]
  split
  · rename_i hfail
    exact quiet_stop hfail
  · rename_i hsuccess
    rw [not_not] at hsuccess
    rw [entered_details hopen hsuccess]
    by_cases hacc : (entered o env s db details).2.1.Accepts data recon shard block
    · rw [dispatch_of_accepts hacc]
      obtain ⟨d, hd⟩ := commitSteps_of_not_runs hopen.1
        fun ⟨w, hw⟩ => h ⟨w, hopen, hsuccess, hacc, hw⟩
      rw [hd]
      exact quiet_stop (by decide)
    · exact dispatch_of_not_accepts rfl hacc

/-- In a ready state the checks may be read against the state before the call. -/
theorem reachesCommit_iff (hr : s.Ready db) (hopen : Opens env s details) {w : Database} :
    ReachesCommit o env s db data recon shard block details w ↔
      s.Accepts data recon shard block ∧ Writes o env s db data w := by
  have hsteps : steps o { s with initialized := true } data = steps o s data := by
    cases data <;> rfl
  have hentered := entered_of_ready (o := o) hr hopen
  constructor
  · rintro ⟨-, -, hacc, hw⟩
    rw [hentered] at hacc hw
    refine ⟨hacc, ?_⟩
    rwa [Writes, hsteps] at hw
  · rintro ⟨hacc, hw⟩
    refine ⟨hopen, by rw [hentered], by rw [hentered]; exact hacc, ?_⟩
    rwa [hentered, Writes, hsteps]

/-- A call that opens, accepts and writes. -/
theorem integrate_of_writes (hr : s.Ready db) (hopen : Opens env s details)
    (hacc : s.Accepts data recon shard block) {w : Database} (hw : Writes o env s db data w) :
    let r := integrate o env s db data recon shard block details
    r.result = .success ∧ r.state = { advance o s data with initialized := true } ∧
      r.committed = env.commit.isNone ∧ r.db = if env.commit = none then w else db := by
  have hadv : advance o { s with initialized := true } data =
      { advance o s data with initialized := true } := by
    cases data <;> rfl
  have h := integrate_of_reachesCommit ((reachesCommit_iff (o := o) hr hopen).mpr ⟨hacc, hw⟩)
  rwa [entered_of_ready hr hopen, hadv] at h

/-- Every other call changes nothing. -/
theorem integrate_quiet (hr : s.Ready db)
    (h : ¬ (Opens env s details ∧ s.Accepts data recon shard block ∧
      ∃ w, Writes o env s db data w)) :
    Quiet s db data (integrate o env s db data recon shard block details) := by
  by_cases hopen : Opens env s details
  · have hnot : ¬ ∃ w, ReachesCommit o env s db data recon shard block details w := by
      rintro ⟨w, hw⟩
      obtain ⟨hacc, hwrites⟩ := (reachesCommit_iff hr hopen).mp hw
      exact h ⟨hopen, hacc, w, hwrites⟩
    have hq := quiet_of_not_reachesCommit hopen hnot
    rw [entered_of_ready hr hopen] at hq
    exact ⟨hq.currentRecon, hq.lastImports, fun _ => hq.initialized rfl, fun _ => hr, hq.db,
      hq.result⟩
  · exact quiet_of_not_opens hopen

end DbIntegrator

end Fluffycoin
