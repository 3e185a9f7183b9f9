import Fluffycoin.Block.Copy
import Fluffycoin.Block.Der
import Fluffycoin.Curator.ChainSafety

/-!
# Restarting the curator

The import state exists twice: cached, moved on by each integrated block, and as the row of
`imported_blocks` from which `init` rebuilds it in a new process. This module compares the two, in
the states reached when nothing fails.

* `Persists`: the table holds the row of the last block of the chain and nothing else
  (`persists_run`).
* `restart_state`: what `init` makes of that row, if its loop sees it once and the hash reads back
  as it was written. `lastImports` comes back. `currentRecon` comes back as the number in the row,
  one less than the cached one, except after the genesis block, for which `init` has a special
  case (`restart_currentRecon_iff`). `initialized` stays false and no value is returned: the
  function ends without `co_return` (`DbIntegrator.cpp:71-75`).
* `restart_disagrees`: so the restarted integrator never agrees with the running one once a block
  has been integrated, whatever rows the loop sees and whatever the caller reads as the result.
-/

namespace Fluffycoin

open Std (ExtTreeMap)
open Fluffycoin.Ossl DbIntegrator

/-! ## The row of the last block -/

/-- `imported_blocks` after the blocks of `l`. -/
def rowsOf (o : OpenSsl) (l : List Block) : List ImportedBlock :=
  match l.getLast? with
  | none => []
  | some b => [importedRow o (l.length - 1) b]

theorem rowsOf_concat (o : OpenSsl) (l : List Block) (b : Block) :
    rowsOf o (l ++ [b]) = [importedRow o l.length b] := by
  unfold rowsOf
  rw [List.getLast?_concat, List.length_append, List.length_singleton, Nat.add_sub_cancel]

/-- The cached state and the table are those of the chain `l`. -/
structure Persists (o : OpenSsl) (w : System) (l : List Block) : Prop where
  tracks : Tracks o w l
  rows : w.db.importedBlocks = rowsOf o l

theorem persists_fresh (o : OpenSsl) (tables : Database) :
    Persists o (System.fresh tables) [] :=
  ⟨tracks_fresh o tables, rfl⟩

/-- The rows of a written block are those of the extended chain. -/
theorem rows_of_writes {o : OpenSsl} {env : Env} {w : System} {l : List Block} {data : Block}
    {recon shard block : UInt32} {db' : Database} (h : Persists o w l)
    (hacc : w.integrator.Accepts data recon shard block)
    (hw : Writes o env w.integrator w.db data db') :
    db'.importedBlocks = rowsOf o (l ++ [data]) := by
  have hlen := h.tracks.currentRecon
  rw [rowsOf_concat]
  cases data with
  | none => exact hacc.2.elim
  | node n => exact hacc.2.elim
  | genesis g =>
    obtain rfl : l = [] := List.length_eq_zero_iff.mp (by rw [← hlen, hacc.2.1]; rfl)
    have hrows : w.db.importedBlocks = [] := h.rows
    rw [(execAll_genesis_iff.mp hw.2).2]
    simp only [genesisRows, hrows, List.nil_append, List.length_nil]
  | reconciliation r =>
    rw [(execAll_recon_iff.mp hw.2).2, hlen]

theorem persists_step {o : OpenSsl} {w : System} {l : List Block} (h : Persists o w l) (c : Call)
    (hok : c.env.toLink.Ok) :
    let e := Trace.entry (System.call o) w c
    Persists o e.ret.system (l ++ (accepted e).toList) := by
  intro e
  refine ⟨(tracks_step h.tracks c).1, ?_⟩
  rcases System.call_cases o h.tracks.ready c with ⟨db', ht⟩ | hq
  · have hdb := ht.db
    rw [if_pos hok.commit] at hdb
    rw [accepted_of_taken ht, Option.toList_some, ← rows_of_writes h ht.accepts ht.writes]
    exact congrArg Database.importedBlocks hdb
  · rw [accepted_of_quiet hq, Option.toList_none, List.append_nil]
    exact (congrArg Database.importedBlocks hq.db).trans h.rows

/-- Before the genesis block, only a genesis block is answered `Success`. -/
theorem isChain_of_success {o : OpenSsl} {w : System} {c : Call}
    (hready : w.integrator.Ready w.db) (h0 : w.integrator.currentRecon = 0)
    (hres : (w.call o c).result = .success) : isChain c.data = true := by
  unfold System.call at hres
  by_cases hopen : Opens c.env w.integrator c.details
  · rw [integrate_of_opens hready hopen] at hres
    unfold dispatch at hres
    simp only [h0, if_true] at hres
    cases hdata : c.data with
    | genesis g => rfl
    | reconciliation r => rfl
    | none =>
      simp only [hdata] at hres
      repeat' split at hres
      all_goals cases hres
    | node n =>
      simp only [hdata] at hres
      repeat' split at hres
      all_goals cases hres
  · obtain ⟨result, d, hcase, he⟩ := integrate_of_not_opens hopen
    rw [he] at hres
    rcases hcase with rfl | rfl <;> cases hres

/-- The answers `Success` of a run, each with the chain block it was given for, if any. -/
def successOf (e : Trace.Entry System Call Ret) : Option (Option Block) :=
  if e.ret.result = .success then some (accepted e) else none

theorem join_successOf (e : Trace.Entry System Call Ret) : (successOf e).join = accepted e := by
  unfold successOf
  split
  · rfl
  · rename_i h
    exact (if_neg fun hc => h hc.1).symm

theorem filterMap_successOf (es : List (Trace.Entry System Call Ret)) :
    (es.filterMap successOf).filterMap id = es.filterMap accepted := by
  rw [List.filterMap_filterMap]
  refine List.filterMap_congr fun e _ => ?_
  rw [← join_successOf e]
  cases successOf e <;> rfl

/-- The chain is that of the answers so far, and not empty once there is one. -/
structure Answers (o : OpenSsl) (w : System) (l : List (Option Block)) : Prop where
  persists : Persists o w (l.filterMap id)
  nonempty : l ≠ [] → l.filterMap id ≠ []

theorem answers_step {o : OpenSsl} {w : System} {l : List (Option Block)} (h : Answers o w l)
    (c : Call) (hok : c.env.toLink.Ok) :
    let e := Trace.entry (System.call o) w c
    Answers o e.ret.system (l ++ (successOf e).toList) := by
  intro e
  have hjoin : (successOf e).toList.filterMap id = (accepted e).toList := by
    rw [← join_successOf]
    rcases successOf e with _ | _ | b <;> rfl
  constructor
  · rw [List.filterMap_append, hjoin]
    exact persists_step h.persists c hok
  · intro hne hnil
    rw [List.filterMap_append, hjoin] at hnil
    obtain ⟨hnil₁, hnil₂⟩ := List.append_eq_nil_iff.mp hnil
    by_cases hl : l = []
    · subst hl
      by_cases hres : e.ret.result = .success
      · -- the first answer is for a genesis block
        have h0 : w.integrator.currentRecon = 0 :=
          UInt32.toNat_inj.mp h.persists.tracks.currentRecon
        have hchain := isChain_of_success h.persists.tracks.ready h0 hres
        rw [accepted, if_pos ⟨hres, hchain⟩] at hnil₂
        cases hnil₂
      · have hnone : successOf e = none := if_neg hres
        exact hne (by rw [hnone]; rfl)
    · exact h.nonempty hl hnil₁

/-- A run without failures ends in the state of the chain it accepted. The chain is not empty once
something was answered `Success`. -/
theorem persists_run (o : OpenSsl) (tables : Database) (calls : List Call)
    (hok : ∀ c ∈ calls, c.env.toLink.Ok) :
    Persists o (System.run o (System.fresh tables) calls)
        ((System.trace o (System.fresh tables) calls).filterMap accepted) ∧
      ((∃ e ∈ System.trace o (System.fresh tables) calls, e.ret.result = .success) →
        (System.trace o (System.fresh tables) calls).filterMap accepted ≠ []) := by
  obtain ⟨hrun, _⟩ := Trace.invariant (System.call o) Ret.system (Answers o) successOf
    (fun e => e.input.env.toLink.Ok) (fun _ => True)
    (fun w l c hw hok => ⟨answers_step hw c hok, trivial⟩) calls (System.fresh tables) []
    ⟨persists_fresh o tables, fun h => absurd rfl h⟩
    (fun e he => hok e.input (Trace.input_mem_of_mem_trace _ _ he))
  rw [List.nil_append] at hrun
  have hpersists := hrun.persists
  have hnonempty := hrun.nonempty
  rw [filterMap_successOf] at hpersists hnonempty
  refine ⟨hpersists, fun ⟨e, he, hres⟩ => hnonempty fun hnil => ?_⟩
  have hmem : accepted e ∈ (System.trace o (System.fresh tables) calls).filterMap successOf :=
    List.mem_filterMap.mpr ⟨e, he, if_pos hres⟩
  rw [hnil] at hmem
  cases hmem

/-! ## The restart -/

/-- `init` in a new process, against the committed tables. -/
def restart (o : OpenSsl) (env : Env) (w : System) : Result × DbIntegrator × Details :=
  init o env {} { link := env.toLink, work := w.db } {}

/-- The new process has the import state of the old one. -/
structure RestartAgrees (o : OpenSsl) (env : Env) (w : System) : Prop where
  result : (restart o env w).1 = .success
  initialized : (restart o env w).2.1.initialized = true
  currentRecon : (restart o env w).2.1.currentRecon = w.integrator.currentRecon
  lastImports : (restart o env w).2.1.lastImports = w.integrator.lastImports

theorem initialized_readRows (o : OpenSsl) :
    ∀ (rows : List ImportedBlock) (first : Bool) (s : DbIntegrator) (details : Details),
      (readRows o first s rows details).1.initialized = s.initialized
  | [], _, _, _ => rfl
  | row :: rows, first, s, details => by
    rw [readRows]
    split
    · rfl
    · rw [initialized_readRows o rows]
      cases first <;> rfl

/-- `init` does not set `initialized` when there is a row. -/
theorem initialized_init {o : OpenSsl} {env : Env} {s : DbIntegrator} {dbsession : Session}
    {details : Details} (h : dbsession.work.importedBlocks ≠ []) :
    (init o env s dbsession details).2.1.initialized = s.initialized := by
  have hrows := initialized_readRows o (env.visit dbsession.work.importedBlocks) true
    { s with currentRecon := 0, lastImports := ∅ } (dbsession.select details)
  unfold init
  simp only [if_neg h]
  split
  · rfl
  · split
    · exact hrows
    · split
      · exact hrows
      · exact hrows

/-- The row of `imported_blocks` with the hash as it was written. -/
def writtenRow (o : OpenSsl) (recon : Nat) (data : Block) : ImportedBlock :=
  { importedRow o recon data with hash := (Block.importHash o data).encode o }

theorem columnUInt32_natCast {n : Nat} (h : n < 2 ^ 32) : columnUInt32 n = UInt32.ofNat n :=
  ofInt_natCast32 h

theorem decodeHash_encode {o : OpenSsl} (ho : o.RoundTrips) {h : Hash} (hf : h.Fits) :
    decodeHash o (h.encode o) = some h := by
  obtain ⟨t, hread, rfl⟩ := ho.hash (h.toAsn1 default)
  unfold decodeHash decodeItem Hash.encode
  rw [hread, Option.map_some, Hash.fromAsn1_toAsn1 hf]

/-- What the loop of `init` reads from one row. -/
theorem readRows_writtenRow {o : OpenSsl} (ho : o.RoundTrips) {n : Nat} (hn : n < 2 ^ 32)
    {b : Block} (hf : (Block.importHash o b).Fits) :
    readRows o true { initialized := false, currentRecon := 0, lastImports := ∅ }
        [writtenRow o n b] {} =
      ({ initialized := false, currentRecon := UInt32.ofNat n,
         lastImports := (∅ : ExtTreeMap UInt32 ShardInfo).insert 0
           { hash := Block.importHash o b } }, {}, true) := by
  have hcol0 : columnUInt32 0 = 0 := by decide
  simp only [readRows, writtenRow, importedRow, columnUInt32_natCast hn, hcol0,
    decodeHash_encode ho hf, Bool.not_true, Bool.false_and, Bool.false_eq_true, if_false,
    if_true, Option.getD_some]

/-- The cached imports are the last block's alone. -/
theorem Persists.lastImports_eq {o : OpenSsl} {w : System} {l : List Block} {b : Block}
    (h : Persists o w (l ++ [b])) :
    (∅ : ExtTreeMap UInt32 ShardInfo).insert 0 { hash := Block.importHash o b } =
      w.integrator.lastImports := by
  rw [h.tracks.lastImports, importsOf_concat]
  refine ExtTreeMap.ext_getElem? fun k => ?_
  rw [ExtTreeMap.getElem?_insert, ExtTreeMap.getElem?_insertIfNew]
  simp

theorem ofNat_length_beq_zero {l : List Block} (h : l.length < 2 ^ 32) :
    (UInt32.ofNat l.length == 0) = decide (l = []) := by
  rw [Bool.eq_iff_iff, beq_iff_eq, decide_eq_true_iff, ← List.length_eq_zero_iff]
  constructor
  · intro h0
    have := congrArg UInt32.toNat h0
    rwa [UInt32.toNat_ofNat_of_lt' h] at this
  · intro h0
    rw [h0]
    rfl

/-- **What `init` rebuilds** after the chain `l ++ [b]`, if it sees the row of `b` once and the hash
as written: the cached `lastImports`, but the number of `b` for `currentRecon` (1 for the genesis
block), and no result. -/
theorem restart_state {o : OpenSsl} (ho : o.RoundTrips) {w : System} {l : List Block} {b : Block}
    (h : Persists o w (l ++ [b])) (hf : (Block.importHash o b).Fits) {env : Env}
    (hselect : env.select = none)
    (hvisit : env.visit w.db.importedBlocks = [writtenRow o l.length b]) :
    restart o env w = (env.fallOff,
      { initialized := false
        currentRecon := if l = [] then 1 else UInt32.ofNat l.length
        lastImports := w.integrator.lastImports }, {}) := by
  have hbound := h.tracks.bound
  rw [List.length_append, List.length_singleton] at hbound
  have hlt : l.length < 2 ^ 32 := by omega
  have hne : w.db.importedBlocks ≠ [] := by
    rw [h.rows, rowsOf_concat]
    simp
  have hnonempty : ((∅ : ExtTreeMap UInt32 ShardInfo).insert 0
      { hash := Block.importHash o b }).isEmpty = false := by
    simp
  have hok : (Session.select { link := env.toLink, work := w.db } {}) = {} :=
    Session.select_of_none hselect {}
  unfold restart init
  simp only [hok, Details.isOk_default, Bool.not_true, Bool.false_eq_true, if_false, if_neg hne,
    hvisit, readRows_writtenRow ho hlt hf, hnonempty, Bool.not_false, Bool.true_and,
    ofNat_length_beq_zero hlt, decide_eq_true_eq]
  by_cases hl : l = []
  · simp only [if_pos hl, h.lastImports_eq]
  · simp only [if_neg hl, h.lastImports_eq]

/-- `currentRecon` comes back exactly when nothing but the genesis block has been integrated. -/
theorem restart_currentRecon_iff {o : OpenSsl} (ho : o.RoundTrips) {w : System} {l : List Block}
    {b : Block} (h : Persists o w (l ++ [b])) (hf : (Block.importHash o b).Fits) {env : Env}
    (hselect : env.select = none)
    (hvisit : env.visit w.db.importedBlocks = [writtenRow o l.length b]) :
    (restart o env w).2.1.currentRecon = w.integrator.currentRecon ↔ l = [] := by
  have hbound := h.tracks.bound
  have hlen := h.tracks.currentRecon
  rw [List.length_append, List.length_singleton] at hbound hlen
  rw [restart_state ho h hf hselect hvisit]
  by_cases hl : l = []
  · rw [if_pos hl]
    refine iff_of_true ?_ hl
    rw [hl] at hlen
    exact UInt32.toNat_inj.mp hlen.symm
  · rw [if_neg hl]
    refine iff_of_false (fun heq => ?_) hl
    have hnat := congrArg UInt32.toNat heq
    rw [hlen, UInt32.toNat_ofNat_of_lt' (by show l.length < 2 ^ 32; omega)] at hnat
    omega

/-- **The restarted integrator never agrees** with the running one, in any state a run without
failures reaches after its first `Success`, whatever its row loop sees and whatever value its caller
reads. -/
theorem restart_disagrees (o : OpenSsl) (tables : Database) (calls : List Call)
    (hok : ∀ c ∈ calls, c.env.toLink.Ok)
    (hsome : ∃ e ∈ System.trace o (System.fresh tables) calls, e.ret.result = .success)
    (env : Env) : ¬ RestartAgrees o env (System.run o (System.fresh tables) calls) := by
  obtain ⟨hpersists, hne⟩ := persists_run o tables calls hok
  have hrows : (System.run o (System.fresh tables) calls).db.importedBlocks ≠ [] := by
    rw [hpersists.rows, rowsOf, List.getLast?_eq_some_getLast (hne hsome)]
    simp
  intro h
  have hinit := h.initialized
  unfold restart at hinit
  rw [initialized_init hrows] at hinit
  cases hinit

/-- A genesis block, integrated without a failure. -/
def okGenesis : Call := Call.genesis {} oneCoin

theorem taken_okGenesis (o : OpenSsl) :
    Taken o (System.fresh {}) okGenesis (genesisRows o oneCoin {}) :=
  taken_genesis o genesisFits_oneCoin rfl rfl fun _ => rfl

/-- A restart whose row loop sees the row of the genesis block once, with the hash as written. -/
def readsBack (o : OpenSsl) : Env where
  visit _ := [writtenRow o 0 (.genesis oneCoin)]
  fallOff := .success

theorem restart_disagrees_okGenesis :
    ¬ RestartAgrees (der id id) (readsBack (der id id))
      (System.run (der id id) (System.fresh {}) [okGenesis]) :=
  restart_disagrees (der id id) {} [okGenesis] (fun c hc => by
    obtain rfl := List.mem_singleton.mp hc
    exact Link.ok_default)
    ⟨Trace.entry (System.call (der id id)) (System.fresh {}) okGenesis, List.mem_singleton.mpr rfl,
      (taken_okGenesis (der id id)).result⟩ (readsBack (der id id))

theorem initialized_restart_okGenesis (o : OpenSsl) (env : Env) :
    (System.run o (System.fresh {}) [okGenesis]).integrator.initialized = true ∧
      (restart o env (System.run o (System.fresh {}) [okGenesis])).2.1.initialized = false := by
  have hrun : System.run o (System.fresh {}) [okGenesis] =
      ((System.fresh {}).call o okGenesis).system := rfl
  have ht := taken_okGenesis o
  have hdb : ((System.fresh {}).call o okGenesis).db = genesisRows o oneCoin {} := ht.db
  rw [hrun, Ret.system, hdb]
  refine ⟨congrArg DbIntegrator.initialized ht.state, initialized_init ?_⟩
  intro hnil
  cases hnil

/-- After the genesis block the running integrator is initialized and the restarted one is not, even
with `Success` read for the missing result. -/
theorem restart_okGenesis_not_initialized :
    (System.run (der id id) (System.fresh {}) [okGenesis]).integrator.initialized = true ∧
      (restart (der id id) (readsBack (der id id))
        (System.run (der id id) (System.fresh {}) [okGenesis])).2.1.initialized = false :=
  initialized_restart_okGenesis (der id id) (readsBack (der id id))

end Fluffycoin
