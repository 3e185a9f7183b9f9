import Fluffycoin.Curator.Rows
import Fluffycoin.Utils.Trace

/-!
# Chain safety of `DbIntegrator`

Whatever blocks arrive at whatever indexes, and whatever fails in the database, the blocks the
integrator answers `Success` for form one chain.

* `ValidChain o l`: the first block of `l` is a genesis block, and each later one is the
  reconciliation block numbered by its position that names, as its only shard, the hash of the block
  before it. This is what the integrator is for, said without the integrator.
* `Tracks o w l`: the cached state is the one `l` determines. `currentRecon` counts the blocks of
  `l`, `lastImports` holds the hash of the last one under shard 0, and an integrator that is not
  initialized has seen none and stands before an empty table.
* `tracks_step`: a call either leaves `l` as it is or appends the block it answers `Success` for.
  `chain_safety` is the induction over a run of calls.

The counter cannot wrap: the block that would take it past `2^31` has its `INSERT` rejected by the
`INT` column (`currentRecon_lt_of_writes`), so `Tracks` bounds the length of the chain.
-/

namespace Fluffycoin

open Std (ExtTreeMap)
open Fluffycoin.Ossl DbIntegrator

/-! ## Runs of calls -/

/-- The integrator and its database. -/
@[ext]
structure System where
  integrator : DbIntegrator
  db : Database

/-- A fresh integrator on tables without imported blocks. -/
def System.fresh (tables : Database) : System := ⟨{}, { tables with importedBlocks := [] }⟩

/-- The arguments of one call of `integrate`, and its environment. -/
structure Call where
  env : Env
  data : Block
  recon : UInt32
  shard : UInt32
  block : UInt32
  details : Details := {}

/-- One call. -/
def System.call (o : OpenSsl) (w : System) (c : Call) : Ret :=
  integrate o c.env w.integrator w.db c.data c.recon c.shard c.block c.details

/-- The system after a call. -/
def Ret.system (r : Ret) : System := ⟨r.state, r.db⟩

/-- A call that gets as far as its commit, and what it leaves behind. -/
structure Taken (o : OpenSsl) (w : System) (c : Call) (db' : Database) : Prop where
  opens : Opens c.env w.integrator c.details
  accepts : w.integrator.Accepts c.data c.recon c.shard c.block
  writes : Writes o c.env w.integrator w.db c.data db'
  result : (w.call o c).result = .success
  state : (w.call o c).state = { advance o w.integrator c.data with initialized := true }
  committed : (w.call o c).committed = c.env.commit.isNone
  db : (w.call o c).db = if c.env.commit = none then db' else w.db

theorem taken_of_writes {o : OpenSsl} {w : System} {c : Call} {db' : Database}
    (hready : w.integrator.Ready w.db) (hopen : Opens c.env w.integrator c.details)
    (hacc : w.integrator.Accepts c.data c.recon c.shard c.block)
    (hw : Writes o c.env w.integrator w.db c.data db') : Taken o w c db' := by
  obtain ⟨hres, hstate, hcom, hdb⟩ := integrate_of_writes hready hopen hacc hw
  exact ⟨hopen, hacc, hw, hres, hstate, hcom, hdb⟩

/-- **What a call can do**: get as far as its commit, or change nothing. -/
theorem System.call_cases (o : OpenSsl) {w : System} (hready : w.integrator.Ready w.db) (c : Call) :
    (∃ db', Taken o w c db') ∨ Quiet w.integrator w.db c.data (w.call o c) := by
  by_cases hgo : Opens c.env w.integrator c.details ∧
      w.integrator.Accepts c.data c.recon c.shard c.block ∧
      ∃ db', Writes o c.env w.integrator w.db c.data db'
  · obtain ⟨hopen, hacc, db', hw⟩ := hgo
    exact .inl ⟨db', taken_of_writes hready hopen hacc hw⟩
  · exact .inr (integrate_quiet hready hgo)

/-- The steps of a run of calls. -/
abbrev System.trace (o : OpenSsl) (w : System) (calls : List Call) :
    List (Trace.Entry System Call Ret) :=
  Trace.trace (System.call o) Ret.system w calls

/-- The system after a run of calls. -/
abbrev System.run (o : OpenSsl) (w : System) (calls : List Call) : System :=
  Trace.final (System.call o) Ret.system w calls

/-- The genesis or reconciliation block a step answered `Success` for. -/
def accepted (e : Trace.Entry System Call Ret) : Option Block :=
  if e.ret.result = .success ∧ isChain e.input.data = true then some e.input.data else none

theorem accepted_of_taken {o : OpenSsl} {w : System} {c : Call} {db' : Database}
    (h : Taken o w c db') : accepted (Trace.entry (System.call o) w c) = some c.data :=
  if_pos ⟨h.result, isChain_of_accepts h.accepts⟩

theorem accepted_of_quiet {o : OpenSsl} {w : System} {c : Call}
    (h : Quiet w.integrator w.db c.data (w.call o c)) :
    accepted (Trace.entry (System.call o) w c) = none :=
  if_neg fun hc => (h.result hc.2).1 hc.1

/-! ## Chains -/

/-- A genesis block, then reconciliation blocks, each numbered by its position and naming the hash
of the one before it. -/
structure ValidChain (o : OpenSsl) (l : List Block) : Prop where
  genesis : ∀ b, l[0]? = some b → ∃ g, b = .genesis g
  reconciliation : ∀ i b b', l[i]? = some b → l[i + 1]? = some b' →
    ∃ r : Reconciliation, b' = .reconciliation r ∧ r.chainId.toNat = i + 1 ∧
      r.shardInfo = [{ hash := Block.importHash o b, blocks := 0 }]

theorem validChain_nil (o : OpenSsl) : ValidChain o [] where
  genesis b h := by cases h
  reconciliation i b b' h := by cases h

theorem validChain_genesis (o : OpenSsl) (g : Genesis) : ValidChain o [.genesis g] where
  genesis b h := ⟨g, (Option.some.inj h).symm⟩
  reconciliation i b b' h h' := by cases h'

theorem ValidChain.append {o : OpenSsl} {l : List Block} {b : Block} {r : Reconciliation}
    (h : ValidChain o l) (hlast : l.getLast? = some b) (hchain : r.chainId.toNat = l.length)
    (hshards : r.shardInfo = [{ hash := Block.importHash o b, blocks := 0 }]) :
    ValidChain o (l ++ [Block.reconciliation r]) where
  genesis b' hb' := by
    have hpos : 0 < l.length := List.length_pos_of_ne_nil fun hnil => by
      rw [hnil] at hlast
      cases hlast
    rw [List.getElem?_append_left hpos] at hb'
    exact h.genesis b' hb'
  reconciliation i b₁ b₂ h₁ h₂ := by
    by_cases hi : i + 1 < l.length
    · rw [List.getElem?_append_left hi] at h₂
      rw [List.getElem?_append_left (by omega)] at h₁
      exact h.reconciliation i b₁ b₂ h₁ h₂
    · -- the appended block and the last one before it
      have hlen := (List.getElem?_eq_some_iff.mp h₂).1
      rw [List.length_append, List.length_singleton] at hlen
      have hil : i + 1 = l.length := by omega
      rw [hil, List.getElem?_concat_length] at h₂
      rw [List.getElem?_append_left (by omega)] at h₁
      rw [List.getLast?_eq_getElem?, ← hil, Nat.add_sub_cancel, h₁] at hlast
      obtain rfl := Option.some.inj hlast
      exact ⟨r, (Option.some.inj h₂).symm, by rw [hchain, hil], hshards⟩

/-! ## The cached state of a chain -/

/-- `lastImports` after the blocks of `l`. -/
def importsOf (o : OpenSsl) (l : List Block) : ExtTreeMap UInt32 ShardInfo :=
  match l.getLast? with
  | none => ∅
  | some b => (∅ : ExtTreeMap UInt32 ShardInfo).insertIfNew 0 { hash := Block.importHash o b }

theorem importsOf_concat (o : OpenSsl) (l : List Block) (b : Block) :
    importsOf o (l ++ [b]) =
      (∅ : ExtTreeMap UInt32 ShardInfo).insertIfNew 0 { hash := Block.importHash o b } := by
  unfold importsOf
  rw [List.getLast?_concat]

theorem importsOf_some {o : OpenSsl} {l : List Block} {b : Block} (h : l.getLast? = some b) :
    importsOf o l =
      (∅ : ExtTreeMap UInt32 ShardInfo).insertIfNew 0 { hash := Block.importHash o b } := by
  unfold importsOf
  rw [h]

theorem getElem?_single (info : ShardInfo) :
    ((∅ : ExtTreeMap UInt32 ShardInfo).insertIfNew 0 info)[(0 : UInt32)]? = some info := by
  rw [ExtTreeMap.getElem?_insertIfNew]
  simp

theorem size_single (info : ShardInfo) :
    ((∅ : ExtTreeMap UInt32 ShardInfo).insertIfNew 0 info).size = 1 := by
  simp [ExtTreeMap.size_insertIfNew]

/-- The cached state is the one the chain `l` determines. -/
structure Tracks (o : OpenSsl) (w : System) (l : List Block) : Prop where
  valid : ValidChain o l
  currentRecon : w.integrator.currentRecon.toNat = l.length
  bound : l.length ≤ 2 ^ 31
  lastImports : w.integrator.lastImports = importsOf o l
  started : w.integrator.initialized = true ∨ (w.db.importedBlocks = [] ∧ l = [])

theorem tracks_fresh (o : OpenSsl) (tables : Database) :
    Tracks o (System.fresh tables) [] :=
  ⟨validChain_nil o, rfl, by decide, rfl, .inr ⟨rfl, rfl⟩⟩

theorem Tracks.ready {o : OpenSsl} {w : System} {l : List Block} (h : Tracks o w l) :
    w.integrator.Ready w.db := by
  rcases h.started with hi | ⟨hdb, _⟩
  · exact .inl hi
  · exact .inr hdb

/-- A quiet call keeps the chain. -/
theorem Tracks.quiet {o : OpenSsl} {w : System} {l : List Block} {data : Block} {r : Ret}
    (h : Tracks o w l) (hq : Quiet w.integrator w.db data r) : Tracks o r.system l where
  valid := h.valid
  currentRecon := by
    rw [← h.currentRecon]
    exact congrArg UInt32.toNat hq.currentRecon
  bound := h.bound
  lastImports := hq.lastImports.trans h.lastImports
  started := by
    rcases h.started with hi | ⟨hdb, hl⟩
    · exact .inl (hq.initialized hi)
    · exact .inr ⟨(congrArg Database.importedBlocks hq.db).trans hdb, hl⟩

/-- What a one-shard cache accepts of a reconciliation block. -/
theorem shardInfo_of_accepts {o : OpenSsl} {s : DbIntegrator} {b : Block} {r : Reconciliation}
    {recon shard block : UInt32}
    (himports : s.lastImports =
      (∅ : ExtTreeMap UInt32 ShardInfo).insertIfNew 0 { hash := Block.importHash o b })
    (h : s.Accepts (.reconciliation r) recon shard block) :
    r.shardInfo = [{ hash := Block.importHash o b, blocks := 0 }] := by
  obtain ⟨_, _, _, hsize, hshards⟩ := h
  rw [himports] at hsize hshards
  obtain ⟨info, hinfo⟩ := List.length_eq_one_iff.mp (hsize.trans (size_single _))
  have hentry := hshards 0 info (by rw [hinfo]; rfl)
  have hkey : UInt32.ofNat 0 = 0 := rfl
  rw [hkey, getElem?_single, Option.some.injEq, ShardInfo.mk.injEq] at hentry
  obtain ⟨hblocks, hhash⟩ := hentry
  rw [hinfo, hblocks, hhash]

/-- An accepted and written block extends the chain. -/
theorem Tracks.advance {o : OpenSsl} {w : System} {l : List Block} {data : Block}
    {recon shard block : UInt32} {env : Env} {db : Database} (h : Tracks o w l)
    (hacc : w.integrator.Accepts data recon shard block)
    (hw : ∃ db', Writes o env w.integrator w.db data db') :
    Tracks o ⟨{ DbIntegrator.advance o w.integrator data with initialized := true }, db⟩
      (l ++ [data]) := by
  have hlen := h.currentRecon
  cases data with
  | none => exact hacc.2.elim
  | node n => exact hacc.2.elim
  | genesis g =>
    obtain ⟨_, h0, _, _⟩ := hacc
    obtain rfl : l = [] := List.length_eq_zero_iff.mp (by rw [← hlen, h0]; rfl)
    have himports : w.integrator.lastImports = ∅ := h.lastImports
    refine ⟨validChain_genesis o g, rfl, Nat.one_le_two_pow, ?_, .inl rfl⟩
    simp only [DbIntegrator.advance, himports]
    rfl
  | reconciliation r =>
    have hrec : w.integrator.currentRecon ≠ 0 := hacc.2.1
    have hchain : r.chainId = w.integrator.currentRecon := hacc.2.2.1
    obtain ⟨db', hw⟩ := hw
    have hlt := currentRecon_lt_of_writes hw
    have hne : l ≠ [] := by
      rintro rfl
      exact hrec (UInt32.toNat_inj.mp hlen)
    have hlast := List.getLast?_eq_some_getLast hne
    have himports := h.lastImports
    rw [importsOf_some hlast] at himports
    have hshards := shardInfo_of_accepts himports hacc
    refine ⟨h.valid.append hlast (by rw [hchain, hlen]) hshards, ?_, ?_, ?_, .inl rfl⟩
    · simp only [DbIntegrator.advance, UInt32.toNat_add, List.length_append, List.length_singleton,
        ← hlen]
      have : (1 : UInt32).toNat = 1 := rfl
      omega
    · rw [List.length_append, List.length_singleton, ← hlen]
      omega
    · rw [importsOf_concat]
      rfl

/-! ## Steps and runs -/

/-- `currentRecon` does not decrease, and moves only with a genesis block from 0 to 1 or with a
reconciliation block by one, answered `Success`. -/
structure StepSafe (e : Trace.Entry System Call Ret) : Prop where
  monotone : e.before.integrator.currentRecon ≤ e.ret.state.currentRecon
  changes : e.ret.state.currentRecon ≠ e.before.integrator.currentRecon →
    e.ret.result = .success ∧
      ((∃ g, e.input.data = .genesis g ∧ e.before.integrator.currentRecon = 0 ∧
          e.ret.state.currentRecon = 1) ∨
        ∃ r, e.input.data = .reconciliation r ∧
          e.ret.state.currentRecon.toNat = e.before.integrator.currentRecon.toNat + 1)

/-- **One call**: the chain stays as it is, or grows by the block answered `Success`. -/
theorem tracks_step {o : OpenSsl} {w : System} {l : List Block} (h : Tracks o w l) (c : Call) :
    let e := Trace.entry (System.call o) w c
    Tracks o e.ret.system (l ++ (accepted e).toList) ∧ StepSafe e := by
  intro e
  rcases System.call_cases o h.ready c with ⟨db', ht⟩ | hq
  · have hsys : e.ret.system =
        ⟨{ DbIntegrator.advance o w.integrator c.data with initialized := true }, e.ret.db⟩ :=
      congrArg (System.mk · e.ret.db) ht.state
    have htracks : Tracks o e.ret.system (l ++ [c.data]) := by
      rw [hsys]
      exact h.advance ht.accepts ⟨db', ht.writes⟩
    have hgrow : e.ret.state.currentRecon.toNat = w.integrator.currentRecon.toNat + 1 := by
      have h1 := htracks.currentRecon
      rw [List.length_append, List.length_singleton, ← h.currentRecon] at h1
      exact h1
    refine ⟨by rw [accepted_of_taken ht]; exact htracks, ?_, fun _ => ⟨ht.result, ?_⟩⟩
    · exact UInt32.le_iff_toNat_le.mpr (by rw [hgrow]; exact Nat.le_succ _)
    · have hacc := ht.accepts
      have hstate := ht.state
      cases hdata : c.data with
      | none => rw [hdata] at hacc; exact hacc.2.elim
      | node n => rw [hdata] at hacc; exact hacc.2.elim
      | genesis g =>
        rw [hdata] at hacc hstate
        exact .inl ⟨g, hdata, hacc.2.1, congrArg DbIntegrator.currentRecon hstate⟩
      | reconciliation r => exact .inr ⟨r, hdata, hgrow⟩
  · refine ⟨by rw [accepted_of_quiet hq, Option.toList_none, List.append_nil]; exact h.quiet hq,
      ?_, ?_⟩
    · exact UInt32.le_of_eq hq.currentRecon.symm
    · intro hne
      exact absurd hq.currentRecon hne

/-- A run keeps the cached state that of the chain of blocks it accepted. -/
theorem tracks_run (o : OpenSsl) (tables : Database) (calls : List Call) :
    Tracks o (System.run o (System.fresh tables) calls)
        ((System.trace o (System.fresh tables) calls).filterMap accepted) ∧
      ∀ e ∈ System.trace o (System.fresh tables) calls, StepSafe e := by
  have h := Trace.invariant (System.call o) Ret.system (Tracks o) accepted (fun _ => True) StepSafe
    (fun w l c hw _ => tracks_step hw c) calls (System.fresh tables) [] (tracks_fresh o tables)
    fun _ _ => trivial
  rw [List.nil_append] at h
  exact h

/-- **Chain safety.** In every run of calls from a fresh integrator on an empty table, with any
blocks, indexes and failures, `currentRecon` only counts up, with the blocks it should; and the
genesis and reconciliation blocks answered `Success` form a valid chain, in order. -/
theorem chain_safety (o : OpenSsl) (tables : Database) (calls : List Call) :
    (∀ e ∈ System.trace o (System.fresh tables) calls, StepSafe e) ∧
      ValidChain o ((System.trace o (System.fresh tables) calls).filterMap accepted) :=
  ⟨(tracks_run o tables calls).2, (tracks_run o tables calls).1.valid⟩

/-! ## A genesis block first

For fixed inputs further on. -/

/-- The call for a genesis block at its index. -/
def Call.genesis (env : Env) (g : Genesis) : Call where
  env := env
  data := .genesis g
  recon := 0
  shard := 0
  block := 0

/-- On empty tables it gets as far as its commit if nothing before that fails. -/
theorem taken_genesis (o : OpenSsl) {env : Env} {g : Genesis} (hfits : GenesisFits g {})
    (hsession : env.newSession = none) (hselect : env.select = none)
    (hquery : ∀ n, env.query n = none) :
    Taken o (System.fresh {}) (Call.genesis env g) (genesisRows o g {}) :=
  taken_of_writes (.inr rfl) ⟨Details.isOk_default, hsession, .inr hselect⟩ ⟨rfl, rfl, rfl, rfl⟩
    ⟨fun n _ => hquery (0 + n), execAll_genesis_iff.mpr ⟨hfits, rfl⟩⟩

end Fluffycoin
