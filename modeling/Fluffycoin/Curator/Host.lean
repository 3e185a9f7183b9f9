import Fluffycoin.Block.RoundTrip
import Fluffycoin.Curator.Pending
import Fluffycoin.Curator.Serve

/-!
# The `BlockIntegrator` over its database

The loop of `BlockIntegrator` on top of `DbIntegrator::integrate` and the tables, and what it does
with the blocks of a chain.

* `Host`: the `DbIntegrator`, its database and, for the record, what it answered so far. The `n`-th
  call of a run takes place in the environment `envs n`.
* `Loads o tables chain`: each block of `chain` is accepted at its own index after the ones before.
  `System.after` are the states along the chain.
* `Follows h k`: the host is where the first `k` blocks of the chain lead, and those are what it has
  answered `Success` for, in order. A call keeps it there or, with the block of number `k`, takes it
  one further (`Follows.ask`); it is enough that no other block is accepted along the chain
  (`Fair`).
-/

namespace Fluffycoin

open Std (ExtTreeMap)
open Fluffycoin.Ossl DbIntegrator

/-- A block that `integrate` was called with, where, and what it answered. -/
structure Answer where
  data : Block
  index : Index
  result : Result

/-- What the `BlockIntegrator` asks: the `DbIntegrator` with its database. The answers so far are
kept for the statements about runs. -/
structure Host where
  system : System
  answers : List Answer := []

namespace Host

/-- A call of `integrate` with fresh details (`BlockIntegrator.cpp:140-146`). -/
def ask (o : OpenSsl) (envs : Nat → Env) (h : Host) (data : Block) (i : Index) : Result × Host :=
  let r := h.system.call o (Call.on (envs h.answers.length) data i)
  (r.result, { system := r.system
               answers := h.answers ++ [{ data, index := i, result := r.result }] })

/-- The blocks answered `Success`, in order, with their indexes. -/
def integrated (h : Host) : List (Index × Block) :=
  h.answers.filterMap fun a => if a.result = .success then some (a.index, a.data) else none

variable {o : OpenSsl} {envs : Nat → Env} {h : Host} {data : Block} {i : Index}

/-- When nothing fails, the answer is that of `serve`. -/
theorem ask_eq_serve (hok : ∀ n, (envs n).toLink.Ok) (hready : h.system.Ready) :
    h.ask o envs data i = ((h.system.serve o data i).result,
      { system := (h.system.serve o data i).system
        answers := h.answers ++
          [{ data, index := i, result := (h.system.serve o data i).result }] }) := by
  obtain ⟨hres, hsys⟩ := Prod.mk.inj
    (System.outcome_call (o := o) hready hready rfl (hok h.answers.length) data i)
  unfold ask
  simp only [hres, hsys]

theorem integrated_concat (w : System) (answers : List Answer) (a : Answer) :
    integrated { system := w, answers := answers ++ [a] } =
      integrated { system := w, answers } ++
        if a.result = .success then [(a.index, a.data)] else [] := by
  unfold integrated
  rw [List.filterMap_append]
  split
  · rename_i h
    simp [h]
  · rename_i h
    simp [h]

end Host

namespace BlockIntegrator

/-- A `BlockIntegrator` on tables without imported blocks. -/
def start (tables : Database) : BlockIntegrator Host :=
  { dbIntegrator := { system := System.fresh tables } }

/-- The state after some calls of `addBlock`, one after the other. -/
abbrev run (o : OpenSsl) (envs : Nat → Env) (tables : Database) (calls : List Submission) :
    BlockIntegrator Host :=
  Trace.final (addBlock (Host.ask o envs) o) id (start tables) calls

/-- One round in which nothing fails. -/
theorem tryNext_serve {o : OpenSsl} {envs : Nat → Env} (hok : ∀ n, (envs n).toLink.Ok)
    {q : BlockIntegrator Host} (hq : q.Sound) (hready : q.dbIntegrator.system.Ready) {i : Index}
    {d : Block} (hhead : PendingRecons.head q.pendingRecons = some (i, d)) :
    let r := q.dbIntegrator.system.serve o d i
    (q.tryNext (Host.ask o envs)).1 = isSuccess r.result ∧
      (q.tryNext (Host.ask o envs)).2.dbIntegrator.system = r.system ∧
      (q.tryNext (Host.ask o envs)).2.pendingRecons = settle q.pendingRecons i r.result := by
  rw [tryNext_of_head hq hhead, Host.ask_eq_serve hok hready]
  exact ⟨rfl, rfl, rfl⟩

/-- A call after which the head is ahead of the import state files its block and does no more. -/
theorem addBlock_of_waits {o : OpenSsl} {envs : Nat → Env} (hok : ∀ n, (envs n).toLink.Ok)
    {q : BlockIntegrator Host} (hq : q.Sound) (hready : q.dbIntegrator.system.Ready)
    {c : Submission} {d d' : Block} {j : Index} (hd : decodeBlock o c.binData = some d)
    (hhead : PendingRecons.head (q.file c.index d).pendingRecons = some (j, d'))
    (hgt : q.dbIntegrator.system.integrator.currentRecon < j.recon) :
    (q.addBlock (Host.ask o envs) o c).Sound ∧
      (q.addBlock (Host.ask o envs) o c).dbIntegrator.system = q.dbIntegrator.system.opened ∧
      (q.addBlock (Host.ask o envs) o c).pendingRecons = (q.file c.index d).pendingRecons := by
  have hsound : (q.file c.index d).Sound := hq.file (Block.copyAssign_decodeBlock hd)
  have hres : ((q.file c.index d).dbIntegrator.system.serve o d' j).result = .notReady :=
    System.serve_of_gt hready hgt
  have hne : ((q.file c.index d).dbIntegrator.system.serve o d' j).result ≠ .success := by
    rw [hres]
    decide
  obtain ⟨hgo, hsystem, hpending⟩ := tryNext_serve (o := o) hok hsound hready hhead
  rw [hres] at hgo hpending
  rw [addBlock_of_some hq hd, tryIntegrate_of_stop _ hgo, hsystem, hpending]
  exact ⟨hsound.tryNext, System.serve_system_of_ne_success hready hne, rfl⟩

/-- A first call with a block that is not numbered 0. -/
theorem addBlock_start {o : OpenSsl} {envs : Nat → Env} (hok : ∀ n, (envs n).toLink.Ok)
    (tables : Database) {c : Submission} {d : Block} (hd : decodeBlock o c.binData = some d)
    (h0 : 0 < c.index.recon) :
    ((start tables).addBlock (Host.ask o envs) o c).Sound ∧
      ((start tables).addBlock (Host.ask o envs) o c).dbIntegrator.system =
        (System.fresh tables).opened ∧
      ((start tables).addBlock (Host.ask o envs) o c).pendingRecons =
        ((start tables).file c.index d).pendingRecons := by
  have hsound : (start tables).Sound := sound_mk _
  have hhead := head_file_first hsound (i := c.index) d (PendingRecons.lookup_empty _)
    fun j d' hj => by cases hj
  exact addBlock_of_waits hok hsound (.inr rfl) hd hhead h0

end BlockIntegrator

/-! ## Along a chain -/

/-- Where the `n`-th block of a chain belongs. -/
def chainIndex (n : Nat) : Index := { recon := UInt32.ofNat n }

/-- The system after the first `k` blocks of the chain. -/
def System.after (o : OpenSsl) (tables : Database) (chain : List Block) : Nat → System
  | 0 => System.fresh tables
  | k + 1 =>
    match chain[k]? with
    | none => System.after o tables chain k
    | some b => ((System.after o tables chain k).serve o b (chainIndex k)).system

/-- A chain of genesis and reconciliation blocks, each accepted after the ones before it. -/
structure Loads (o : OpenSsl) (tables : Database) (chain : List Block) : Prop where
  types : ∀ b ∈ chain, isChain b = true
  success : ∀ (k : Nat) b, chain[k]? = some b →
    ((System.after o tables chain k).serve o b (chainIndex k)).result = .success

section Chain

variable {o : OpenSsl} {tables : Database} {chain : List Block}

theorem Loads.tracks (h : Loads o tables chain) {k : Nat} (hk : k ≤ chain.length) :
    Tracks o (System.after o tables chain k) (chain.take k) := by
  induction k with
  | zero => exact tracks_fresh o tables
  | succ k ih =>
    have hb : chain[k]? = some chain[k] := List.getElem?_eq_getElem hk
    have hstep := (tracks_step (ih (Nat.le_of_succ_le hk))
      (Call.on {} chain[k] (chainIndex k))).1
    have hacc : accepted (Trace.entry (System.call o) (System.after o tables chain k)
        (Call.on {} chain[k] (chainIndex k))) = some chain[k] :=
      if_pos ⟨h.success k _ hb, h.types _ (List.getElem_mem hk)⟩
    rw [hacc] at hstep
    rw [System.after, List.take_add_one, hb]
    exact hstep

theorem Loads.length_le (h : Loads o tables chain) : chain.length ≤ 2 ^ 31 := by
  have hbound := (h.tracks (Nat.le_refl _)).bound
  rwa [List.take_length] at hbound

theorem Loads.ready_after (h : Loads o tables chain) {k : Nat} (hk : k ≤ chain.length) :
    (System.after o tables chain k).Ready :=
  (h.tracks hk).ready

theorem toNat_chainIndex {n : Nat} (h : n < 2 ^ 32) : (chainIndex n).recon.toNat = n :=
  UInt32.toNat_ofNat_of_lt' h

theorem chainIndex_inj {n m : Nat} (hn : n < 2 ^ 32) (hm : m < 2 ^ 32)
    (h : chainIndex n = chainIndex m) : n = m := by
  rw [← toNat_chainIndex hn, ← toNat_chainIndex hm, h]

/-- The blocks of a chain, each with its index. -/
def indexed (chain : List Block) : List (Index × Block) :=
  chain.mapIdx fun n b => (chainIndex n, b)

theorem mem_indexed_take_iff (hl : Loads o tables chain) {k n : Nat} {b : Block}
    (hb : chain[n]? = some b) : (chainIndex n, b) ∈ indexed (chain.take k) ↔ n < k := by
  have hlen := hl.length_le
  have hn := (List.getElem?_eq_some_iff.mp hb).1
  unfold indexed
  rw [List.mem_mapIdx]
  constructor
  · rintro ⟨m, hm, he⟩
    rw [List.length_take] at hm
    have := chainIndex_inj (by omega) (by omega) (Prod.mk.inj he).1
    omega
  · intro hk
    refine ⟨n, by rw [List.length_take]; omega, ?_⟩
    rw [List.getElem_take, (List.getElem?_eq_some_iff.mp hb).2]

/-- The host is where the first `k` blocks lead. -/
structure Follows (o : OpenSsl) (tables : Database) (chain : List Block) (h : Host) (k : Nat) :
    Prop where
  le : k ≤ chain.length
  ready : h.system.Ready
  opened : h.system.opened = (System.after o tables chain k).opened
  integrated : h.integrated = indexed (chain.take k)

theorem follows_start (o : OpenSsl) (tables : Database) (chain : List Block) :
    Follows o tables chain (BlockIntegrator.start tables).dbIntegrator 0 where
  le := Nat.zero_le _
  ready := .inr rfl
  opened := rfl
  integrated := rfl

theorem indexed_take_succ {k : Nat} {b : Block} (h : chain[k]? = some b) :
    indexed (chain.take (k + 1)) = indexed (chain.take k) ++ [(chainIndex k, b)] := by
  have hk := (List.getElem?_eq_some_iff.mp h).1
  unfold indexed
  rw [List.take_add_one, h, Option.toList_some, List.mapIdx_append, List.length_take,
    Nat.min_eq_left (Nat.le_of_lt hk)]
  simp

namespace Follows

variable {envs : Nat → Env} {h : Host} {k n : Nat} {d : Block} {i : Index}

theorem currentRecon (hl : Loads o tables chain) (hf : Follows o tables chain h k) :
    h.system.integrator.currentRecon.toNat = k := by
  have heq : h.system.opened.integrator.currentRecon =
      (System.after o tables chain k).opened.integrator.currentRecon := by
    rw [hf.opened]
  have htracks := (hl.tracks hf.le).currentRecon
  rw [List.length_take, Nat.min_eq_left hf.le] at htracks
  exact (congrArg UInt32.toNat heq).trans htracks

/-- What the host answers is what is answered along the chain. -/
theorem outcome_serve (hl : Loads o tables chain) (hf : Follows o tables chain h k) (d : Block)
    (i : Index) : (h.system.serve o d i).outcome =
      ((System.after o tables chain k).serve o d i).outcome :=
  System.outcome_serve hf.ready (hl.ready_after hf.le) hf.opened d i

/-- The block that is next is taken, the ones behind are done and the ones ahead not ready. -/
theorem serve_chain (hl : Loads o tables chain) (hf : Follows o tables chain h k)
    (hd : chain[n]? = some d) :
    (h.system.serve o d (chainIndex n)).result =
      if n = k then .success else if k < n then .notReady else .alreadyDone := by
  have hn := (List.getElem?_eq_some_iff.mp hd).1
  have hlen := hl.length_le
  have hindex := toNat_chainIndex (show n < 2 ^ 32 by omega)
  have hrecon := hf.currentRecon hl
  split
  · rename_i hnk
    subst hnk
    exact (Prod.mk.inj (hf.outcome_serve hl d (chainIndex n))).1.trans (hl.success n d hd)
  · split
    · rename_i hlt
      exact System.serve_of_gt hf.ready
        (UInt32.lt_iff_toNat_lt.mpr (by rw [hrecon, hindex]; exact hlt))
    · rename_i hne hge
      exact System.serve_of_lt hf.ready
        (UInt32.lt_iff_toNat_lt.mpr (by rw [hrecon, hindex]; omega))

theorem ask_chain (hl : Loads o tables chain) (hok : ∀ n, (envs n).toLink.Ok)
    (hf : Follows o tables chain h k) (hd : chain[n]? = some d) :
    (h.ask o envs d (chainIndex n)).1 =
      if n = k then .success else if k < n then .notReady else .alreadyDone := by
  rw [Host.ask_eq_serve hok hf.ready]
  exact hf.serve_chain hl hd

end Follows

/-- A block of the chain at its index, or one that no state along the chain accepts. -/
def Fair (o : OpenSsl) (tables : Database) (chain : List Block) (i : Index) (d : Block) : Prop :=
  (∃ n, chain[n]? = some d ∧ i = chainIndex n) ∨
    ∀ k ≤ chain.length, ((System.after o tables chain k).serve o d i).result ≠ .success

/-- **One call** takes the next block of the chain, or leaves the host where it is. -/
theorem Follows.ask {envs : Nat → Env} {h : Host} {k : Nat} {d : Block} {i : Index}
    (hl : Loads o tables chain) (hok : ∀ n, (envs n).toLink.Ok)
    (hf : Follows o tables chain h k) (hfair : Fair o tables chain i d) :
    ((h.ask o envs d i).1 = .success ∧ chain[k]? = some d ∧ i = chainIndex k ∧
        Follows o tables chain (h.ask o envs d i).2 (k + 1)) ∨
      ((h.ask o envs d i).1 ≠ .success ∧ Follows o tables chain (h.ask o envs d i).2 k) := by
  rw [Host.ask_eq_serve hok hf.ready]
  have hready : (h.system.serve o d i).system.Ready := .inl (System.initialized_serve hf.ready)
  obtain ⟨hres, hsys⟩ := Prod.mk.inj (hf.outcome_serve hl d i)
  by_cases hsuccess : (h.system.serve o d i).result = .success
  · have hnext : chain[k]? = some d ∧ i = chainIndex k := by
      rcases hfair with ⟨n, hd, rfl⟩ | hbad
      · have hchain := hf.serve_chain hl hd
        rw [hsuccess] at hchain
        split at hchain
        · rename_i hnk
          exact ⟨hnk ▸ hd, hnk ▸ rfl⟩
        · split at hchain <;> cases hchain
      · exact absurd (hres ▸ hsuccess) (hbad k hf.le)
    obtain ⟨hd, rfl⟩ := hnext
    refine .inl ⟨hsuccess, hd, rfl, (List.getElem?_eq_some_iff.mp hd).1, hready, ?_, ?_⟩
    · rw [hsys, System.after, hd]
    · rw [Host.integrated_concat, if_pos hsuccess, indexed_take_succ hd]
      exact congrArg (· ++ _) hf.integrated
  · refine .inr ⟨hsuccess, hf.le, hready, ?_, ?_⟩
    · rw [System.serve_system_of_ne_success hf.ready hsuccess]
      exact hf.opened
    · rw [Host.integrated_concat, if_neg hsuccess, List.append_nil]
      exact hf.integrated

end Chain

/-! ## A chain of two blocks -/

/-- The import state after a genesis block on empty tables. -/
def afterGenesis (o : OpenSsl) (g : Genesis) : DbIntegrator where
  initialized := true
  currentRecon := 1
  lastImports := importsOf o [.genesis g]

theorem takes_genesis {g : Genesis} (hg : GenesisFits g {}) (o : OpenSsl) :
    (System.fresh {}).Takes o (.genesis g) (chainIndex 0) := by
  have ht : Taken o (System.fresh {}) (Call.genesis {} g) (genesisRows o g {}) :=
    taken_genesis o hg rfl rfl fun _ => rfl
  exact ⟨ht.accepts, _, ht.writes⟩

theorem serve_genesis {g : Genesis} (hg : GenesisFits g {}) (o : OpenSsl) :
    let r := (System.fresh {}).serve o (.genesis g) (chainIndex 0)
    r.result = .success ∧ r.state = afterGenesis o g :=
  ⟨(takes_genesis hg o).result_serve (.inr rfl), (takes_genesis hg o).state_serve (.inr rfl)⟩

/-- The reconciliation block is the first after the genesis block. -/
structure Succeeds (o : OpenSsl) (g : Genesis) (r : Reconciliation) : Prop where
  chainId : r.chainId = 1
  shardInfo : r.shardInfo = [{ hash := Block.importHash o (.genesis g), blocks := 0 }]

/-- Such a block is accepted after it, at any shard and block number. -/
theorem takes_of_succeeds {o : OpenSsl} {g : Genesis} {r : Reconciliation} {w : System} {i : Index}
    (hr : Succeeds o g r) (hstate : w.integrator = afterGenesis o g) (hi : i.recon = 1) :
    w.Takes o (.reconciliation r) i := by
  have himports : (afterGenesis o g).lastImports = _ :=
    importsOf_some (o := o) (l := [.genesis g]) rfl
  refine ⟨⟨by rw [hi, hstate]; rfl, ?_⟩, ?_⟩
  · simp only [hstate, himports, hr.shardInfo]
    refine ⟨show (1 : UInt32) ≠ 0 by decide, hr.chainId, (size_single _).symm, fun n info hn => ?_⟩
    cases n with
    | zero =>
      obtain rfl := Option.some.inj hn
      exact getElem?_single _
    | succ n => cases hn
  · refine ⟨_, fun _ _ => rfl, execAll_recon_iff.mpr ⟨?_, rfl⟩⟩
    rw [hstate]
    exact show (1 : UInt32).toNat < 2 ^ 31 by decide

theorem loads_of_succeeds {o : OpenSsl} {g : Genesis} {r : Reconciliation}
    (hg : GenesisFits g {}) (hr : Succeeds o g r) :
    Loads o {} [.genesis g, .reconciliation r] where
  types b hb := by
    rcases List.mem_cons.mp hb with rfl | hb
    · rfl
    · obtain rfl := List.mem_singleton.mp hb
      rfl
  success k b hb := by
    obtain ⟨hres, hstate⟩ := serve_genesis hg o
    match k, hb with
    | 0, hb =>
      obtain rfl := Option.some.inj hb
      exact hres
    | 1, hb =>
      obtain rfl := Option.some.inj hb
      have hready : (System.after o {} [.genesis g, .reconciliation r] 1).Ready :=
        .inl (congrArg DbIntegrator.initialized hstate)
      exact (takes_of_succeeds hr hstate rfl).result_serve hready

/-- A reconciliation block that follows a genesis block. -/
def successor (o : OpenSsl) (g : Genesis) : Reconciliation where
  chainId := 1
  shardInfo := [{ hash := Block.importHash o (.genesis g), blocks := 0 }]

theorem succeeds_successor (o : OpenSsl) (g : Genesis) : Succeeds o g (successor o g) := ⟨rfl, rfl⟩

/-- Two blocks, for fixed inputs further on. -/
def twoBlocks (o : OpenSsl) : List Block :=
  [.genesis oneCoin, .reconciliation (successor o oneCoin)]

theorem loads_twoBlocks (o : OpenSsl) : Loads o {} (twoBlocks o) :=
  loads_of_succeeds genesisFits_oneCoin (succeeds_successor o oneCoin)

/-- Both blocks survive in a file, given digests of less than `2^31 - 1` bytes. -/
theorem decodeBlock_twoBlocks {o : OpenSsl} (ho : o.RoundTrips)
    (hdigest : ∀ x, (Hash.ofData o x).Fits) {n : Nat} {b : Block} (h : (twoBlocks o)[n]? = some b) :
    decodeBlock o (Block.encode o b) = some b := by
  match n, h with
  | 0, h =>
    obtain rfl := Option.some.inj h
    refine decodeBlock_encode_genesis ho (Genesis.Fits.mono (fun _ => Small.kept) ?_)
    constructor <;> simp [oneCoin, Short, Small, Specie.Fits]
  | 1, h =>
    obtain rfl := Option.some.inj h
    have hfits : (successor o oneCoin).Fits := by
      refine ⟨fun i hi => ?_, by simp [successor, Short], by simp [successor, Short],
        fun v hv => by cases hv⟩
      obtain rfl := List.mem_singleton.mp hi
      exact hdigest _
    exact decodeBlock_encode_reconciliation_of_votes ho hfits (Nat.zero_le 1)

/-- DER with digests of 32 bytes. -/
def shortDer : OpenSsl := der (List.take 32) (List.take 32)

/-- The files of the two blocks. -/
def twoFiles (n : Nat) : Bytes := Block.encode shortDer ((twoBlocks shortDer)[n]?.getD .none)

theorem decodeBlock_twoFiles (n : Nat) (b : Block) (h : (twoBlocks shortDer)[n]? = some b) :
    decodeBlock shortDer (twoFiles n) = some b := by
  have hdigest : ∀ x, (Hash.ofData shortDer x).Fits := fun x =>
    have hx : Short (x.take 32) :=
      Nat.lt_of_le_of_lt (List.length_take_le 32 x) (show 32 < 2 ^ 31 - 1 by decide)
    ⟨hx, hx⟩
  rw [twoFiles, h]
  exact decodeBlock_twoBlocks (der_roundTrips _ _) hdigest h

end Fluffycoin
