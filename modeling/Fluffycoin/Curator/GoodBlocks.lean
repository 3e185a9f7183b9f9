import Fluffycoin.Curator.Host

/-!
# Good blocks among bad ones

The blocks of a chain are added at their own indexes, in any order, mixed with blocks that no state
along the chain accepts. Is every block of the chain, once added, integrated or still pending?

The loop does not lose one: a round keeps every good block that is there, and brings none that is
not (`OnChain.keptAt_round`). But `addBlock` files a block with `emplace`
(`BlockIntegrator.cpp:44`), which leaves a slot that is taken as it is. A good block that comes to a
slot held by a bad one is dropped, and nobody is told.

* `FindsRoom q n b`: block `b` is integrated already, or no other block is in its slot.
* `keptAt_addBlock_iff`: it is kept by the call that brings it exactly when it finds room.
* **`good_blocks_kept_iff`**: so nothing good is lost in a run exactly when every good block finds
  room when it comes. `clashCalls_lost` is a run of two calls in which one does not.
-/

namespace Fluffycoin

open Fluffycoin.Ossl DbIntegrator
open PendingRecons (lookup head)

variable {o : OpenSsl} {tables : Database} {chain : List Block} {envs : Nat → Env}

/-- The call brings block `n` of the chain, `b`, to its own index. -/
structure Brings (o : OpenSsl) (chain : List Block) (c : BlockIntegrator.Submission) (n : Nat)
    (b : Block) : Prop where
  chain : chain[n]? = some b
  decodes : decodeBlock o c.binData = some b
  index : c.index = chainIndex n

/-- Block `b` of number `n` is integrated, or pending at its own index. -/
def KeptAt (q : BlockIntegrator Host) (n : Nat) (b : Block) : Prop :=
  (chainIndex n, b) ∈ q.dbIntegrator.integrated ∨
    lookup q.pendingRecons (chainIndex n) = some b

/-- Block `b` of number `n` is integrated, or no other block is pending at its index. -/
def FindsRoom (q : BlockIntegrator Host) (n : Nat) (b : Block) : Prop :=
  (chainIndex n, b) ∈ q.dbIntegrator.integrated ∨
    ∀ d, lookup q.pendingRecons (chainIndex n) = some d → d = b

/-- The host is along the chain, and what is pending is of the chain or accepted nowhere on it. -/
structure OnChain (o : OpenSsl) (tables : Database) (chain : List Block) (k : Nat)
    (q : BlockIntegrator Host) : Prop where
  sound : q.Sound
  follows : Follows o tables chain q.dbIntegrator k
  fair : ∀ i d, lookup q.pendingRecons i = some d → Fair o tables chain i d

theorem onChain_start (o : OpenSsl) (tables : Database) (chain : List Block) :
    OnChain o tables chain 0 (BlockIntegrator.start tables) where
  sound := BlockIntegrator.sound_mk _
  follows := follows_start o tables chain
  fair i d h := by cases h

section Rounds

variable {k n : Nat} {q : BlockIntegrator Host} {b : Block}

theorem OnChain.keptAt_iff (hl : Loads o tables chain) (h : OnChain o tables chain k q)
    (hb : chain[n]? = some b) :
    KeptAt q n b ↔ n < k ∨ lookup q.pendingRecons (chainIndex n) = some b := by
  rw [KeptAt, h.follows.integrated, mem_indexed_take_iff hl hb]

/-- The round stays on the chain, one further if it goes on. -/
theorem OnChain.round (hl : Loads o tables chain) (hok : ∀ n, (envs n).toLink.Ok)
    (h : OnChain o tables chain k q) {i : Index} {d : Block}
    (hhead : head q.pendingRecons = some (i, d)) :
    ((q.dbIntegrator.ask o envs d i).1 = .success ∧ chain[k]? = some d ∧ i = chainIndex k ∧
        OnChain o tables chain (k + 1) (q.tryNext (Host.ask o envs)).2) ∨
      ((q.dbIntegrator.ask o envs d i).1 ≠ .success ∧
        OnChain o tables chain k (q.tryNext (Host.ask o envs)).2) := by
  have hsound : (q.tryNext (Host.ask o envs)).2.Sound := h.sound.tryNext
  have hfair : ∀ j d', lookup (q.tryNext (Host.ask o envs)).2.pendingRecons j = some d' →
      Fair o tables chain j d' := by
    intro j d' hj
    rw [BlockIntegrator.tryNext_of_head h.sound hhead] at hj
    exact h.fair j d' (BlockIntegrator.lookup_of_settle hj)
  have hask := h.follows.ask hl hok (h.fair i d (PendingRecons.lookup_of_head hhead).1)
  rcases hask with ⟨hres, hd, hi, hfollows⟩ | ⟨hres, hfollows⟩
  · refine .inl ⟨hres, hd, hi, hsound, ?_, hfair⟩
    rw [BlockIntegrator.tryNext_of_head h.sound hhead]
    exact hfollows
  · refine .inr ⟨hres, hsound, ?_, hfair⟩
    rw [BlockIntegrator.tryNext_of_head h.sound hhead]
    exact hfollows

/-- **A round neither loses a block of the chain nor brings one.** -/
theorem OnChain.keptAt_round (hl : Loads o tables chain) (hok : ∀ n, (envs n).toLink.Ok)
    (h : OnChain o tables chain k q) {i : Index} {d : Block}
    (hhead : head q.pendingRecons = some (i, d)) (hb : chain[n]? = some b) :
    KeptAt (q.tryNext (Host.ask o envs)).2 n b ↔ KeptAt q n b := by
  have hlen := hl.length_le
  have hn := (List.getElem?_eq_some_iff.mp hb).1
  have hkle := h.follows.le
  obtain ⟨hlookup, _⟩ := PendingRecons.lookup_of_head hhead
  -- only the slot of the head can change
  have hother : chainIndex n ≠ i →
      lookup (q.tryNext (Host.ask o envs)).2.pendingRecons (chainIndex n) =
        lookup q.pendingRecons (chainIndex n) := by
    intro hne
    rw [BlockIntegrator.tryNext_of_head h.sound hhead, BlockIntegrator.lookup_settle,
      if_neg fun hc => hne hc.2]
  rcases h.round hl hok hhead with ⟨hres, hd, hi, hnext⟩ | ⟨hres, hstay⟩
  · rw [hnext.keptAt_iff hl hb, h.keptAt_iff hl hb]
    by_cases hnk : n = k
    · -- the block that was taken
      subst hnk
      rw [hb, Option.some.injEq] at hd
      refine iff_of_true (.inl (Nat.lt_succ_self n)) (.inr ?_)
      rw [← hi, hd]
      exact hlookup
    · rw [hother fun he => hnk (chainIndex_inj (by omega) (by omega) (he.trans hi))]
      exact or_congr_left (by omega)
  · rw [hstay.keptAt_iff hl hb, h.keptAt_iff hl hb]
    by_cases hni : chainIndex n = i
    · by_cases hdb : d = b
      · -- a good block that is not taken is behind or ahead, and only dropped if behind
        have hask := h.follows.ask_chain hl hok hb
        subst hdb
        rw [← hni] at hres hlookup
        rw [BlockIntegrator.tryNext_of_head h.sound hhead, BlockIntegrator.lookup_settle, ← hni,
          hask, hlookup]
        rw [hask] at hres
        split at hres
        · exact absurd rfl hres
        · rename_i hnk
          by_cases hkn : k < n
          · rw [if_neg hnk, if_pos hkn]
            rfl
          · exact iff_of_true (.inl (by omega)) (.inl (by omega))
      · -- a bad block in the slot: the good one is not there, before or after
        have hbefore : lookup q.pendingRecons (chainIndex n) ≠ some b := by
          rw [hni, hlookup]
          exact fun he => hdb (Option.some.inj he)
        refine or_congr_right (iff_of_false (fun hafter => hbefore ?_) hbefore)
        rw [BlockIntegrator.tryNext_of_head h.sound hhead] at hafter
        exact BlockIntegrator.lookup_of_settle hafter
    · rw [hother hni]

theorem OnChain.file (h : OnChain o tables chain k q) {i : Index} {d : Block}
    (hd : Block.copyAssign d = d) (hfair : Fair o tables chain i d) :
    OnChain o tables chain k (q.file i d) := by
  refine ⟨h.sound.file hd, h.follows, fun j d' hj => ?_⟩
  rcases BlockIntegrator.lookup_of_file hj with hj | ⟨rfl, rfl, _⟩
  · exact h.fair j d' hj
  · exact hfair

/-- Filing a block keeps the ones that are there. -/
theorem KeptAt.file (h : KeptAt q n b) (i : Index) (d : Block) : KeptAt (q.file i d) n b := by
  rcases h with h | h
  · exact .inl h
  · refine .inr ?_
    rw [BlockIntegrator.lookup_file]
    split
    · rename_i hi
      rw [← hi, h, Option.getD_some]
    · exact h

theorem keptAt_file_iff : KeptAt (q.file (chainIndex n) b) n b ↔ FindsRoom q n b := by
  refine or_congr_right ?_
  rw [BlockIntegrator.lookup_file, if_pos rfl]
  cases lookup q.pendingRecons (chainIndex n) with
  | none => simp
  | some d => simp

/-- The loop stays on the chain, and with the blocks of the chain it has. -/
theorem OnChain.tryIntegrate (hl : Loads o tables chain) (hok : ∀ n, (envs n).toLink.Ok)
    (h : OnChain o tables chain k q) :
    (∃ k', OnChain o tables chain k' (q.tryIntegrate (Host.ask o envs))) ∧
      ∀ n b, chain[n]? = some b →
        (KeptAt (q.tryIntegrate (Host.ask o envs)) n b ↔ KeptAt q n b) := by
  obtain ⟨_, ⟨hchain, hkept⟩, _⟩ := h.sound.tryIntegrate (Host.ask o envs)
    (fun t => (∃ k', OnChain o tables chain k' t) ∧
      ∀ n b, chain[n]? = some b → (KeptAt t n b ↔ KeptAt q n b))
    (fun t i d _ ⟨⟨k', ht⟩, hkept⟩ hhead => by
      refine ⟨?_, fun n b hb => (ht.keptAt_round hl hok hhead hb).trans (hkept n b hb)⟩
      rcases ht.round hl hok hhead with ⟨_, _, _, hnext⟩ | ⟨_, hstay⟩
      · exact ⟨k' + 1, hnext⟩
      · exact ⟨k', hstay⟩)
    ⟨⟨k, h⟩, fun _ _ _ => Iff.rfl⟩
  exact ⟨hchain, hkept⟩

end Rounds

/-! ## Calls of `addBlock` -/

/-- The call brings a block of the chain to its index, or one that is accepted nowhere along it. -/
def FairCall (o : OpenSsl) (tables : Database) (chain : List Block)
    (c : BlockIntegrator.Submission) : Prop :=
  ∃ d, decodeBlock o c.binData = some d ∧ Fair o tables chain c.index d

section Calls

variable {k n : Nat} {q : BlockIntegrator Host} {b : Block} {c : BlockIntegrator.Submission}

theorem OnChain.addBlock (hl : Loads o tables chain) (hok : ∀ n, (envs n).toLink.Ok)
    (h : OnChain o tables chain k q) (hc : FairCall o tables chain c) :
    ∃ k', OnChain o tables chain k' (q.addBlock (Host.ask o envs) o c) := by
  obtain ⟨d, hd, hfair⟩ := hc
  rw [BlockIntegrator.addBlock_of_some h.sound hd]
  exact ((h.file (Block.copyAssign_decodeBlock hd) hfair).tryIntegrate hl hok).1

theorem KeptAt.addBlock (hl : Loads o tables chain) (hok : ∀ n, (envs n).toLink.Ok)
    (h : OnChain o tables chain k q) (hc : FairCall o tables chain c) (hb : chain[n]? = some b)
    (hkept : KeptAt q n b) : KeptAt (q.addBlock (Host.ask o envs) o c) n b := by
  obtain ⟨d, hd, hfair⟩ := hc
  rw [BlockIntegrator.addBlock_of_some h.sound hd]
  exact (((h.file (Block.copyAssign_decodeBlock hd) hfair).tryIntegrate hl hok).2 n b hb).mpr
    (hkept.file c.index d)

/-- **A call keeps the good block it brings exactly when that finds room.** -/
theorem keptAt_addBlock_iff (hl : Loads o tables chain) (hok : ∀ n, (envs n).toLink.Ok)
    (h : OnChain o tables chain k q) (hc : Brings o chain c n b) :
    KeptAt (q.addBlock (Host.ask o envs) o c) n b ↔ FindsRoom q n b := by
  have hfile := h.file (Block.copyAssign_decodeBlock hc.decodes)
    (.inl ⟨n, hc.chain, hc.index⟩ : Fair o tables chain c.index b)
  rw [BlockIntegrator.addBlock_of_some h.sound hc.decodes,
    (hfile.tryIntegrate hl hok).2 n b hc.chain, hc.index]
  exact keptAt_file_iff

end Calls

/-! ## Runs -/

theorem onChain_run (hl : Loads o tables chain) (hok : ∀ n, (envs n).toLink.Ok)
    {calls : List BlockIntegrator.Submission} (hfair : ∀ c ∈ calls, FairCall o tables chain c)
    {before : List BlockIntegrator.Submission} (hbefore : before <+: calls) :
    ∃ k, OnChain o tables chain k (BlockIntegrator.run o envs tables before) := by
  refine Trace.invariant_prefix _ id (fun q _ => ∃ k, OnChain o tables chain k q)
    (fun _ c => FairCall o tables chain c) (fun q _ c ⟨k, hq⟩ hc => hq.addBlock hl hok hc)
    ⟨0, onChain_start o tables chain⟩ (fun l c hlc => hfair c ?_) hbefore
  exact hlc.subset (List.mem_append_right l (List.mem_singleton.mpr rfl))

/-- **When no good block is lost.** In a run of calls that bring blocks of a chain to their indexes
and blocks that are accepted nowhere along it, with nothing failing: after every call every block of
the chain brought so far is integrated or pending, exactly when each of them found room when it
came. -/
theorem good_blocks_kept_iff (o : OpenSsl) (tables : Database) (chain : List Block)
    (hl : Loads o tables chain) (envs : Nat → Env) (hok : ∀ n, (envs n).toLink.Ok)
    (calls : List BlockIntegrator.Submission) (hfair : ∀ c ∈ calls, FairCall o tables chain c) :
    (∀ before, before <+: calls → ∀ c ∈ before, ∀ n b, Brings o chain c n b →
        KeptAt (BlockIntegrator.run o envs tables before) n b) ↔
      ∀ before c, before ++ [c] <+: calls → ∀ n b, Brings o chain c n b →
        FindsRoom (BlockIntegrator.run o envs tables before) n b := by
  have hself : ∀ (before : List BlockIntegrator.Submission) (c), c ∈ before ++ [c] :=
    fun before c => List.mem_append_right before (List.mem_singleton.mpr rfl)
  constructor
  · intro hkept before c hprefix n b hc
    obtain ⟨k, hq⟩ := onChain_run hl hok hfair ((List.prefix_append before [c]).trans hprefix)
    have hafter := hkept _ hprefix c (hself before c) n b hc
    rw [BlockIntegrator.run, Trace.final_append] at hafter
    exact (keptAt_addBlock_iff hl hok hq hc).mp hafter
  · intro hroom before hbefore
    refine (Trace.invariant_prefix _ id
      (fun q l => (∃ k, OnChain o tables chain k q) ∧
        ∀ c ∈ l, ∀ n b, Brings o chain c n b → KeptAt q n b)
      (fun q c => FairCall o tables chain c ∧ ∀ n b, Brings o chain c n b → FindsRoom q n b)
      (fun q l c ⟨⟨k, hq⟩, hkept⟩ ⟨hc, hfinds⟩ => ⟨hq.addBlock hl hok hc, fun c' hc' n b hb => ?_⟩)
      ⟨⟨0, onChain_start o tables chain⟩, fun c hc => by cases hc⟩
      (fun l c hlc => ⟨hfair c (hlc.subset (hself l c)), hroom l c hlc⟩) hbefore).2
    rcases List.mem_append.mp hc' with hc' | hc'
    · exact KeptAt.addBlock hl hok hq hc hb.chain (hkept c' hc' n b hb)
    · obtain rfl := List.mem_singleton.mp hc'
      exact (keptAt_addBlock_iff hl hok hq hb).mpr (hfinds n b hb)

/-! ## A good block that is lost -/

/-- A genesis block is accepted at number 0 only. -/
theorem fair_genesis (hl : Loads o tables chain) (g : Genesis) {i : Index} (hi : i.recon ≠ 0) :
    Fair o tables chain i (.genesis g) := by
  refine .inr fun k hk hsuccess => hi ?_
  obtain ⟨⟨hrecon, h0, _⟩, _⟩ := System.takes_of_success (hl.ready_after hk) rfl hsuccess
  rw [hrecon, h0]

/-- A genesis block that waits under a number of the chain keeps out the block of that number. -/
theorem not_keptAt_of_clash (hl : Loads o tables chain) (hok : ∀ n, (envs n).toLink.Ok)
    {g : Genesis} {b : Block} {n : Nat} {f : Bytes} {c : BlockIntegrator.Submission} (hn : 0 < n)
    (hf : decodeBlock o f = some (.genesis g)) (hc : Brings o chain c n b)
    (hne : b ≠ .genesis g) :
    ¬ KeptAt (BlockIntegrator.run o envs tables [⟨f, chainIndex n⟩, c]) n b := by
  have hlen := hl.length_le
  have hnlt := (List.getElem?_eq_some_iff.mp hc.chain).1
  have hpos : 0 < (chainIndex n).recon := UInt32.lt_iff_toNat_lt.mpr (by
    rw [toNat_chainIndex (by omega)]
    exact hn)
  have hfair : FairCall o tables chain ⟨f, chainIndex n⟩ :=
    ⟨_, hf, fair_genesis hl g (UInt32.ne_of_lt hpos).symm⟩
  obtain ⟨k, hq⟩ := (onChain_start o tables chain).addBlock hl hok hfair
  obtain ⟨_, hsystem, hpending⟩ :=
    BlockIntegrator.addBlock_start (c := ⟨f, chainIndex n⟩) hok tables hf hpos
  intro hkept
  rcases (keptAt_addBlock_iff hl hok hq hc).mp hkept with hdone | hroom
  · -- nothing is integrated yet
    rw [hq.follows.integrated, mem_indexed_take_iff hl hc.chain] at hdone
    have hrecon := hq.follows.currentRecon hl
    rw [hsystem] at hrecon
    have hzero : (0 : UInt32).toNat = k := hrecon
    rw [← hzero] at hdone
    exact Nat.not_lt_zero n hdone
  · -- and the slot holds the genesis block
    rw [hpending, BlockIntegrator.lookup_file, if_pos rfl] at hroom
    exact hne (hroom _ rfl).symm

/-- The genesis block under the number of the reconciliation block, then that one. -/
def clashCalls : List BlockIntegrator.Submission :=
  [⟨twoFiles 0, chainIndex 1⟩, ⟨twoFiles 1, chainIndex 1⟩]

theorem brings_twoFiles_one :
    Brings shortDer (twoBlocks shortDer) ⟨twoFiles 1, chainIndex 1⟩ 1
      (.reconciliation (successor shortDer oneCoin)) :=
  ⟨rfl, decodeBlock_twoFiles 1 _ rfl, rfl⟩

theorem fairCall_clashCalls :
    ∀ c ∈ clashCalls, FairCall shortDer {} (twoBlocks shortDer) c := by
  intro c hc
  rcases List.mem_cons.mp hc with rfl | hc
  · exact ⟨_, decodeBlock_twoFiles 0 _ rfl,
      fair_genesis (loads_twoBlocks shortDer) oneCoin (by decide)⟩
  · obtain rfl := List.mem_singleton.mp hc
    exact ⟨_, decodeBlock_twoFiles 1 _ rfl, .inl ⟨1, rfl, rfl⟩⟩

theorem good_blocks_kept_iff_clashCalls :
    (∀ before, before <+: clashCalls → ∀ c ∈ before, ∀ n b,
        Brings shortDer (twoBlocks shortDer) c n b →
        KeptAt (BlockIntegrator.run shortDer (fun _ => {}) {} before) n b) ↔
      ∀ before c, before ++ [c] <+: clashCalls → ∀ n b,
        Brings shortDer (twoBlocks shortDer) c n b →
        FindsRoom (BlockIntegrator.run shortDer (fun _ => {}) {} before) n b :=
  good_blocks_kept_iff shortDer {} (twoBlocks shortDer) (loads_twoBlocks shortDer) (fun _ => {})
    (fun _ => Link.ok_default) clashCalls fairCall_clashCalls

/-- The reconciliation block of the second call is neither integrated nor pending after it. -/
theorem clashCalls_lost :
    (∀ c ∈ clashCalls, FairCall shortDer {} (twoBlocks shortDer) c) ∧
      Brings shortDer (twoBlocks shortDer) ⟨twoFiles 1, chainIndex 1⟩ 1
        (.reconciliation (successor shortDer oneCoin)) ∧
      ¬ KeptAt (BlockIntegrator.run shortDer (fun _ => {}) {} clashCalls) 1
        (.reconciliation (successor shortDer oneCoin)) :=
  ⟨fairCall_clashCalls, brings_twoFiles_one,
    not_keptAt_of_clash (loads_twoBlocks shortDer) (fun _ => Link.ok_default) Nat.one_pos
      (decodeBlock_twoFiles 0 _ rfl) brings_twoFiles_one (fun h => by cases h)⟩

end Fluffycoin
