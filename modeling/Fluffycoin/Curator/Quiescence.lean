import Fluffycoin.Curator.Host

/-!
# When the loop stops

`tryIntegrate` stops at the first block that is not answered `Success`, and a round only ever looks
at the head of the pending blocks (`BlockIntegrator.cpp:94-134`). So an `addBlock` can return with a
block pending that `integrate` would accept: behind a head that waits, or because the head was
dropped and the loop stopped there, although the next one was ready.

* `Quiescent q`: no pending block would be answered `Success` now.
* `Drains w p`: in the order of their indexes, the blocks of `p` are accepted one after the other up
  to some point, and from there on none is. No block that is accepted stands behind one that is not.
* `Waiting.quiescent_tryIntegrate_iff`: this is what the loop needs to leave nothing behind.
* **`quiescent_run_iff`**: so a run is quiescent after every call exactly when at each call the
  pending blocks, with the new one among them, drain. They do if their numbers are different and not
  below `currentRecon` (`drains_of_distinct`). `besideCalls_not_quiescent` is a run of three calls
  in which they do not.
-/

namespace Fluffycoin

open Fluffycoin.Ossl DbIntegrator
open PendingRecons (lookup head)

variable {o : OpenSsl} {envs : Nat → Env} {q : BlockIntegrator Host} {i : Index} {d : Block}

/-- No pending block would be answered `Success`, in any session in which nothing fails. -/
def Quiescent (o : OpenSsl) (q : BlockIntegrator Host) : Prop :=
  ∀ i d, lookup q.pendingRecons i = some d → ∀ env : Env, env.toLink.Ok →
    (q.dbIntegrator.system.call o (Call.on env d i)).result ≠ .success

/-- Genesis and reconciliation blocks are pending, before a system that needs no rebuilding. -/
structure Waiting (q : BlockIntegrator Host) : Prop where
  sound : q.Sound
  ready : q.dbIntegrator.system.Ready
  types : ∀ i d, lookup q.pendingRecons i = some d → isChain d = true

theorem waiting_start (tables : Database) : Waiting (BlockIntegrator.start tables) where
  sound := BlockIntegrator.sound_mk _
  ready := .inr rfl
  types i d h := by cases h

theorem Waiting.quiescent_iff (hq : Waiting q) :
    Quiescent o q ↔ ∀ i d, lookup q.pendingRecons i = some d →
      ¬ q.dbIntegrator.system.Takes o d i := by
  constructor
  · intro h i d hi htakes
    exact h i d hi {} Link.ok_default (htakes.result_serve hq.ready)
  · intro h i d hi env hok hres
    have hout := System.outcome_call (o := o) hq.ready hq.ready rfl hok d i
    rw [(Prod.mk.inj hout).1] at hres
    exact h i d hi (System.takes_of_success hq.ready (hq.types i d hi) hres)

/-! ## Draining -/

/-- In index order, the pending blocks are accepted one after the other up to some point, and from
there on none is. -/
inductive Drains (o : OpenSsl) : System → PendingRecons → Prop
  | done {w : System} {p : PendingRecons} :
    (∀ i d, lookup p i = some d → ¬ w.Takes o d i) → Drains o w p
  | next {w w' : System} {p : PendingRecons} {i : Index} {d : Block} :
    head p = some (i, d) → w.TakesTo o d i w' → Drains o w' (p.removeBlock i) → Drains o w p

theorem drains_iff_of_takes {w : System} (hw : w.Ready) {p : PendingRecons}
    (hhead : head p = some (i, d)) (htakes : w.Takes o d i) :
    Drains o w p ↔ Drains o (w.serve o d i).system (p.removeBlock i) := by
  constructor
  · intro h
    cases h with
    | done hnone => exact absurd htakes (hnone i d (PendingRecons.lookup_of_head hhead).1)
    | next hhead' hto hrest =>
      rw [hhead, Option.some.injEq, Prod.mk.injEq] at hhead'
      obtain ⟨rfl, rfl⟩ := hhead'
      rw [hto.serve_system hw]
      exact hrest
  · exact Drains.next hhead (htakes.takesTo_serve hw)

theorem drains_iff_of_not_takes {w : System} {p : PendingRecons} (hhead : head p = some (i, d))
    (hnot : ¬ w.Takes o d i) :
    Drains o w p ↔ ∀ j d', lookup p j = some d' → ¬ w.Takes o d' j := by
  constructor
  · intro h
    cases h with
    | done hnone => exact hnone
    | next hhead' hto _ =>
      rw [hhead, Option.some.injEq, Prod.mk.injEq] at hhead'
      obtain ⟨rfl, rfl⟩ := hhead'
      exact absurd hto.takes hnot
  · exact Drains.done

/-- A number that is exceeded has a successor. -/
theorem add_one_le_of_lt {a b : UInt32} (h : a < b) : a + 1 ≤ b := by
  have hlt := UInt32.lt_iff_toNat_lt.mp h
  have hb := b.toNat_lt
  have hone : (1 : UInt32).toNat = 1 := rfl
  rw [UInt32.le_iff_toNat_le, UInt32.toNat_add]
  omega

/-- Blocks at different numbers, none of them behind `currentRecon`, drain: the head is taken, or
all the others are ahead of it and wait. -/
theorem drains_of_distinct {w : System} (hw : w.Ready) {p : PendingRecons} (hp : p.Clean)
    (hahead : ∀ i d, lookup p i = some d → w.integrator.currentRecon ≤ i.recon)
    (hdistinct : ∀ i j d d', lookup p i = some d → lookup p j = some d' →
      i.recon = j.recon → i = j) :
    Drains o w p := by
  induction hn : p.backlog using Nat.strong_induction_on generalizing w p with
  | _ n ih =>
    cases hhead : head p with
    | none =>
      refine .done fun j d' hj => ?_
      rw [(PendingRecons.head_eq_none_iff hp).mp hhead j] at hj
      cases hj
    | some e =>
      obtain ⟨i, d⟩ := e
      obtain ⟨hlookup, hleast⟩ := PendingRecons.lookup_of_head hhead
      by_cases htakes : w.Takes o d i
      · have hless : (p.removeBlock i).backlog < n := by
          obtain ⟨_, _, hr, hs, hb⟩ := PendingRecons.lookup_eq_some_iff.mp hlookup
          rw [← hn]
          exact PendingRecons.backlog_removeBlock hr hs hb
        have hbefore : ∀ {j d'}, lookup (p.removeBlock i) j = some d' →
            j ≠ i ∧ lookup p j = some d' := by
          intro j d' hj
          rw [PendingRecons.lookup_removeBlock] at hj
          split at hj
          · cases hj
          · exact ⟨by assumption, hj⟩
        refine .next hhead (htakes.takesTo_serve hw) (ih _ hless
          (.inl (System.initialized_serve hw)) hp.removeBlock (fun j d' hj => ?_)
          (fun j j' d₁ d₂ hj hj' => hdistinct j j' d₁ d₂ (hbefore hj).2 (hbefore hj').2) rfl)
        obtain ⟨hne, hj⟩ := hbefore hj
        have hnumber : w.integrator.currentRecon ≠ j.recon := by
          rw [← htakes.1.1]
          exact fun he => hne (hdistinct i j d d' hlookup hj he).symm
        rw [htakes.currentRecon_serve hw]
        exact add_one_le_of_lt (UInt32.lt_of_le_of_ne (hahead j d' hj) hnumber)
      · refine .done fun j d' hj htakes' => ?_
        have hle := Index.recon_le (hleast j d' hj)
        rw [htakes'.1.1] at hle
        have hij : i = j := hdistinct i j d d' hlookup hj
          ((UInt32.le_antisymm hle (hahead i d hlookup)).trans htakes'.1.1.symm)
        subst hij
        rw [hlookup, Option.some.injEq] at hj
        exact htakes (hj ▸ htakes')

/-! ## The loop -/

theorem Waiting.round (hok : ∀ n, (envs n).toLink.Ok) (hq : Waiting q)
    (hhead : head q.pendingRecons = some (i, d)) : Waiting (q.tryNext (Host.ask o envs)).2 where
  sound := hq.sound.tryNext
  ready := by
    rw [(BlockIntegrator.tryNext_serve hok hq.sound hq.ready hhead).2.1]
    exact .inl (System.initialized_serve hq.ready)
  types j d' hj := by
    rw [BlockIntegrator.tryNext_of_head hq.sound hhead] at hj
    exact hq.types j d' (BlockIntegrator.lookup_of_settle hj)

theorem Waiting.tryIntegrate (hok : ∀ n, (envs n).toLink.Ok) (hq : Waiting q) :
    Waiting (q.tryIntegrate (Host.ask o envs)) :=
  (hq.sound.tryIntegrate (Host.ask o envs) Waiting
    (fun _ _ _ _ ht hhead => ht.round hok hhead) hq).2.1

/-- The loop stops at a head that is not accepted. It may be dropped, which leaves the others. -/
theorem Waiting.quiescent_of_stop_iff (hok : ∀ n, (envs n).toLink.Ok) (hq : Waiting q)
    (hhead : head q.pendingRecons = some (i, d)) (hnot : ¬ q.dbIntegrator.system.Takes o d i) :
    Quiescent o (q.tryNext (Host.ask o envs)).2 ↔
      Drains o q.dbIntegrator.system q.pendingRecons := by
  have hlookup := (PendingRecons.lookup_of_head hhead).1
  have hres : (q.dbIntegrator.system.serve o d i).result ≠ .success := fun hsuccess =>
    hnot (System.takes_of_success hq.ready (hq.types i d hlookup) hsuccess)
  obtain ⟨_, hsystem, hpending⟩ := BlockIntegrator.tryNext_serve hok hq.sound hq.ready hhead
  rw [(hq.round hok hhead).quiescent_iff, drains_iff_of_not_takes hhead hnot, hsystem,
    System.serve_system_of_ne_success hq.ready hres, hpending]
  constructor
  · intro h j d' hj htakes
    refine h j d' ?_ (System.takes_opened.mpr htakes)
    rw [BlockIntegrator.lookup_settle, if_neg, hj]
    rintro ⟨_, rfl⟩
    rw [hlookup, Option.some.injEq] at hj
    exact hnot (hj ▸ htakes)
  · intro h j d' hj htakes
    exact h j d' (BlockIntegrator.lookup_of_settle hj) (System.takes_opened.mp htakes)

/-- **What the loop needs** to leave no block behind that would be accepted. -/
theorem Waiting.quiescent_tryIntegrate_iff (hok : ∀ n, (envs n).toLink.Ok) (hq : Waiting q) :
    Quiescent o (q.tryIntegrate (Host.ask o envs)) ↔
      Drains o q.dbIntegrator.system q.pendingRecons := by
  -- along the rounds: one that takes the head takes the first step of the draining too
  induction hn : q.pendingRecons.backlog using Nat.strong_induction_on generalizing q with
  | _ n ih =>
    cases hhead : head q.pendingRecons with
    | none =>
      have hnone := (PendingRecons.head_eq_none_iff hq.sound.clean).mp hhead
      have hround : q.tryNext (Host.ask o envs) = (false, q) :=
        BlockIntegrator.tryNext_of_none hq.sound hhead
      rw [BlockIntegrator.tryIntegrate_of_stop _ (congrArg Prod.fst hround), hround]
      refine iff_of_true (hq.quiescent_iff.mpr fun j d' hj => ?_) (.done fun j d' hj => ?_) <;>
        · rw [hnone j] at hj
          cases hj
    | some e =>
      obtain ⟨i, d⟩ := e
      obtain ⟨hgo, hsystem, hpending⟩ :=
        BlockIntegrator.tryNext_serve (o := o) hok hq.sound hq.ready hhead
      by_cases htakes : q.dbIntegrator.system.Takes o d i
      · rw [htakes.result_serve hq.ready] at hgo hpending
        rw [BlockIntegrator.tryIntegrate_of_go _ hgo, drains_iff_of_takes hq.ready hhead htakes,
          ih _ (hn ▸ BlockIntegrator.backlog_tryNext _ hgo) (hq.round hok hhead) rfl, hsystem,
          hpending]
        rfl
      · have hstop : (q.tryNext (Host.ask o envs)).1 = false := by
          rw [hgo]
          refine beq_eq_false_iff_ne.mpr fun hsuccess => htakes ?_
          have hc := hq.types i d (PendingRecons.lookup_of_head hhead).1
          exact System.takes_of_success hq.ready hc hsuccess
        rw [BlockIntegrator.tryIntegrate_of_stop _ hstop]
        exact hq.quiescent_of_stop_iff hok hhead htakes

/-! ## Calls of `addBlock` -/

/-- The pending blocks, with the one that the call brings, drain. -/
def Unobstructed (o : OpenSsl) (q : BlockIntegrator Host) (c : BlockIntegrator.Submission) : Prop :=
  ∀ d, decodeBlock o c.binData = some d →
    Drains o q.dbIntegrator.system (q.pendingRecons.place c.index d)

theorem Waiting.file (hq : Waiting q) (hd : Block.copyAssign d = d) (hc : isChain d = true) :
    Waiting (q.file i d) := by
  refine ⟨hq.sound.file hd, hq.ready, fun j d' hj => ?_⟩
  rcases BlockIntegrator.lookup_of_file hj with hj | ⟨_, rfl, _⟩
  · exact hq.types j d' hj
  · exact hc

section Calls

variable {c : BlockIntegrator.Submission}

theorem Waiting.addBlock (hok : ∀ n, (envs n).toLink.Ok) (hq : Waiting q)
    (hd : decodeBlock o c.binData = some d) (hc : isChain d = true) :
    Waiting (q.addBlock (Host.ask o envs) o c) := by
  rw [BlockIntegrator.addBlock_of_some hq.sound hd]
  exact (hq.file (Block.copyAssign_decodeBlock hd) hc).tryIntegrate hok

/-- **One call.** -/
theorem Waiting.quiescent_addBlock_iff (hok : ∀ n, (envs n).toLink.Ok) (hq : Waiting q)
    (hd : decodeBlock o c.binData = some d) (hc : isChain d = true) :
    Quiescent o (q.addBlock (Host.ask o envs) o c) ↔ Unobstructed o q c := by
  have hfile : Waiting (q.file c.index d) := hq.file (Block.copyAssign_decodeBlock hd) hc
  rw [BlockIntegrator.addBlock_of_some hq.sound hd, hfile.quiescent_tryIntegrate_iff hok]
  constructor
  · intro h d' hd'
    rw [hd, Option.some.injEq] at hd'
    exact hd' ▸ h
  · exact fun h => h d hd

end Calls

/-- The call brings a genesis or a reconciliation block. -/
def BringsChain (o : OpenSsl) (c : BlockIntegrator.Submission) : Prop :=
  ∃ d, decodeBlock o c.binData = some d ∧ isChain d = true

theorem waiting_run (tables : Database) (hok : ∀ n, (envs n).toLink.Ok)
    {calls : List BlockIntegrator.Submission} (htypes : ∀ c ∈ calls, BringsChain o c)
    {before : List BlockIntegrator.Submission} (h : before <+: calls) :
    Waiting (BlockIntegrator.run o envs tables before) := by
  refine Trace.invariant_prefix _ id (fun q _ => Waiting q) (fun _ c => BringsChain o c)
    (fun q _ c hq ⟨d, hd, hc⟩ => hq.addBlock hok hd hc) (waiting_start tables)
    (fun l c hlc => htypes c ?_) h
  exact hlc.subset (List.mem_append_right l (List.mem_singleton.mpr rfl))

theorem run_concat (o : OpenSsl) (envs : Nat → Env) (tables : Database)
    (before : List BlockIntegrator.Submission) (c : BlockIntegrator.Submission) :
    BlockIntegrator.run o envs tables (before ++ [c]) =
      (BlockIntegrator.run o envs tables before).addBlock (Host.ask o envs) o c := by
  unfold BlockIntegrator.run
  rw [Trace.final_append]
  rfl

/-- **When nothing is left behind.** In a run of calls that bring genesis and reconciliation blocks,
with nothing failing: no block is pending that `integrate` would answer `Success` for whenever
`addBlock` returns, exactly when every call was unobstructed. -/
theorem quiescent_run_iff (o : OpenSsl) (tables : Database) (envs : Nat → Env)
    (hok : ∀ n, (envs n).toLink.Ok) (calls : List BlockIntegrator.Submission)
    (htypes : ∀ c ∈ calls, BringsChain o c) :
    (∀ before, before <+: calls → Quiescent o (BlockIntegrator.run o envs tables before)) ↔
      ∀ before c, before ++ [c] <+: calls →
        Unobstructed o (BlockIntegrator.run o envs tables before) c := by
  have hcall : ∀ before c, before ++ [c] <+: calls →
      (Quiescent o (BlockIntegrator.run o envs tables (before ++ [c])) ↔
        Unobstructed o (BlockIntegrator.run o envs tables before) c) := by
    intro before c hbefore
    obtain ⟨d, hd, hc⟩ :=
      htypes c (hbefore.subset (List.mem_append_right before (List.mem_singleton.mpr rfl)))
    have hwaiting := waiting_run tables hok htypes ((List.prefix_append before [c]).trans hbefore)
    rw [run_concat]
    exact hwaiting.quiescent_addBlock_iff hok hd hc
  constructor
  · intro h before c hbefore
    exact (hcall before c hbefore).mp (h _ hbefore)
  · intro h before hbefore
    rcases List.eq_nil_or_concat before with rfl | ⟨l, c, rfl⟩
    · refine (waiting_start tables).quiescent_iff.mpr fun i d hi => ?_
      cases hi
    · rw [List.concat_eq_append] at hbefore ⊢
      exact (hcall l c hbefore).mpr (h l c hbefore)

/-- The second block of a chain, then the first: neither is obstructed. -/
theorem unobstructed_backwards (hok : ∀ n, (envs n).toLink.Ok) {tables : Database} {f₀ f₁ : Bytes}
    {b : Block} (h₁ : decodeBlock o f₁ = some b) (before : List BlockIntegrator.Submission)
    (c : BlockIntegrator.Submission)
    (h : before ++ [c] <+: [⟨f₁, chainIndex 1⟩, ⟨f₀, chainIndex 0⟩]) :
    Unobstructed o (BlockIntegrator.run o envs tables before) c := by
  intro d _
  match before, h with
  | [], _ =>
    have honly : ∀ j d', lookup (PendingRecons.place ∅ c.index d) j = some d' → j = c.index := by
      intro j d' hj
      rw [PendingRecons.lookup_place] at hj
      split at hj
      · assumption
      · cases hj
    refine drains_of_distinct (.inr rfl) PendingRecons.clean_empty.place
      (fun _ _ _ => UInt32.zero_le) fun j j' d₁ d₂ hj hj' _ => ?_
    rw [honly j d₁ hj, honly j' d₂ hj']
  | [c₁], h =>
    obtain ⟨hc₁, hrest⟩ := List.cons_prefix_cons.mp h
    obtain ⟨hc, _⟩ := List.cons_prefix_cons.mp hrest
    subst hc₁ hc
    obtain ⟨hsound, hsystem, hpending⟩ := BlockIntegrator.addBlock_start
      (c := ⟨f₁, chainIndex 1⟩) hok tables h₁ (show 0 < (chainIndex 1).recon by decide)
    have honly : ∀ j d', lookup (PendingRecons.place (BlockIntegrator.run o envs tables
        [⟨f₁, chainIndex 1⟩]).pendingRecons (chainIndex 0) d) j = some d' →
          j = chainIndex 0 ∨ j = chainIndex 1 := by
      intro j d' hj
      rw [PendingRecons.lookup_place] at hj
      split at hj
      · exact .inl (by assumption)
      · rw [show (BlockIntegrator.run o envs tables [⟨f₁, chainIndex 1⟩]).pendingRecons = _ from
          hpending, BlockIntegrator.lookup_file] at hj
        split at hj
        · exact .inr (by assumption)
        · cases hj
    refine drains_of_distinct ?_ hsound.clean.place ?_ fun j j' d₁ d₂ hj hj' he => ?_
    · exact .inl (congrArg (fun w => w.integrator.initialized) hsystem)
    · intro j d' _
      rw [show (BlockIntegrator.run o envs tables [⟨f₁, chainIndex 1⟩]).dbIntegrator.system = _ from
        hsystem]
      exact UInt32.zero_le
    · rcases honly j d₁ hj with rfl | rfl <;> rcases honly j' d₂ hj' with rfl | rfl
      · rfl
      · exact absurd he (by decide)
      · exact absurd he (by decide)
      · rfl
  | _ :: _ :: before, h =>
    have hlen := h.length_le
    simp at hlen

theorem quiescent_run_iff_backwards :
    Quiescent shortDer (BlockIntegrator.run shortDer (fun _ => {}) {}
      [⟨twoFiles 1, chainIndex 1⟩, ⟨twoFiles 0, chainIndex 0⟩]) := by
  have h₀ := decodeBlock_twoFiles 0 (.genesis oneCoin) rfl
  have h₁ := decodeBlock_twoFiles 1 (.reconciliation (successor shortDer oneCoin)) rfl
  have htypes : ∀ c ∈ [⟨twoFiles 1, chainIndex 1⟩, ⟨twoFiles 0, chainIndex 0⟩],
      BringsChain shortDer c :=
    List.forall_mem_cons.mpr ⟨⟨_, h₁, rfl⟩, List.forall_mem_singleton.mpr ⟨_, h₀, rfl⟩⟩
  exact (quiescent_run_iff shortDer {} (fun _ => {}) (fun _ => Link.ok_default) _ htypes).mpr
    (unobstructed_backwards (fun _ => Link.ok_default) h₁) _ (List.prefix_refl _)

/-! ## A block that is left behind -/

/-- The slot next to that of the second block of a chain. -/
def besideOne : Index := { recon := 1, block := 1 }

/-- The genesis block under number 1 and its successor beside it: both wait. -/
theorem run_beside (hok : ∀ n, (envs n).toLink.Ok) {f₀ f₁ : Bytes}
    (h₀ : decodeBlock o f₀ = some (.genesis oneCoin))
    (h₁ : decodeBlock o f₁ = some (.reconciliation (successor o oneCoin))) :
    let q := BlockIntegrator.run o envs {} [⟨f₀, chainIndex 1⟩, ⟨f₁, besideOne⟩]
    q.dbIntegrator.system = (System.fresh {}).opened ∧
      head q.pendingRecons = some (chainIndex 1, .genesis oneCoin) ∧
      lookup q.pendingRecons besideOne = some (.reconciliation (successor o oneCoin)) := by
  have hone : 0 < (chainIndex 1).recon := by decide
  have hstart : (BlockIntegrator.start {}).Sound := BlockIntegrator.sound_mk _
  obtain ⟨hs₁, hsys₁, hp₁⟩ :=
    BlockIntegrator.addBlock_start (c := ⟨f₀, chainIndex 1⟩) hok {} h₀ hone
  have hhead₁ := BlockIntegrator.head_file_first hstart (i := chainIndex 1) (.genesis oneCoin)
    (PendingRecons.lookup_empty _) fun j d' hj => by cases hj
  rw [← hp₁] at hhead₁
  have hbeside : chainIndex 1 ≤ besideOne :=
    .inr ⟨rfl, .inr ⟨rfl, show (0 : UInt32) ≤ 1 by decide⟩⟩
  have hhead₂ := BlockIntegrator.head_file_behind hs₁ (i := besideOne)
    (.reconciliation (successor o oneCoin)) hhead₁ hbeside
  obtain ⟨_, hsys₂, hp₂⟩ := BlockIntegrator.addBlock_of_waits (c := ⟨f₁, besideOne⟩) hok hs₁
    (by rw [hsys₁]; exact System.ready_opened _) h₁ hhead₂ (by rw [hsys₁]; exact hone)
  refine ⟨hsys₂.trans (by rw [hsys₁]; rfl), hp₂ ▸ hhead₂, ?_⟩
  have hne : besideOne ≠ chainIndex 1 := by decide
  rw [show (BlockIntegrator.run o envs {} [⟨f₀, chainIndex 1⟩, ⟨f₁, besideOne⟩]).pendingRecons = _
    from hp₂, BlockIntegrator.lookup_file, if_pos rfl, hp₁, BlockIntegrator.lookup_file, if_neg hne]
  rfl

/-- The genesis block, and then itself under number 1 before its successor: these do not drain. -/
theorem not_drains_beside {w : System} (hw : w.Ready)
    (hopened : w.opened = (System.fresh {}).opened) {p : PendingRecons} (hp : p.Clean)
    (hhead : head p = some (chainIndex 1, .genesis oneCoin))
    (hbeside : lookup p besideOne = some (.reconciliation (successor o oneCoin))) :
    ¬ Drains o w (p.place (chainIndex 0) (.genesis oneCoin)) := by
  have hahead : ∀ j d', lookup p j = some d' → 0 < j.recon := fun j d' hj =>
    UInt32.lt_of_lt_of_le (show 0 < (chainIndex 1).recon by decide)
      (Index.recon_le ((PendingRecons.lookup_of_head hhead).2 j d' hj))
  have hfree : lookup p (chainIndex 0) = none :=
    Option.eq_none_iff_forall_ne_some.mpr fun d' hj =>
      UInt32.lt_irrefl 0 (hahead (chainIndex 0) d' hj)
  have hfirst : head (p.place (chainIndex 0) (.genesis oneCoin)) =
      some (chainIndex 0, .genesis oneCoin) :=
    PendingRecons.head_place_first hp hfree fun j d' hj => .inl (hahead j d' hj)
  have htakes : w.Takes o (.genesis oneCoin) (chainIndex 0) := by
    rw [← System.takes_opened, hopened, System.takes_opened]
    exact takes_genesis genesisFits_oneCoin o
  have hstate : (w.serve o (.genesis oneCoin) (chainIndex 0)).system.integrator =
      afterGenesis o oneCoin :=
    (congrArg System.integrator (Prod.mk.inj (System.outcome_serve (o := o) hw (.inr rfl) hopened
      (.genesis oneCoin) (chainIndex 0))).2).trans
      (serve_genesis genesisFits_oneCoin o).2
  rw [drains_iff_of_takes hw hfirst htakes, PendingRecons.removeBlock_place hp hfree,
    drains_iff_of_not_takes hhead fun hg => ?_]
  · exact fun h => h besideOne _ hbeside
      (takes_of_succeeds (succeeds_successor o oneCoin) hstate rfl)
  · -- a genesis block is not accepted at number 1
    obtain ⟨⟨hrecon, hzero, _⟩, _⟩ := hg
    rw [hzero] at hrecon
    exact absurd hrecon (by decide)

/-- The genesis block comes where it belongs: its successor stays behind. -/
theorem not_quiescent_beside (hok : ∀ n, (envs n).toLink.Ok) {f₀ f₁ : Bytes}
    (h₀ : decodeBlock o f₀ = some (.genesis oneCoin))
    (h₁ : decodeBlock o f₁ = some (.reconciliation (successor o oneCoin))) :
    ¬ Quiescent o (BlockIntegrator.run o envs {}
      [⟨f₀, chainIndex 1⟩, ⟨f₁, besideOne⟩, ⟨f₀, chainIndex 0⟩]) := by
  have htypes : ∀ c ∈ [⟨f₀, chainIndex 1⟩, ⟨f₁, besideOne⟩], BringsChain o c :=
    List.forall_mem_cons.mpr ⟨⟨_, h₀, rfl⟩, List.forall_mem_singleton.mpr ⟨_, h₁, rfl⟩⟩
  have hwaiting := waiting_run {} hok htypes (List.prefix_refl _)
  obtain ⟨hsystem, hhead, hbeside⟩ := run_beside hok h₀ h₁
  have hcall := run_concat o envs {} [⟨f₀, chainIndex 1⟩, ⟨f₁, besideOne⟩] ⟨f₀, chainIndex 0⟩
  rw [show BlockIntegrator.run o envs {} [⟨f₀, chainIndex 1⟩, ⟨f₁, besideOne⟩,
    ⟨f₀, chainIndex 0⟩] = _ from hcall, hwaiting.quiescent_addBlock_iff hok h₀ rfl]
  exact fun h => not_drains_beside hwaiting.ready (by rw [hsystem]; rfl) hwaiting.sound.clean hhead
    hbeside (h _ h₀)

/-- The calls of `not_quiescent_beside`, from files. -/
def besideCalls : List BlockIntegrator.Submission :=
  [⟨twoFiles 0, chainIndex 1⟩, ⟨twoFiles 1, besideOne⟩, ⟨twoFiles 0, chainIndex 0⟩]

/-- Genesis and reconciliation blocks, of which one that would be accepted is left pending. -/
theorem besideCalls_not_quiescent :
    (∀ c ∈ besideCalls, BringsChain shortDer c) ∧
      ¬ Quiescent shortDer (BlockIntegrator.run shortDer (fun _ => {}) {} besideCalls) := by
  have h₀ := decodeBlock_twoFiles 0 (.genesis oneCoin) rfl
  have h₁ := decodeBlock_twoFiles 1 (.reconciliation (successor shortDer oneCoin)) rfl
  refine ⟨?_, not_quiescent_beside (fun _ => Link.ok_default) h₀ h₁⟩
  refine List.forall_mem_cons.mpr ⟨⟨_, h₀, rfl⟩, List.forall_mem_cons.mpr ⟨⟨_, h₁, rfl⟩, ?_⟩⟩
  exact List.forall_mem_singleton.mpr ⟨_, h₀, rfl⟩

end Fluffycoin
