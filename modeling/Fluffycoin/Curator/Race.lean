import Fluffycoin.Curator.Interleaving

/-!
# Two calls with one block

Two calls of `addBlock` pick the same block when the second picks before the first has removed it.
If both get past the checks of `integrate` before either has updated the cached state, both
integrate it, one after the other: the lock on `imported_blocks` makes the second wait, and does not
have it look again.

* `run_race`: in any world where two calls wait for their sessions with one acceptable
  reconciliation block, the events of `race` end with the block in the log twice. The row the second
  writes is formatted with the `currentRecon` the first has incremented.
* `run_threeCalls` gets there from a fresh integrator on empty tables.
-/

namespace Fluffycoin

open Fluffycoin.Ossl DbIntegrator

namespace World

section Race

variable {o : OpenSsl} {w : World} {t u : Nat} {data : Block} {i : Index}

/-- The events from the first statement of a call to its commit. -/
def writing (n t : Nat) : List Event := List.replicate n (.resume t) ++ [.serve t]

/-- Two calls with one block: both get past the checks, then one is done before the other starts
to write. -/
def race (t u : Nat) : List Event :=
  [.resume t, .resume u] ++ (writing 2 t ++ [.resume t]) ++ writing 2 u

theorem run_writing (ht : t < w.tasks.length) (hc : isChain data = true) {l : List Statement}
    (hl : statements o w.integrator data = l) (hlock : w.lock = none) {db : Database}
    (hexec : execAll l w.db = some db) :
    (w.park t (some { data, index := i, point := draft l 0 })).run o (writing l.length t) =
      { w with db, log := w.log ++ [(i, data)] }.park t
        (some { data, index := i, point := .commit l true }) := by
  have hdraft := run_draft (i := i) ht hl hexec (Nat.zero_add _)
    (hlock.trans (show none = lockAfter t l 0 by simp [lockAfter]))
  have hcommit := step_commit (o := o) (i := i) (w := { w with lock := lockAfter t l l.length })
    ht hc hexec
  rw [filter_lockAfter, ← hlock] at hcommit
  rw [writing, run_append, hdraft, run_cons, hcommit]
  rfl

theorem park_comm (htu : t ≠ u) (w : World) (x y : Option Task) :
    (w.park t x).park u y = (w.park u y).park t x := by
  unfold park
  rw [List.set_comm _ _ htu]

theorem step_accepted (htask : w.tasks[t]? = some (some { data, index := i }))
    (hinit : w.integrator.initialized = true)
    (hacc : w.integrator.Accepts data i.recon i.shard i.block) :
    w.step o (.resume t) =
      w.park t (some { data, index := i, point := draft (statements o w.integrator data) 0 }) := by
  rw [step_resume htask, resume_newSession, if_pos hinit,
    check_of_accepts (w := w.park t none) hacc, send_nil, park_park]
  rfl

/-- A call with a reconciliation block, past the checks. -/
def truncating (r : Reconciliation) (i : Index) : Option Task :=
  some { data := .reconciliation r, index := i, point := .query [.truncateImportedBlocks] }

variable {r : Reconciliation}

theorem step_truncating
    (htask : w.tasks[t]? = some (some { data := .reconciliation r, index := i }))
    (hinit : w.integrator.initialized = true)
    (hacc : w.integrator.Accepts (.reconciliation r) i.recon i.shard i.block) :
    w.step o (.resume t) = w.park t (truncating r i) :=
  step_accepted htask hinit hacc

/-- What it writes is numbered as `currentRecon` is now. -/
theorem run_truncating (ht : t < w.tasks.length) (hlock : w.lock = none)
    (hlt : w.integrator.currentRecon.toNat < 2 ^ 31) :
    (w.park t (truncating r i)).run o (writing 2 t) =
      { w with
        db := { w.db with importedBlocks :=
          [importedRow o w.integrator.currentRecon.toNat (Block.reconciliation r)] }
        log := w.log ++ [(i, Block.reconciliation r)] }.park t (some {
          data := Block.reconciliation r
          index := i
          point := Point.commit (statements o w.integrator (Block.reconciliation r)) true }) := by
  have hexec : execAll (statements o w.integrator (.reconciliation r)) w.db = some _ :=
    execAll_recon_iff.mpr ⟨hlt, rfl⟩
  exact run_writing ht rfl rfl hlock hexec

/-- Then it brings the cached state up to date and goes on. -/
theorem run_truncating_resume (ht : t < w.tasks.length) (hlock : w.lock = none)
    (hlt : w.integrator.currentRecon.toNat < 2 ^ 31) :
    ∃ p x, (w.park t (truncating r i)).run o (writing 2 t ++ [Event.resume t]) =
      { w with
        integrator := advance o w.integrator (Block.reconciliation r)
        db := { w.db with importedBlocks :=
          [importedRow o w.integrator.currentRecon.toNat (Block.reconciliation r)] }
        pendingRecons := p
        log := w.log ++ [(i, Block.reconciliation r)] }.park t x := by
  rw [run_append, run_truncating ht hlock hlt, run_cons, step_performed]
  · exact finish_success _ t _
  · exact ht

/-- **Two calls with one reconciliation block**, both waiting for their sessions: there is an order
of events in which both integrate it. The second writes a row that is numbered one too high. -/
theorem run_race (htu : t ≠ u)
    (ht : w.tasks[t]? = some (some { data := .reconciliation r, index := i }))
    (hu : w.tasks[u]? = some (some { data := .reconciliation r, index := i }))
    (hinit : w.integrator.initialized = true) (hlock : w.lock = none)
    (hacc : w.integrator.Accepts (.reconciliation r) i.recon i.shard i.block)
    (hlt : w.integrator.currentRecon.toNat + 1 < 2 ^ 31) :
    (w.run o (race t u)).log =
        w.log ++ [(i, Block.reconciliation r), (i, Block.reconciliation r)] ∧
      (w.run o (race t u)).db.importedBlocks =
        [importedRow o (w.integrator.currentRecon.toNat + 1) (.reconciliation r)] := by
  have htlen : t < (w.park u (truncating r i)).tasks.length := by
    rw [park, List.length_set]
    exact (List.getElem?_eq_some_iff.mp ht).1
  have hu' : (w.park t (truncating r i)).tasks[u]? =
      some (some { data := .reconciliation r, index := i }) :=
    (List.getElem?_set_ne htu).trans hu
  have hchecked : w.run o [.resume t, .resume u] =
      (w.park u (truncating r i)).park t (truncating r i) := by
    rw [run_cons, step_truncating ht hinit hacc, run_cons, step_truncating hu' hinit hacc,
      park_comm htu]
    rfl
  -- the first call is done, and the second waits as before
  obtain ⟨v, hv, hlen, hfree, hrecon, hlog⟩ : ∃ v : World,
      ((w.park u (truncating r i)).park t (truncating r i)).run o
        (writing 2 t ++ [Event.resume t]) =
        v.park u (truncating r i) ∧ v.tasks.length = w.tasks.length ∧ v.lock = none ∧
      v.integrator.currentRecon = w.integrator.currentRecon + 1 ∧
      v.log = w.log ++ [(i, Block.reconciliation r)] := by
    obtain ⟨p, x, hfirst⟩ := run_truncating_resume (o := o) (r := r) (i := i) htlen hlock
      (Nat.lt_of_succ_lt hlt)
    let done : World := { w with
      integrator := advance o w.integrator (Block.reconciliation r)
      db := { w.db with importedBlocks :=
        [importedRow o w.integrator.currentRecon.toNat (Block.reconciliation r)] }
      pendingRecons := p
      log := w.log ++ [(i, Block.reconciliation r)] }
    refine ⟨done.park t x, hfirst.trans (park_comm htu done x _).symm, ?_, hlock, rfl, rfl⟩
    rw [park, List.length_set]
  have hnext : v.integrator.currentRecon.toNat = w.integrator.currentRecon.toNat + 1 := by
    rw [hrecon, UInt32.toNat_add]
    exact Nat.mod_eq_of_lt (Nat.lt_trans hlt (by decide))
  have hulen : u < v.tasks.length := hlen ▸ (List.getElem?_eq_some_iff.mp hu).1
  rw [race, run_append, run_append, hchecked, hv,
    run_truncating hulen hfree (by rw [hnext]; exact hlt), ← hnext]
  refine ⟨?_, rfl⟩
  rw [show World.log _ = v.log ++ _ from rfl, hlog, List.append_assoc]
  rfl

end Race

/-! ## Three calls -/

section Three

variable {o : OpenSsl} {g : Genesis} {c : BlockIntegrator.Submission}

/-- Two calls with the next block, before their sessions. -/
def waiting (o : OpenSsl) (g : Genesis) (r : Reconciliation) (pendingRecons : PendingRecons) :
    World :=
  { integrated o g with
    pendingRecons
    tasks := [none, some { data := .reconciliation r, index := chainIndex 1 },
      some { data := .reconciliation r, index := chainIndex 1 }] }

theorem call_twice {r : Reconciliation} (hd : decodeBlock o c.binData = some (.reconciliation r))
    (hi : c.index = chainIndex 1) :
    ∃ p, (integrated o g).run o [.call c, .call c] = waiting o g r p := by
  obtain ⟨binData, index⟩ := c
  obtain rfl : index = chainIndex 1 := hi
  have hsound : (integrated o g).blocks.Sound := BlockIntegrator.sound_mk _
  have hhead := BlockIntegrator.head_file_first hsound (i := chainIndex 1) (.reconciliation r)
    (PendingRecons.lookup_empty _) fun j d' hj => by cases hj
  have hfiled := hsound.file (i := chainIndex 1) (Block.copyAssign_decodeBlock hd)
  have hhead' := BlockIntegrator.head_file_behind hfiled (i := chainIndex 1) (.reconciliation r)
    hhead (Index.le_refl _)
  have hfirst := call_of_head hd hsound hhead
  have hsecond := call_of_head (w := { integrated o g with
    pendingRecons := PendingRecons.place ∅ (chainIndex 1) (.reconciliation r)
    tasks := [none, some { data := .reconciliation r, index := chainIndex 1 }] }) hd hfiled hhead'
  exact ⟨_, (congrArg (World.call o · _) hfirst).trans hsecond⟩

/-- Three calls: one integrates the genesis block, then two race with the next. -/
def threeCalls (c c' : BlockIntegrator.Submission) : List Event :=
  .call c :: alone false 4 0 ++ [.call c', .call c'] ++ race 1 2

theorem run_threeCalls {c' : BlockIntegrator.Submission} {r : Reconciliation}
    (hg : GenesisFits g {}) (hr : Succeeds o g r)
    (hd : decodeBlock o c.binData = some (.genesis g)) (hi : c.index = chainIndex 0)
    (hd' : decodeBlock o c'.binData = some (.reconciliation r)) (hi' : c'.index = chainIndex 1) :
    ((fresh {}).run o (threeCalls c c')).log =
        [(chainIndex 0, .genesis g), (chainIndex 1, .reconciliation r),
          (chainIndex 1, .reconciliation r)] ∧
      ((fresh {}).run o (threeCalls c c')).db.importedBlocks =
        [importedRow o 2 (.reconciliation r)] := by
  have hgenesis : (fresh {}).run o (.call c :: alone false 4 0) = integrated o g := by
    rw [run_cons, show (fresh {}).step o (.call c) = opening g from call_opening hd hi]
    exact run_opening_alone hg
  obtain ⟨p, hcalls⟩ := call_twice (g := g) hd' hi'
  have hacc : (afterGenesis o g).Accepts (.reconciliation r) 1 0 0 :=
    (takes_of_succeeds (i := chainIndex 1) hr
      (show System.integrator ⟨afterGenesis o g, {}⟩ = _ from rfl) rfl).1
  obtain ⟨hlog, hrows⟩ := run_race (o := o) (t := 1) (u := 2) (w := waiting o g r p) (by decide)
    rfl rfl rfl rfl hacc (show (1 : UInt32).toNat + 1 < 2 ^ 31 by decide)
  rw [threeCalls, run_append, run_append, hgenesis, hcalls, hlog, hrows]
  exact ⟨rfl, rfl⟩

end Three

/-- The file of the block after it. -/
def secondFile : BlockIntegrator.Submission := ⟨twoFiles 1, chainIndex 1⟩

/-- Block 1 is integrated twice, and the row says 2. -/
theorem twice_integrated :
    ((fresh {}).run shortDer (threeCalls firstFile secondFile)).log.map (fun e => e.1.recon) =
        [0, 1, 1] ∧
      ((fresh {}).run shortDer (threeCalls firstFile secondFile)).db.importedBlocks.map
        (fun row => row.reconciliation) = [2] ∧
      ¬ ((fresh {}).run shortDer (threeCalls firstFile secondFile)).Consistent shortDer := by
  obtain ⟨hlog, hrows⟩ := run_threeCalls (c := firstFile) genesisFits_oneCoin
    (show Succeeds shortDer oneCoin (successor shortDer oneCoin) from ⟨rfl, rfl⟩)
    (decodeBlock_twoFiles 0 _ rfl) rfl (show decodeBlock shortDer secondFile.binData = _ from
      decodeBlock_twoFiles 1 _ rfl) rfl
  have hrecons : ((fresh {}).run shortDer (threeCalls firstFile secondFile)).log.map
      (fun e => e.1.recon) = [0, 1, 1] := by
    rw [hlog]
    rfl
  refine ⟨hrecons, by rw [hrows]; rfl, fun h => ?_⟩
  have honce := h.once
  rw [hrecons] at honce
  exact absurd honce (by decide)

end World

end Fluffycoin
