import Fluffycoin.Curator.Pending

/-!
# What becomes of every block

An account of the blocks that `BlockIntegrator` is given, with an integrator that may give any
answer to any block.

* `pending p` lists the blocks that wait. A block is inserted if its slot is free (`inserted`), and
  the answers are logged by the integrator that is asked (`logged`).
* `rounds n` is the loop of `tryIntegrate` stopped after `n` rounds. A round that goes on has taken
  one block out (`perm_of_goes_on`), so the loop is over after one round more than there are blocks
  pending (`rounds_eq`).
* `Accounted`: the blocks inserted are, one for one, those pending, those answered `Success` and
  those answered with one of the results of `isBadBlock`. A round keeps it, and so does a call.

`pending_partition` states this of every moment: between the calls, and in a call after any number
of rounds. `forget_after`: the log changes nothing else.
-/

namespace Fluffycoin

open Std (ExtTreeMap)
open Fluffycoin.Ossl

namespace PendingRecons

variable {p q : PendingRecons} {i : Index} {d : Block}

/-- The blocks of a shard. -/
def shardBlocks (recon shard : UInt32) (pendingBlocks : PendingShard) : List (Index × Block) :=
  pendingBlocks.toList.map fun e => (⟨recon, shard, e.1⟩, e.2)

/-- The blocks of a reconciliation. -/
def reconBlocks (recon : UInt32) (pendingShards : PendingRecon) : List (Index × Block) :=
  pendingShards.toList.flatMap fun e => shardBlocks recon e.1 e.2

/-- The blocks that wait, in order. -/
def pending (p : PendingRecons) : List (Index × Block) :=
  p.toList.flatMap fun e => reconBlocks e.1 e.2

theorem mem_shardBlocks {recon shard : UInt32} {pendingBlocks : PendingShard} :
    (i, d) ∈ shardBlocks recon shard pendingBlocks ↔
      i.recon = recon ∧ i.shard = shard ∧ pendingBlocks[i.block]? = some d := by
  obtain ⟨r, s, b⟩ := i
  unfold shardBlocks
  simp only [List.mem_map, Prod.exists, ExtTreeMap.mem_toList_iff_getElem?_eq_some, Prod.mk.injEq,
    Index.mk.injEq]
  constructor
  · rintro ⟨block, data, hb, ⟨rfl, rfl, rfl⟩, rfl⟩
    exact ⟨rfl, rfl, hb⟩
  · rintro ⟨rfl, rfl, hb⟩
    exact ⟨b, d, hb, ⟨rfl, rfl, rfl⟩, rfl⟩

theorem mem_reconBlocks {recon : UInt32} {pendingShards : PendingRecon} :
    (i, d) ∈ reconBlocks recon pendingShards ↔
      i.recon = recon ∧ ∃ pendingBlocks, pendingShards[i.shard]? = some pendingBlocks ∧
        pendingBlocks[i.block]? = some d := by
  unfold reconBlocks
  simp only [List.mem_flatMap, Prod.exists, ExtTreeMap.mem_toList_iff_getElem?_eq_some,
    mem_shardBlocks]
  constructor
  · rintro ⟨shard, blocks, hs, hr, rfl, hb⟩
    exact ⟨hr, blocks, hs, hb⟩
  · rintro ⟨hr, blocks, hs, hb⟩
    exact ⟨i.shard, blocks, hs, hr, rfl, hb⟩

theorem mem_pending : (i, d) ∈ pending p ↔ lookup p i = some d := by
  rw [lookup_eq_some_iff]
  unfold pending
  simp only [List.mem_flatMap, Prod.exists, ExtTreeMap.mem_toList_iff_getElem?_eq_some,
    mem_reconBlocks]
  constructor
  · rintro ⟨recon, shards, hr, rfl, blocks, hs, hb⟩
    exact ⟨shards, blocks, hr, hs, hb⟩
  · rintro ⟨shards, blocks, hr, hs, hb⟩
    exact ⟨i.recon, shards, hr, rfl, blocks, hs, hb⟩

theorem nodup_shardBlocks (recon shard : UInt32) (pendingBlocks : PendingShard) :
    (shardBlocks recon shard pendingBlocks).Nodup := by
  refine (SortedMap.nodup_toList pendingBlocks).map fun e e' he => ?_
  simp only [Prod.mk.injEq, Index.mk.injEq, true_and] at he
  exact Prod.ext he.1 he.2

theorem nodup_reconBlocks (recon : UInt32) (pendingShards : PendingRecon) :
    (reconBlocks recon pendingShards).Nodup :=
  SortedMap.nodup_flatMap_toList (fun x => x.1.shard) (nodup_shardBlocks recon)
    (fun _ _ _ hx => (mem_shardBlocks.mp hx).2.1) pendingShards

theorem nodup_pending (p : PendingRecons) : (pending p).Nodup :=
  SortedMap.nodup_flatMap_toList (fun x => x.1.recon) nodup_reconBlocks
    (fun _ _ _ hx => (mem_reconBlocks.mp hx).1) p

/-- One block more is pending. -/
theorem pending_perm_cons (hp : lookup p i = none) (hq : lookup q i = some d)
    (hother : ∀ j, j ≠ i → lookup q j = lookup p j) :
    (pending q).Perm ((i, d) :: pending p) := by
  have hnot : (i, d) ∉ pending p := by
    rw [mem_pending, hp]
    nofun
  refine (List.perm_ext_iff_of_nodup (nodup_pending q)
    (List.nodup_cons.mpr ⟨hnot, nodup_pending p⟩)).mpr fun ⟨j, d'⟩ => ?_
  rw [mem_pending, List.mem_cons, mem_pending, Prod.mk.injEq]
  by_cases hj : j = i
  · subst hj
    rw [hq, hp]
    simp [eq_comm]
  · rw [hother j hj]
    simp [hj]

theorem pending_place (hfree : lookup p i = none) :
    (pending (p.place i d)).Perm ((i, d) :: pending p) := by
  refine pending_perm_cons hfree ?_ fun j hj => ?_
  · rw [lookup_place, if_pos rfl, hfree, Option.getD_none]
  · rw [lookup_place, if_neg hj]

theorem pending_removeBlock (h : lookup p i = some d) :
    (pending p).Perm ((i, d) :: pending (p.removeBlock i)) := by
  refine pending_perm_cons ?_ h fun j hj => ?_
  · rw [lookup_removeBlock, if_pos rfl]
  · rw [lookup_removeBlock, if_neg hj]

/-- A slot that is taken keeps its block. -/
theorem place_of_taken (hp : Clean p) {d' : Block} (h : lookup p i = some d') :
    p.place i d = p := by
  refine hp.place.ext hp fun j => ?_
  rw [lookup_place]
  by_cases hj : j = i
  · rw [if_pos hj, hj, h, Option.getD_some]
  · rw [if_neg hj]

end PendingRecons

namespace BlockIntegrator

open PendingRecons (lookup head pending)

/-! ## The loop, round by round -/

section Rounds

variable {σ : Type} (ask : σ → Block → Index → Result × σ) {q : BlockIntegrator σ}

/-- `tryIntegrate` after so many rounds: whether it is still running, and the state. -/
def rounds : Nat → BlockIntegrator σ → Bool × BlockIntegrator σ
  | 0, q => (true, q)
  | n + 1, q => if (q.tryNext ask).1 then rounds n (q.tryNext ask).2 else q.tryNext ask

/-- A round that goes on has taken out one block. -/
theorem perm_of_goes_on (hq : q.Sound) (h : (q.tryNext ask).1 = true) :
    ∃ b, (pending q.pendingRecons).Perm (b :: pending (q.tryNext ask).2.pendingRecons) := by
  cases hhead : head q.pendingRecons with
  | none =>
    rw [tryNext_of_none hq hhead] at h
    cases h
  | some e =>
    obtain ⟨i, d⟩ := e
    rw [tryNext_of_head hq hhead] at h ⊢
    have hsuccess : isSuccess (ask q.dbIntegrator d i).1 = true := h
    have hsettle : settle q.pendingRecons i (ask q.dbIntegrator d i).1 =
        q.pendingRecons.removeBlock i := if_pos (by rw [hsuccess]; rfl)
    refine ⟨(i, d), ?_⟩
    simp only [hsettle]
    exact PendingRecons.pending_removeBlock (PendingRecons.lookup_of_head hhead).1

/-- **The loop ends** after one round more than there are blocks pending, at the latest. -/
theorem rounds_eq (hq : q.Sound) {n : Nat} (hn : (pending q.pendingRecons).length < n) :
    rounds ask n q = (false, q.tryIntegrate ask) := by
  induction n generalizing q with
  | zero => cases hn
  | succ n ih =>
    cases h : (q.tryNext ask).1 with
    | true =>
      obtain ⟨b, hperm⟩ := perm_of_goes_on ask hq h
      have hlength := hperm.length_eq
      rw [List.length_cons] at hlength
      rw [rounds, if_pos h, ih hq.tryNext (by omega), tryIntegrate_of_go ask h]
    | false =>
      rw [rounds, if_neg (by rw [h]; nofun), tryIntegrate_of_stop ask h]
      exact Prod.ext h rfl

/-- What every round keeps holds after any number of them. -/
theorem rounds_rule (Inv : BlockIntegrator σ → Prop)
    (hstep : ∀ q, Inv q → Inv (q.tryNext ask).2) (n : Nat) (hq : Inv q) :
    Inv (rounds ask n q).2 := by
  induction n generalizing q with
  | zero => exact hq
  | succ n ih =>
    rw [rounds]
    split_ifs
    · exact ih (hstep q hq)
    · exact hstep q hq

end Rounds

/-! ## The account -/

/-- What the integrator says to a block. -/
structure Verdict where
  index : Index
  block : Block
  ret : Result

/-- The blocks that got a verdict of some kind. -/
def judged (kind : Result → Bool) (log : List Verdict) : List (Index × Block) :=
  (log.filter fun a => kind a.ret).map fun a => (a.index, a.block)

theorem judged_append (kind : Result → Bool) (log : List Verdict) (a : Verdict) :
    judged kind (log ++ [a]) =
      judged kind log ++ if kind a.ret then [(a.index, a.block)] else [] := by
  unfold judged
  rw [List.filter_append, List.map_append, List.filter_singleton]
  cases kind a.ret <;> rfl

/-- No result is both. -/
theorem isBadBlock_of_isSuccess {ret : Result} (h : isSuccess ret = true) :
    isBadBlock ret = false := by
  cases ret <;> first | rfl | cases h

section Account

variable {σ : Type} (ask : σ → Block → Index → Result × σ) (o : OpenSsl)

/-- The integrator with a log of its answers. -/
def logged (w : σ × List Verdict) (d : Block) (i : Index) : Result × σ × List Verdict :=
  ((ask w.1 d i).1, (ask w.1 d i).2, w.2 ++ [⟨i, d, (ask w.1 d i).1⟩])

variable {q : BlockIntegrator (σ × List Verdict)} {blocks : List (Index × Block)}

/-- The blocks are those pending, those answered `Success` and those that are bad. -/
def Accounted (q : BlockIntegrator (σ × List Verdict)) (blocks : List (Index × Block)) : Prop :=
  blocks.Perm (pending q.pendingRecons ++ judged isSuccess q.dbIntegrator.2 ++
    judged isBadBlock q.dbIntegrator.2)

/-- A round moves one block from a part to another, or none. -/
theorem Accounted.tryNext (h : Accounted q blocks) (hq : q.Sound) :
    Accounted (q.tryNext (logged ask)).2 blocks := by
  cases hhead : head q.pendingRecons with
  | none =>
    rw [tryNext_of_none hq hhead]
    exact h
  | some e =>
    obtain ⟨i, d⟩ := e
    have hremove := PendingRecons.pending_removeBlock (PendingRecons.lookup_of_head hhead).1
    rw [tryNext_of_head hq hhead]
    unfold Accounted at h ⊢
    simp only [logged, judged_append, settle]
    by_cases hsuccess : isSuccess (ask q.dbIntegrator.1 d i).1 = true
    · simp only [hsuccess, isBadBlock_of_isSuccess hsuccess, Bool.true_or, if_true,
        Bool.false_eq_true, if_false, List.append_nil]
      refine h.trans (((hremove.append_right _).append_right _).trans ?_)
      rw [← List.append_assoc _ _ [_], List.append_assoc _ [_]]
      exact List.perm_middle.symm
    · by_cases hbad : isBadBlock (ask q.dbIntegrator.1 d i).1 = true
      · simp only [hsuccess, hbad, Bool.or_true, if_true, Bool.false_eq_true, if_false,
          List.append_nil]
        refine h.trans (((hremove.append_right _).append_right _).trans ?_)
        rw [← List.append_assoc]
        exact (List.perm_append_singleton _ _).symm
      · simp only [hsuccess, hbad, Bool.or_self, Bool.false_eq_true, if_false, List.append_nil]
        exact h

/-- The block a call of `addBlock` inserts, if it can be decoded and finds its slot free. -/
def inserted (q : BlockIntegrator σ) (c : Submission) : List (Index × Block) :=
  match decodeBlock o c.binData with
  | none => []
  | some d => if (lookup q.pendingRecons c.index).isNone then [(c.index, d)] else []

/-- The state of `addBlock` before its loop. -/
def submitted (q : BlockIntegrator σ) (i : Index) (d : Block) : BlockIntegrator σ :=
  { q with pendingRecons := q.pendingRecons.place i d
           shardCursor := if q.shardCursor > i.shard then i.shard else q.shardCursor }

theorem addBlock_eq {q : BlockIntegrator σ} {c : Submission} {d : Block}
    (h : decodeBlock o c.binData = some d) :
    q.addBlock ask o c = (q.submitted c.index d).tryIntegrate ask := by
  unfold addBlock
  rw [h]
  rfl

theorem submitted_eq {q : BlockIntegrator σ} (hq : q.Sound) (i : Index) (d : Block) :
    q.submitted i d = q.file i d := by
  unfold submitted file
  simp only [hq.shardCursor, gt_iff_lt, UInt32.not_lt_zero, if_false]

/-- The calls one after the other: the state, and the blocks inserted. -/
def after (w : σ) (calls : List Submission) :
    BlockIntegrator (σ × List Verdict) × List (Index × Block) :=
  calls.foldl (fun s c => (s.1.addBlock (logged ask) o c, s.2 ++ inserted o s.1 c))
    ({ dbIntegrator := (w, []) }, [])

variable {o}

theorem Accounted.submitted (h : Accounted q blocks) (hq : q.Sound) {c : Submission} {d : Block}
    (hd : decodeBlock o c.binData = some d) :
    Accounted (q.submitted c.index d) (blocks ++ inserted o q c) := by
  unfold Accounted inserted at *
  rw [hd, submitted_eq hq]
  unfold file
  cases hlookup : lookup q.pendingRecons c.index with
  | none =>
    have hplace := PendingRecons.pending_place (d := d) hlookup
    refine (List.perm_append_singleton _ _).trans ((h.cons _).trans ?_)
    exact ((hplace.append_right _).append_right _).symm
  | some d' =>
    rw [PendingRecons.place_of_taken hq.clean hlookup]
    simpa using h

theorem sound_submitted (hq : q.Sound) {c : Submission} {d : Block}
    (hd : decodeBlock o c.binData = some d) : (q.submitted c.index d).Sound := by
  rw [submitted_eq hq]
  exact hq.file (Block.copyAssign_decodeBlock hd)

/-- After any number of rounds. -/
theorem Accounted.rounds (h : Accounted q blocks) (hq : q.Sound) (n : Nat) :
    (rounds (logged ask) n q).2.Sound ∧ Accounted (rounds (logged ask) n q).2 blocks :=
  rounds_rule (logged ask) (fun q => q.Sound ∧ Accounted q blocks)
    (fun _ hq => ⟨hq.1.tryNext, hq.2.tryNext ask hq.1⟩) n ⟨hq, h⟩

/-- A call of `addBlock`. -/
theorem Accounted.addBlock (h : Accounted q blocks) (hq : q.Sound) (c : Submission) :
    (q.addBlock (logged ask) o c).Sound ∧
      Accounted (q.addBlock (logged ask) o c) (blocks ++ inserted o q c) := by
  cases hd : decodeBlock o c.binData with
  | none =>
    unfold BlockIntegrator.addBlock inserted
    rw [hd]
    simpa using ⟨hq, h⟩
  | some d =>
    have hsound := sound_submitted hq hd
    have hend := (h.submitted hq hd).rounds ask hsound
      ((pending (q.submitted c.index d).pendingRecons).length + 1)
    rw [rounds_eq (logged ask) hsound (Nat.lt_succ_self _)] at hend
    rw [addBlock_eq (logged ask) o hd]
    exact hend

variable (o)

theorem after_append (w : σ) (calls : List Submission) (c : Submission) :
    after ask o w (calls ++ [c]) =
      ((after ask o w calls).1.addBlock (logged ask) o c,
        (after ask o w calls).2 ++ inserted o (after ask o w calls).1 c) := by
  unfold after
  rw [List.foldl_append]
  rfl

theorem accounted_after (w : σ) (calls : List Submission) :
    (after ask o w calls).1.Sound ∧ Accounted (after ask o w calls).1 (after ask o w calls).2 := by
  induction calls using List.reverseRecOn with
  | nil => exact ⟨sound_mk _, List.Perm.refl _⟩
  | append_singleton calls c ih =>
    rw [after_append]
    exact ih.2.addBlock ask ih.1 c

/-- What holds at every moment, with the blocks inserted so far. -/
structure Moment (q : BlockIntegrator (σ × List Verdict)) (blocks : List (Index × Block)) :
    Prop where
  shardCursor : q.shardCursor = 0
  /-- The cursor hides no block. -/
  seen : ∀ i d, lookup q.pendingRecons i = some d → ¬ i.shard < q.shardCursor
  /-- A round that goes on takes out one block. -/
  removes : (q.tryNext (logged ask)).1 = true →
    ∃ b, (pending q.pendingRecons).Perm (b :: pending (q.tryNext (logged ask)).2.pendingRecons)
  accounted : Accounted q blocks

theorem moment_of_sound (hq : q.Sound) (h : Accounted q blocks) : Moment ask q blocks where
  shardCursor := hq.shardCursor
  seen i d _ := by
    rw [hq.shardCursor]
    exact UInt32.not_lt_zero
  removes := perm_of_goes_on (logged ask) hq
  accounted := h

/-- **What becomes of every block**, whatever the integrator answers: between the calls of
`addBlock`, and after any number of rounds of the loop of the next one. -/
theorem pending_partition (w : σ) (calls : List Submission) :
    ((after ask o w calls).1.pendingRecons.Clean ∧
      Moment ask (after ask o w calls).1 (after ask o w calls).2) ∧
    ∀ c d, decodeBlock o c.binData = some d →
      rounds (logged ask)
          ((pending ((after ask o w calls).1.submitted c.index d).pendingRecons).length + 1)
          ((after ask o w calls).1.submitted c.index d) =
        (false, (after ask o w (calls ++ [c])).1) ∧
      ∀ n, Moment ask (rounds (logged ask) n ((after ask o w calls).1.submitted c.index d)).2
        (after ask o w (calls ++ [c])).2 := by
  obtain ⟨hq, h⟩ := accounted_after ask o w calls
  refine ⟨⟨hq.clean, moment_of_sound ask hq h⟩, fun c d hd => ⟨?_, fun n => ?_⟩⟩
  · rw [rounds_eq (logged ask) (sound_submitted hq hd) (Nat.lt_succ_self _), after_append,
      addBlock_eq (logged ask) o hd]
  · obtain ⟨hsound, haccounted⟩ := (h.submitted hq hd).rounds ask (sound_submitted hq hd) n
    rw [after_append]
    exact moment_of_sound ask hsound haccounted

/-! ### Without the log -/

/-- The state without the log. -/
def forget (q : BlockIntegrator (σ × List Verdict)) : BlockIntegrator σ :=
  { dbIntegrator := q.dbIntegrator.1
    pendingRecons := q.pendingRecons
    shardCursor := q.shardCursor }

theorem forget_tryNext (q : BlockIntegrator (σ × List Verdict)) :
    q.forget.tryNext ask = ((q.tryNext (logged ask)).1, (q.tryNext (logged ask)).2.forget) := by
  unfold tryNext forget
  cases hfirst : SortedMap.first q.pendingRecons with
  | none => rfl
  | some e =>
    obtain ⟨recon, pendingShards⟩ := e
    simp only
    by_cases hempty : pendingShards.isEmpty = true
    · simp only [if_pos hempty]
    · simp only [if_neg hempty]
      cases PendingRecons.nextBlock q.shardCursor pendingShards with
      | none => rfl
      | some e => rfl

theorem forget_tryIntegrate (q : BlockIntegrator (σ × List Verdict)) :
    q.forget.tryIntegrate ask = (q.tryIntegrate (logged ask)).forget := by
  fun_induction tryIntegrate (logged ask) q with
  | case1 q h ih =>
    rw [tryIntegrate_of_go ask (by rw [forget_tryNext, h]), forget_tryNext, ih]
  | case2 q h =>
    rw [tryIntegrate_of_stop ask (by rw [forget_tryNext]; simpa using h), forget_tryNext]

theorem forget_addBlock (q : BlockIntegrator (σ × List Verdict)) (c : Submission) :
    q.forget.addBlock ask o c = (q.addBlock (logged ask) o c).forget := by
  cases hd : decodeBlock o c.binData with
  | none => simp only [addBlock, hd]
  | some d =>
    rw [addBlock_eq ask o hd, addBlock_eq (logged ask) o hd]
    exact forget_tryIntegrate ask (q.submitted c.index d)

/-- **The log changes nothing**: these are the calls of `addBlock`. -/
theorem forget_after (w : σ) (calls : List Submission) :
    (after ask o w calls).1.forget = calls.foldl (addBlock ask o) { dbIntegrator := w } := by
  induction calls using List.reverseRecOn with
  | nil => rfl
  | append_singleton calls c ih =>
    rw [after_append, List.foldl_append, ← ih, List.foldl_cons, List.foldl_nil, forget_addBlock]

end Account

end BlockIntegrator

end Fluffycoin
