import Fluffycoin.Curator.BlockIntegrator

/-!
# The pending maps as one map

The three levels of `pendingRecons`, read as one map from indexes to blocks, and `tryNext` in those
terms.

* `lookup p i`: the block waiting at `i`. `place` adds one where none is, `removeBlock` takes one
  out, and neither touches another index (`lookup_place`, `lookup_removeBlock`).
* `Clean`: no shard and no reconciliation is left without blocks. The maps are then determined by
  `lookup` (`Clean.ext`).
* `head p`: the block waiting at the least index, in the order of reconciliation, shard and block
  number (`head_eq_some_iff`).
* `Sound`: what holds of a `BlockIntegrator` between rounds. The shard cursor is still 0, so it
  hides nothing, and the copy `tryNext` makes of a block is the block, since it was decoded.
  A round then asks about `head` and nothing else (`tryNext_of_head`).
-/

namespace Fluffycoin

open Std (ExtTreeMap)
open Fluffycoin.Ossl

/-- By reconciliation, then shard, then block number. -/
instance : LE Index where
  le i j := i.recon < j.recon ∨ i.recon = j.recon ∧
    (i.shard < j.shard ∨ i.shard = j.shard ∧ i.block ≤ j.block)

theorem Index.recon_le {i j : Index} (h : i ≤ j) : i.recon ≤ j.recon := by
  rcases h with h | ⟨h, _⟩
  · exact UInt32.le_of_lt h
  · exact UInt32.le_of_eq h

theorem Index.le_refl (i : Index) : i ≤ i := .inr ⟨rfl, .inr ⟨rfl, UInt32.le_refl _⟩⟩

theorem Index.le_antisymm {i j : Index} (h : i ≤ j) (h' : j ≤ i) : i = j := by
  obtain ⟨r, s, b⟩ := i
  obtain ⟨r', s', b'⟩ := j
  have hr : r = r' := UInt32.le_antisymm (recon_le h) (recon_le h')
  subst hr
  obtain ⟨_, h⟩ := h.resolve_left (UInt32.lt_irrefl r)
  obtain ⟨_, h'⟩ := h'.resolve_left (UInt32.lt_irrefl r)
  have hs : s = s' := by
    rcases h with h | ⟨h, _⟩
    · rcases h' with h' | ⟨h', _⟩
      · exact absurd h' (UInt32.lt_asymm h)
      · exact h'.symm
    · exact h
  subst hs
  obtain ⟨_, h⟩ := h.resolve_left (UInt32.lt_irrefl s)
  obtain ⟨_, h'⟩ := h'.resolve_left (UInt32.lt_irrefl s)
  exact congrArg (Index.mk r s) (UInt32.le_antisymm h h')

namespace PendingRecons

open SortedMap (under NoEmpty first)

variable {p q : PendingRecons} {i j : Index} {data : Block}

/-- The block waiting at an index. -/
def lookup (p : PendingRecons) (i : Index) : Option Block :=
  (under (under p i.recon) i.shard)[i.block]?

theorem lookup_empty (i : Index) : lookup ∅ i = none := rfl

theorem lookup_of_getElem? {pendingShards : PendingRecon} {pendingBlocks : PendingShard}
    (hr : p[i.recon]? = some pendingShards) (hs : pendingShards[i.shard]? = some pendingBlocks) :
    lookup p i = pendingBlocks[i.block]? := by
  rw [lookup, SortedMap.under_of_getElem? hr, SortedMap.under_of_getElem? hs]

theorem lookup_eq_some_iff :
    lookup p i = some data ↔ ∃ pendingShards pendingBlocks, p[i.recon]? = some pendingShards ∧
      pendingShards[i.shard]? = some pendingBlocks ∧ pendingBlocks[i.block]? = some data := by
  constructor
  · intro h
    unfold lookup under at h
    cases hr : p[i.recon]? with
    | none =>
      rw [hr] at h
      cases h
    | some pendingShards =>
      rw [hr, Option.getD_some] at h
      cases hs : pendingShards[i.shard]? with
      | none =>
        rw [hs] at h
        cases h
      | some pendingBlocks =>
        rw [hs, Option.getD_some] at h
        exact ⟨pendingShards, pendingBlocks, rfl, hs, h⟩
  · rintro ⟨pendingShards, pendingBlocks, hr, hs, hb⟩
    rw [lookup_of_getElem? hr hs, hb]

/-- What `place` and `removeBlock` have in common: both set the blocks of one shard. -/
theorem lookup_update {pendingBlocks : PendingShard}
    (hr : ∀ r, under q r = if r = i.recon then under q i.recon else under p r)
    (hs : ∀ s, under (under q i.recon) s =
      if s = i.shard then pendingBlocks else under (under p i.recon) s)
    (hb : ∀ b, b ≠ i.block → pendingBlocks[b]? = (under (under p i.recon) i.shard)[b]?) :
    lookup q j = if j = i then pendingBlocks[i.block]? else lookup p j := by
  obtain ⟨r, s, b⟩ := j
  unfold lookup
  by_cases hri : r = i.recon
  · subst hri
    rw [hs]
    by_cases hsi : s = i.shard
    · subst hsi
      rw [if_pos rfl]
      by_cases hbi : b = i.block
      · subst hbi
        rw [if_pos rfl]
      · rw [if_neg (fun he => hbi (congrArg Index.block he)), hb b hbi]
    · rw [if_neg hsi, if_neg (fun he => hsi (congrArg Index.shard he))]
  · rw [hr, if_neg hri, if_neg (fun he => hri (congrArg Index.recon he))]

theorem lookup_place :
    lookup (p.place i data) j = if j = i then some ((lookup p i).getD data) else lookup p j := by
  have hself : ((under (under p i.recon) i.shard).insertIfNew i.block data)[i.block]? =
      some ((lookup p i).getD data) := by
    unfold lookup
    rw [ExtTreeMap.getElem?_insertIfNew]
    cases h : (under (under p i.recon) i.shard)[i.block]? with
    | none => simp [ExtTreeMap.mem_iff_isSome_getElem?, h]
    | some d => simp [ExtTreeMap.mem_iff_isSome_getElem?, h]
  rw [← hself]
  refine lookup_update (fun r => ?_) (fun s => ?_) fun b hb => ?_
  · unfold place
    simp only [SortedMap.under_insert, if_true]
  · unfold place
    simp only [SortedMap.under_insert, if_true]
  · rw [ExtTreeMap.getElem?_insertIfNew]
    simp [hb.symm]

theorem lookup_removeBlock :
    lookup (p.removeBlock i) j = if j = i then none else lookup p j := by
  have hmissing (h : ∀ d, lookup p i ≠ some d) :
      lookup p j = if j = i then none else lookup p j := by
    split
    · rename_i hj
      rw [hj, Option.eq_none_iff_forall_ne_some.mpr h]
    · rfl
  unfold removeBlock
  cases hr : p[i.recon]? with
  | none =>
    refine hmissing fun d h => ?_
    obtain ⟨_, _, hr', _⟩ := lookup_eq_some_iff.mp h
    rw [hr] at hr'
    cases hr'
  | some pendingShards =>
    simp only
    cases hs : pendingShards[i.shard]? with
    | none =>
      refine hmissing fun d h => ?_
      obtain ⟨_, _, hr', hs', _⟩ := lookup_eq_some_iff.mp h
      rw [hr, Option.some.injEq] at hr'
      rw [← hr', hs] at hs'
      cases hs'
    | some pendingBlocks =>
      simp only
      have hr' := SortedMap.under_of_getElem? hr
      have hs' := SortedMap.under_of_getElem? hs
      rw [← ExtTreeMap.getElem?_erase_self (t := pendingBlocks) (k := i.block)]
      refine lookup_update (fun r => ?_) (fun s => ?_) fun b hb => ?_
      · simp only [SortedMap.under_store, if_true]
      · simp only [SortedMap.under_store, if_true, hr']
      · rw [ExtTreeMap.getElem?_erase, hr', hs']
        simp [hb.symm]

/-! ### No empty maps -/

/-- No reconciliation without shards, and no shard without blocks. -/
structure Clean (p : PendingRecons) : Prop where
  recons : NoEmpty p
  shards : ∀ r, NoEmpty (under p r)

theorem clean_empty : Clean ∅ where
  recons := SortedMap.noEmpty_empty
  shards _ := SortedMap.noEmpty_empty

theorem Clean.place (h : Clean p) : Clean (p.place i data) := by
  have hshards : NoEmpty ((under p i.recon).insert i.shard
      ((under (under p i.recon) i.shard).insertIfNew i.block data)) :=
    (h.shards i.recon).insert (by simp)
  refine ⟨h.recons.insert (by simp), fun r => ?_⟩
  unfold PendingRecons.place
  rw [SortedMap.under_insert]
  split
  · exact hshards
  · exact h.shards r

theorem Clean.removeBlock (h : Clean p) : Clean (p.removeBlock i) := by
  unfold PendingRecons.removeBlock
  cases hr : p[i.recon]? with
  | none => exact h
  | some pendingShards =>
    simp only
    cases hs : pendingShards[i.shard]? with
    | none => exact h
    | some pendingBlocks =>
      refine ⟨h.recons.store, fun r => ?_⟩
      rw [SortedMap.under_store]
      split
      · have hshards := h.shards i.recon
        rw [SortedMap.under_of_getElem? hr] at hshards
        exact hshards.store
      · exact h.shards r

/-- The pending maps are what `lookup` shows of them. -/
theorem Clean.ext (hp : Clean p) (hq : Clean q) (h : ∀ i, lookup p i = lookup q i) : p = q :=
  hp.recons.ext hq.recons fun r => (hp.shards r).ext (hq.shards r) fun s =>
    ExtTreeMap.ext_getElem? fun b => h ⟨r, s, b⟩

theorem removeBlock_place (hp : Clean p) (hfree : lookup p i = none) :
    (p.place i data).removeBlock i = p := by
  refine hp.place.removeBlock.ext hp fun j => ?_
  rw [lookup_removeBlock, lookup_place]
  by_cases hj : j = i
  · rw [if_pos hj, hj, hfree]
  · rw [if_neg hj, if_neg hj]

/-! ### The head -/

/-- The first block of the first shard of the first reconciliation. -/
def head (p : PendingRecons) : Option (Index × Block) :=
  (first p).bind fun (recon, pendingShards) =>
    (first pendingShards).bind fun (shard, pendingBlocks) =>
      (first pendingBlocks).map fun (block, data) => (⟨recon, shard, block⟩, data)

theorem head_eq_none_iff (h : Clean p) : head p = none ↔ ∀ i, lookup p i = none := by
  constructor
  · intro hnone i
    suffices hp : p = ∅ by rw [hp, lookup_empty]
    rw [← SortedMap.first_eq_none_iff]
    by_contra hfirst
    obtain ⟨⟨r, pendingShards⟩, hr⟩ := Option.ne_none_iff_exists'.mp hfirst
    have hr' := SortedMap.getElem?_of_first hr
    obtain ⟨⟨s, pendingBlocks⟩, hs⟩ := Option.ne_none_iff_exists'.mp
      (mt SortedMap.first_eq_none_iff.mp (h.recons r pendingShards hr'))
    have hshards := h.shards r
    rw [SortedMap.under_of_getElem? hr'] at hshards
    obtain ⟨⟨b, data⟩, hb⟩ := Option.ne_none_iff_exists'.mp
      (mt SortedMap.first_eq_none_iff.mp (hshards s pendingBlocks (SortedMap.getElem?_of_first hs)))
    simp only [head, hr, hs, hb, Option.bind_some, Option.map_some] at hnone
    cases hnone
  · intro hall
    have hp : p = ∅ := h.ext clean_empty fun i => by rw [hall, lookup_empty]
    rw [hp]
    rfl

theorem head_eq_some (h : head p = some (i, data)) :
    ∃ pendingShards pendingBlocks, first p = some (i.recon, pendingShards) ∧
      first pendingShards = some (i.shard, pendingBlocks) ∧
      first pendingBlocks = some (i.block, data) := by
  unfold head at h
  obtain ⟨⟨r, pendingShards⟩, hr, h⟩ := Option.bind_eq_some_iff.mp h
  obtain ⟨⟨s, pendingBlocks⟩, hs, h⟩ := Option.bind_eq_some_iff.mp h
  obtain ⟨⟨b, data'⟩, hb, h⟩ := Option.map_eq_some_iff.mp h
  rw [Prod.mk.injEq] at h
  obtain ⟨rfl, rfl⟩ := h
  exact ⟨pendingShards, pendingBlocks, hr, hs, hb⟩

/-- The first key of a map of maps is the least. -/
theorem le_of_first {κ : Type} {m : ExtTreeMap UInt32 κ} {k k' : UInt32} {v v' : κ}
    (h : first m = some (k, v)) (h' : m[k']? = some v') : k ≤ k' :=
  Std.isLE_compare.mp ((SortedMap.first_eq_some_iff.mp h).2 k'
    (ExtTreeMap.mem_iff_isSome_getElem?.mpr (by rw [h']; rfl)))

theorem lookup_of_head (h : head p = some (i, data)) :
    lookup p i = some data ∧ ∀ j d, lookup p j = some d → i ≤ j := by
  obtain ⟨pendingShards, pendingBlocks, hr, hs, hb⟩ := head_eq_some h
  have hr' := SortedMap.getElem?_of_first hr
  have hs' := SortedMap.getElem?_of_first hs
  refine ⟨lookup_eq_some_iff.mpr ⟨_, _, hr', hs', SortedMap.getElem?_of_first hb⟩,
    fun j d hj => ?_⟩
  obtain ⟨shards, blocks, hjr, hjs, hjb⟩ := lookup_eq_some_iff.mp hj
  -- level by level: a strict inequality decides, an equality leads into the same inner map
  rcases UInt32.lt_or_eq_of_le (le_of_first hr hjr) with hlt | heq
  · exact .inl hlt
  · refine .inr ⟨heq, ?_⟩
    rw [← heq, hr', Option.some.injEq] at hjr
    subst hjr
    rcases UInt32.lt_or_eq_of_le (le_of_first hs hjs) with hlt | heq
    · exact .inl hlt
    · refine .inr ⟨heq, ?_⟩
      rw [← heq, hs', Option.some.injEq] at hjs
      subst hjs
      exact le_of_first hb hjb

/-- **The head is the block at the least pending index.** -/
theorem head_eq_some_iff (hp : Clean p) :
    head p = some (i, data) ↔
      lookup p i = some data ∧ ∀ j d, lookup p j = some d → i ≤ j := by
  refine ⟨lookup_of_head, fun ⟨hi, hle⟩ => ?_⟩
  have hne : head p ≠ none := fun hnone => by
    rw [(head_eq_none_iff hp).mp hnone i] at hi
    cases hi
  obtain ⟨⟨i', data'⟩, hhead⟩ := Option.ne_none_iff_exists'.mp hne
  obtain ⟨hi', hle'⟩ := lookup_of_head hhead
  obtain rfl := Index.le_antisymm (hle' i data hi) (hle i' data' hi')
  rw [hi, Option.some.injEq] at hi'
  rw [hhead, hi']

/-- A block put before all others is the head. -/
theorem head_place_first (hp : Clean p) (hfree : lookup p i = none)
    (hle : ∀ j d, lookup p j = some d → i ≤ j) : head (p.place i data) = some (i, data) := by
  refine (head_eq_some_iff hp.place).mpr ⟨?_, fun j d hj => ?_⟩
  · rw [lookup_place, if_pos rfl, hfree, Option.getD_none]
  · rw [lookup_place] at hj
    split at hj
    · rename_i hji
      rw [hji]
      exact Index.le_refl i
    · exact hle j d hj

/-- With the cursor at 0 the two loops stop at the first block of the first shard. -/
theorem nextBlock_zero {pendingShards : PendingRecon} {pendingBlocks : PendingShard}
    {shard block : UInt32} (hs : first pendingShards = some (shard, pendingBlocks))
    (hb : first pendingBlocks = some (block, data)) :
    nextBlock 0 pendingShards = some (shard, block, data) := by
  obtain ⟨rest, hlist⟩ : ∃ rest, pendingShards.toList = (shard, pendingBlocks) :: rest := by
    unfold SortedMap.first at hs
    exact List.head?_eq_some_iff.mp hs
  unfold nextBlock
  rw [hlist, List.findSome?_cons]
  simp only [UInt32.not_lt_zero, if_false, hb, Option.map_some]

end PendingRecons

namespace BlockIntegrator

open PendingRecons (lookup head)

variable {σ : Type} {ask : σ → Block → Index → Result × σ} {q : BlockIntegrator σ}

/-- What holds between rounds. -/
structure Sound (q : BlockIntegrator σ) : Prop where
  clean : q.pendingRecons.Clean
  shardCursor : q.shardCursor = 0
  copied : ∀ i d, lookup q.pendingRecons i = some d → Block.copyAssign d = d

theorem sound_mk (w : σ) : Sound { dbIntegrator := w } where
  clean := PendingRecons.clean_empty
  shardCursor := rfl
  copied i d h := by
    rw [PendingRecons.lookup_empty] at h
    cases h

/-- The pending maps after an answer about the block at `i`. -/
def settle (p : PendingRecons) (i : Index) (ret : Result) : PendingRecons :=
  if isSuccess ret || isBadBlock ret then p.removeBlock i else p

theorem lookup_settle {p : PendingRecons} {i j : Index} {ret : Result} :
    lookup (settle p i ret) j =
      if (isSuccess ret || isBadBlock ret) = true ∧ j = i then none else lookup p j := by
  unfold settle
  split
  · rename_i h
    rw [PendingRecons.lookup_removeBlock]
    simp [h]
  · rename_i h
    simp [h]

theorem lookup_of_settle {p : PendingRecons} {i j : Index} {ret : Result} {d : Block}
    (h : lookup (settle p i ret) j = some d) : lookup p j = some d := by
  rw [lookup_settle] at h
  split at h
  · cases h
  · exact h

theorem tryNext_of_none (hq : q.Sound) (h : head q.pendingRecons = none) :
    q.tryNext ask = (false, q) := by
  have hp : q.pendingRecons = ∅ := hq.clean.ext PendingRecons.clean_empty fun i => by
    rw [(PendingRecons.head_eq_none_iff hq.clean).mp h, PendingRecons.lookup_empty]
  unfold tryNext
  rw [SortedMap.first_eq_none_iff.mpr hp]

/-- **One round** asks about the head. -/
theorem tryNext_of_head (hq : q.Sound) {i : Index} {d : Block}
    (h : head q.pendingRecons = some (i, d)) :
    q.tryNext ask = (isSuccess (ask q.dbIntegrator d i).1,
      { q with dbIntegrator := (ask q.dbIntegrator d i).2
               pendingRecons := settle q.pendingRecons i (ask q.dbIntegrator d i).1 }) := by
  obtain ⟨pendingShards, pendingBlocks, hr, hs, hb⟩ := PendingRecons.head_eq_some h
  have hne : ¬ pendingShards.isEmpty = true := fun hempty => by
    rw [ExtTreeMap.isEmpty_iff.mp hempty] at hs
    cases hs
  have hcopy := hq.copied i d (PendingRecons.lookup_of_head h).1
  unfold tryNext
  simp only [hr, if_neg hne, hq.shardCursor, PendingRecons.nextBlock_zero hs hb, hcopy, settle]

theorem Sound.tryNext (hq : q.Sound) : (q.tryNext ask).2.Sound := by
  cases h : head q.pendingRecons with
  | none =>
    rw [tryNext_of_none hq h]
    exact hq
  | some e =>
    obtain ⟨i, d⟩ := e
    rw [tryNext_of_head hq h]
    refine ⟨?_, hq.shardCursor, fun j d' hj => hq.copied j d' (lookup_of_settle hj)⟩
    simp only [settle]
    split
    · exact hq.clean.removeBlock
    · exact hq.clean

/-- A block is filed where none is. -/
def file (q : BlockIntegrator σ) (i : Index) (d : Block) : BlockIntegrator σ :=
  { q with pendingRecons := q.pendingRecons.place i d }

theorem lookup_file {i j : Index} {d : Block} :
    lookup (q.file i d).pendingRecons j =
      if j = i then some ((lookup q.pendingRecons i).getD d) else lookup q.pendingRecons j :=
  PendingRecons.lookup_place

/-- What is pending after filing was so before, or is the block that found its slot free. -/
theorem lookup_of_file {i j : Index} {d d' : Block}
    (h : lookup (q.file i d).pendingRecons j = some d') :
    lookup q.pendingRecons j = some d' ∨
      (j = i ∧ d' = d ∧ lookup q.pendingRecons i = none) := by
  rw [lookup_file] at h
  split at h
  · rename_i hji
    subst hji
    cases hj : lookup q.pendingRecons j with
    | none =>
      rw [hj, Option.getD_none, Option.some.injEq] at h
      exact .inr ⟨rfl, h.symm, rfl⟩
    | some d₀ =>
      rw [hj, Option.getD_some] at h
      exact .inl h
  · exact .inl h

theorem Sound.file (hq : q.Sound) {i : Index} {d : Block} (hd : Block.copyAssign d = d) :
    (q.file i d).Sound where
  clean := hq.clean.place
  shardCursor := hq.shardCursor
  copied j d' h := by
    rcases lookup_of_file h with hj | ⟨_, rfl, _⟩
    · exact hq.copied j d' hj
    · exact hd

theorem head_file_first (hq : q.Sound) {i : Index} (d : Block)
    (hfree : lookup q.pendingRecons i = none)
    (hle : ∀ j d', lookup q.pendingRecons j = some d' → i ≤ j) :
    head (q.file i d).pendingRecons = some (i, d) :=
  PendingRecons.head_place_first hq.clean hfree hle

/-- A block filed behind the head leaves it in place. -/
theorem head_file_behind (hq : q.Sound) {i j : Index} (d : Block) {d' : Block}
    (hhead : head q.pendingRecons = some (j, d')) (hji : j ≤ i) :
    head (q.file i d).pendingRecons = some (j, d') := by
  obtain ⟨hlookup, hle⟩ := PendingRecons.lookup_of_head hhead
  refine (PendingRecons.head_eq_some_iff hq.clean.place).mpr ⟨?_, fun k d₀ hk => ?_⟩
  · rw [PendingRecons.lookup_place]
    split
    · rename_i he
      rw [← he, hlookup, Option.getD_some]
    · exact hlookup
  · rw [PendingRecons.lookup_place] at hk
    split at hk
    · rename_i hki
      rw [hki]
      exact hji
    · exact hle k d₀ hk

theorem addBlock_of_some {o : OpenSsl} (hq : q.Sound) {c : Submission} {d : Block}
    (h : decodeBlock o c.binData = some d) :
    q.addBlock ask o c = (q.file c.index d).tryIntegrate ask := by
  unfold addBlock file
  rw [h]
  simp only [hq.shardCursor, gt_iff_lt, UInt32.not_lt_zero, if_false]

/-- **The loop rule on sound states**, with the last round in the words of `head`. -/
theorem Sound.tryIntegrate (ask : σ → Block → Index → Result × σ) (Inv : BlockIntegrator σ → Prop)
    (hstep : ∀ q i d, q.Sound → Inv q → head q.pendingRecons = some (i, d) →
      Inv (q.tryNext ask).2) (hq : q.Sound) (hinv : Inv q) :
    (q.tryIntegrate ask).Sound ∧ Inv (q.tryIntegrate ask) ∧
      (head (q.tryIntegrate ask).pendingRecons = none ∨
        ∃ t i d, t.Sound ∧ Inv t ∧ head t.pendingRecons = some (i, d) ∧
          t.tryNext ask = (false, q.tryIntegrate ask)) := by
  have hround : ∀ t : BlockIntegrator σ, t.Sound ∧ Inv t →
      (t.tryNext ask).2.Sound ∧ Inv (t.tryNext ask).2 := by
    rintro t ⟨ht, hinv⟩
    refine ⟨ht.tryNext, ?_⟩
    cases h : head t.pendingRecons with
    | none =>
      rw [tryNext_of_none ht h]
      exact hinv
    | some e => exact hstep t e.1 e.2 ht hinv h
  obtain ⟨t, ⟨ht, hinvt⟩, hlast⟩ := tryIntegrate_rule ask _ hround q ⟨hq, hinv⟩
  have hend := hround t ⟨ht, hinvt⟩
  rw [hlast] at hend
  refine ⟨hend.1, hend.2, ?_⟩
  cases h : head t.pendingRecons with
  | none =>
    rw [tryNext_of_none ht h, Prod.mk.injEq] at hlast
    rw [← hlast.2, h]
    exact .inl rfl
  | some e => exact .inr ⟨t, e.1, e.2, ht, hinvt, h, hlast⟩

end BlockIntegrator

end Fluffycoin
