import Fluffycoin.Curator.Host

/-!
# Loading a chain in any order

`LoadFromFs::init` hands the files of a directory to `addBlock` in the order the file system lists
them (`LoadFromFs.cpp:53-73`). This module shows that the order does not matter for the blocks of
one chain: with some of them missing, the blocks before the first gap are integrated, in order, and
the ones behind it wait.

* `Loading l k q`: of the blocks numbered in `l`, those below `k` are integrated and the others
  pending.
* `Loading.round`: a round of the loop takes block `k` if it has arrived, and otherwise stops.
* `Loading.addBlock`, `loading_run`: so after every `addBlock` the number `k` is the first one
  missing.
* **`load_order`**: the final state, and that it is the same for every order.
-/

namespace Fluffycoin

open Fluffycoin.Ossl
open PendingRecons (lookup head)

variable {o : OpenSsl} {tables : Database} {chain : List Block} {envs : Nat → Env}

/-- Of the blocks numbered in `l`, those below `k` are integrated and the others pending. -/
structure Loading (o : OpenSsl) (tables : Database) (chain : List Block) (l : List Nat) (k : Nat)
    (q : BlockIntegrator Host) : Prop where
  follows : Follows o tables chain q.dbIntegrator k
  pending : ∀ i d, lookup q.pendingRecons i = some d ↔
    ∃ n ∈ l, k ≤ n ∧ i = chainIndex n ∧ chain[n]? = some d
  below : ∀ n < k, n ∈ l

theorem loading_start (o : OpenSsl) (tables : Database) (chain : List Block) :
    Loading o tables chain [] 0 (BlockIntegrator.start tables) where
  follows := follows_start o tables chain
  pending i d := iff_of_false (fun h => by cases h) fun ⟨n, hn, _⟩ => by cases hn
  below n hn := absurd hn (Nat.not_lt_zero n)

section Rounds

variable {l : List Nat} {k n : Nat} {q : BlockIntegrator Host}

/-- Without block `n`, what is pending from `n` on is pending from `n + 1` on. -/
theorem Loading.lookup_settle_iff (hl : Loads o tables chain) (hmem : ∀ n ∈ l, n < chain.length)
    (hn : n ∈ l) (h : Loading o tables chain l n q) (j : Index) (d : Block) :
    lookup (BlockIntegrator.settle q.pendingRecons (chainIndex n) .success) j = some d ↔
      ∃ m ∈ l, n + 1 ≤ m ∧ j = chainIndex m ∧ chain[m]? = some d := by
  have hlen := hl.length_le
  have hnlt := hmem n hn
  rw [BlockIntegrator.lookup_settle]
  by_cases hj : j = chainIndex n
  · rw [if_pos ⟨rfl, hj⟩]
    refine iff_of_false (fun hnone => by cases hnone) fun ⟨m, hm, hnm, hjm, _⟩ => ?_
    have := chainIndex_inj (by omega) (by have := hmem m hm; omega) (hj.symm.trans hjm)
    omega
  · rw [if_neg fun hc => hj hc.2, h.pending j d]
    constructor
    · rintro ⟨m, hm, hnm, rfl, hd⟩
      exact ⟨m, hm, Nat.lt_of_le_of_ne hnm fun he => hj (by rw [he]), rfl, hd⟩
    · rintro ⟨m, hm, hnm, hjm, hd⟩
      exact ⟨m, hm, Nat.le_of_succ_le hnm, hjm, hd⟩

/-- If a later block is the head, block `k` has not arrived: it would be pending before that. -/
theorem Loading.notMem_of_head (hl : Loads o tables chain) (hmem : ∀ n ∈ l, n < chain.length)
    (h : Loading o tables chain l k q) (hn : n ∈ l) (hkn : k < n) {d : Block}
    (hhead : head q.pendingRecons = some (chainIndex n, d)) : k ∉ l := by
  intro hk
  have hlen := hl.length_le
  have hnlt := hmem n hn
  have hkd : lookup q.pendingRecons (chainIndex k) = some chain[k] :=
    (h.pending _ _).mpr ⟨k, hk, Nat.le_refl k, rfl, List.getElem?_eq_getElem (hmem k hk)⟩
  have hleast := (PendingRecons.lookup_of_head hhead).2
  have hle := UInt32.le_iff_toNat_le.mp (Index.recon_le (hleast _ _ hkd))
  rw [toNat_chainIndex (by omega), toNat_chainIndex (by omega)] at hle
  omega

/-- **One round**: block `k` is taken, or it has not arrived and the loop stops. -/
theorem Loading.round (hl : Loads o tables chain) (hok : ∀ n, (envs n).toLink.Ok)
    (hmem : ∀ n ∈ l, n < chain.length) (hq : q.Sound) (h : Loading o tables chain l k q)
    {i : Index} {d : Block} (hhead : head q.pendingRecons = some (i, d)) :
    ((q.tryNext (Host.ask o envs)).1 = true ∧
        Loading o tables chain l (k + 1) (q.tryNext (Host.ask o envs)).2) ∨
      ((q.tryNext (Host.ask o envs)).1 = false ∧ k ∉ l ∧
        Loading o tables chain l k (q.tryNext (Host.ask o envs)).2) := by
  obtain ⟨n, hn, hkn, rfl, hd⟩ := (h.pending i d).mp (PendingRecons.lookup_of_head hhead).1
  have hask := h.follows.ask_chain hl hok hd
  have hstep := h.follows.ask hl hok (.inl ⟨n, hd, rfl⟩)
  rw [BlockIntegrator.tryNext_of_head hq hhead]
  by_cases hnk : n = k
  · subst hnk
    rw [if_pos rfl] at hask
    rcases hstep with ⟨_, _, _, hfollows⟩ | ⟨hne, _⟩
    · refine .inl ⟨by rw [hask]; rfl, hfollows, fun j d' => ?_, fun m hm => ?_⟩
      · rw [hask]
        exact h.lookup_settle_iff hl hmem hn j d'
      · rcases Nat.lt_or_eq_of_le (Nat.le_of_lt_succ hm) with hlt | rfl
        · exact h.below m hlt
        · exact hn
    · exact absurd hask hne
  · have hlt : k < n := by omega
    rw [if_neg hnk, if_pos hlt] at hask
    rcases hstep with ⟨hs, _⟩ | ⟨_, hfollows⟩
    · rw [hask] at hs
      cases hs
    · refine .inr ⟨by rw [hask]; rfl, h.notMem_of_head hl hmem hn hlt hhead, hfollows,
        fun j d' => ?_, h.below⟩
      rw [hask]
      exact h.pending j d'

/-- Block `n` is filed. -/
theorem Loading.file (hl : Loads o tables chain) (hmem : ∀ m ∈ l ++ [n], m < chain.length)
    (hn : n ∉ l) (h : Loading o tables chain l k q) {b : Block} (hb : chain[n]? = some b) :
    Loading o tables chain (l ++ [n]) k (q.file (chainIndex n) b) := by
  have hlen := hl.length_le
  have hbound : ∀ m ∈ l ++ [n], m < 2 ^ 32 := fun m hm => by have := hmem m hm; omega
  have hself : n ∈ l ++ [n] := List.mem_append_right l (List.mem_singleton.mpr rfl)
  have hkn : k ≤ n := Nat.le_of_not_lt fun hlt => hn (h.below n hlt)
  refine ⟨h.follows, fun j d => ?_, fun m hm => List.mem_append_left _ (h.below m hm)⟩
  rw [BlockIntegrator.lookup_file]
  by_cases hj : j = chainIndex n
  · -- the slot was free
    have hfree : lookup q.pendingRecons (chainIndex n) = none :=
      Option.eq_none_iff_forall_ne_some.mpr fun d' hd' => by
        obtain ⟨m, hm, _, he, _⟩ := (h.pending _ d').mp hd'
        rw [chainIndex_inj (hbound n hself) (hbound m (List.mem_append_left _ hm)) he] at hn
        exact hn hm
    rw [if_pos hj, hfree, Option.getD_none]
    constructor
    · intro hd
      exact ⟨n, hself, hkn, hj, hd ▸ hb⟩
    · rintro ⟨m, hm, _, hjm, hd⟩
      have hnm := chainIndex_inj (hbound n hself) (hbound m hm) (hj.symm.trans hjm)
      rw [← hb, hnm, hd]
  · rw [if_neg hj, h.pending j d]
    constructor
    · rintro ⟨m, hm, hkm, hjm, hd⟩
      exact ⟨m, List.mem_append_left _ hm, hkm, hjm, hd⟩
    · rintro ⟨m, hm, hkm, hjm, hd⟩
      rcases List.mem_append.mp hm with hm | hm
      · exact ⟨m, hm, hkm, hjm, hd⟩
      · exact absurd (hjm.trans (congrArg chainIndex (List.mem_singleton.mp hm))) hj

/-- **One `addBlock`** leaves the first missing number as the next one. -/
theorem Loading.addBlock (hl : Loads o tables chain) (hok : ∀ n, (envs n).toLink.Ok)
    (hmem : ∀ m ∈ l ++ [n], m < chain.length) (hn : n ∉ l) (hq : q.Sound)
    (h : Loading o tables chain l k q) {b : Block} (hb : chain[n]? = some b) {data : Bytes}
    (hdata : decodeBlock o data = some b) :
    ∃ k', k' ∉ l ++ [n] ∧ (q.addBlock (Host.ask o envs) o ⟨data, chainIndex n⟩).Sound ∧
      Loading o tables chain (l ++ [n]) k'
        (q.addBlock (Host.ask o envs) o ⟨data, chainIndex n⟩) := by
  rw [BlockIntegrator.addBlock_of_some hq hdata]
  have hfile : ∃ k, Loading o tables chain (l ++ [n]) k (q.file (chainIndex n) b) :=
    ⟨k, h.file hl hmem hn hb⟩
  have hsound : (q.file (chainIndex n) b).Sound := hq.file (Block.copyAssign_decodeBlock hdata)
  obtain ⟨hsound', ⟨k', hloading⟩, hend⟩ := hsound.tryIntegrate (Host.ask o envs)
    (fun t => ∃ k, Loading o tables chain (l ++ [n]) k t) (fun t i d ht ⟨k, hk⟩ hhead => by
      rcases hk.round hl hok hmem ht hhead with ⟨_, hnext⟩ | ⟨_, _, hstay⟩
      · exact ⟨k + 1, hnext⟩
      · exact ⟨k, hstay⟩) hfile
  rcases hend with hempty | ⟨t, i, d, ht, ⟨k, hk⟩, hhead, hlast⟩
  · -- nothing is left pending, so block `k'` has not arrived
    refine ⟨k', fun hk' => ?_, hsound', hloading⟩
    have hnone := (PendingRecons.head_eq_none_iff hsound'.clean).mp hempty (chainIndex k')
    have hsome := (hloading.pending (chainIndex k') _).mpr
      ⟨k', hk', Nat.le_refl k', rfl, List.getElem?_eq_getElem (hmem k' hk')⟩
    rw [hnone] at hsome
    cases hsome
  · rcases hk.round hl hok hmem ht hhead with ⟨hgo, _⟩ | ⟨_, hmissing, hstay⟩
    · rw [hlast] at hgo
      cases hgo
    · rw [hlast] at hstay
      exact ⟨k, hmissing, hsound', hstay⟩

end Rounds

/-! ## Every order -/

/-- `addBlock` calls with the files of the blocks numbered in `order`. -/
def loadCalls (files : Nat → Bytes) (order : List Nat) : List BlockIntegrator.Submission :=
  order.map fun n => ⟨files n, chainIndex n⟩

theorem loading_run (hl : Loads o tables chain) (hok : ∀ n, (envs n).toLink.Ok)
    {files : Nat → Bytes}
    (hfiles : ∀ (n : Nat) b, chain[n]? = some b → decodeBlock o (files n) = some b)
    (order : List Nat) (hnodup : order.Nodup) (hmem : ∀ n ∈ order, n < chain.length) :
    ∃ k, k ∉ order ∧ (BlockIntegrator.run o envs tables (loadCalls files order)).Sound ∧
      Loading o tables chain order k
        (BlockIntegrator.run o envs tables (loadCalls files order)) := by
  induction order using List.reverseRecOn with
  | nil =>
    exact ⟨0, List.not_mem_nil, BlockIntegrator.sound_mk _, loading_start o tables chain⟩
  | append_singleton order n ih =>
    have hn : n ∉ order := fun hn =>
      (List.nodup_append.mp hnodup).2.2 n hn n (List.mem_singleton.mpr rfl) rfl
    obtain ⟨k, _, hsound, hloading⟩ := ih (List.nodup_append.mp hnodup).1
      fun m hm => hmem m (List.mem_append_left _ hm)
    have hself : n ∈ order ++ [n] := List.mem_append_right _ (List.mem_singleton.mpr rfl)
    have hb := List.getElem?_eq_getElem (hmem n hself)
    rw [loadCalls, List.map_append, BlockIntegrator.run, Trace.final_append]
    exact hloading.addBlock hl hok hmem hn hsound hb (hfiles n _ hb)

/-- The state in which the blocks of `order` have been loaded and `k` is the first one missing. -/
structure Loaded (o : OpenSsl) (tables : Database) (chain : List Block) (order : List Nat) (k : Nat)
    (q : BlockIntegrator Host) : Prop where
  integrated : q.dbIntegrator.integrated = indexed (chain.take k)
  currentRecon : q.dbIntegrator.system.integrator.currentRecon.toNat = k
  pending : ∀ i d, lookup q.pendingRecons i = some d ↔
    ∃ n ∈ order, k < n ∧ i = chainIndex n ∧ chain[n]? = some d
  clean : q.pendingRecons.Clean
  system : q.dbIntegrator.system.opened = (System.after o tables chain k).opened

/-- What has been loaded determines the state, but for the flag `initialized`. -/
theorem Loaded.unique {order order' : List Nat} {k : Nat} {q q' : BlockIntegrator Host}
    (h : Loaded o tables chain order k q) (h' : Loaded o tables chain order' k q')
    (hsame : ∀ n, n ∈ order' ↔ n ∈ order) :
    q'.pendingRecons = q.pendingRecons ∧
      q'.dbIntegrator.system.opened = q.dbIntegrator.system.opened ∧
      q'.dbIntegrator.integrated = q.dbIntegrator.integrated := by
  refine ⟨h'.clean.ext h.clean fun i => Option.ext fun d => ?_, h'.system.trans h.system.symm,
    h'.integrated.trans h.integrated.symm⟩
  rw [h'.pending, h.pending]
  simp only [hsame]

/-- The cached imports are those of the blocks loaded. -/
theorem Loaded.lastImports {order : List Nat} {k : Nat} {q : BlockIntegrator Host}
    (h : Loaded o tables chain order k q) (hl : Loads o tables chain) (hk : k ≤ chain.length) :
    q.dbIntegrator.system.integrator.lastImports = importsOf o (chain.take k) :=
  calc q.dbIntegrator.system.opened.integrator.lastImports
      = (System.after o tables chain k).opened.integrator.lastImports := by rw [h.system]
    _ = importsOf o (chain.take k) := (hl.tracks hk).lastImports

/-- The first missing number is the one the loading arrives at. -/
theorem loaded_run (hl : Loads o tables chain) (hok : ∀ n, (envs n).toLink.Ok)
    {files : Nat → Bytes}
    (hfiles : ∀ (n : Nat) b, chain[n]? = some b → decodeBlock o (files n) = some b)
    {order : List Nat} (hnodup : order.Nodup) (hmem : ∀ n ∈ order, n < chain.length) {k : Nat}
    (hk : k ∉ order) (hbelow : ∀ n < k, n ∈ order) :
    Loaded o tables chain order k (BlockIntegrator.run o envs tables (loadCalls files order)) := by
  obtain ⟨k', hk', hsound, hloading⟩ := loading_run hl hok hfiles order hnodup hmem
  obtain rfl : k' = k := by
    rcases Nat.lt_trichotomy k' k with hlt | heq | hlt
    · exact absurd (hbelow k' hlt) hk'
    · exact heq
    · exact absurd (hloading.below k hlt) hk
  refine ⟨hloading.follows.integrated, hloading.follows.currentRecon hl, fun i d => ?_,
    hsound.clean, hloading.follows.opened⟩
  rw [hloading.pending]
  constructor
  · rintro ⟨n, hn, hkn, hi, hd⟩
    exact ⟨n, hn, Nat.lt_of_le_of_ne hkn fun he => hk (he ▸ hn), hi, hd⟩
  · rintro ⟨n, hn, hkn, hi, hd⟩
    exact ⟨n, hn, Nat.le_of_lt hkn, hi, hd⟩

/-- **Loading does not depend on the order.** Let the blocks of a chain numbered in `order` be added
once each, in that order, with nothing failing, and let `k` be the first number missing. Then the
first `k` blocks have been integrated, in order and once each, and those behind the gap are pending.
Every other order of the same blocks leads to the same state. -/
theorem load_order (o : OpenSsl) (tables : Database) (chain : List Block)
    (hl : Loads o tables chain) (envs : Nat → Env) (hok : ∀ n, (envs n).toLink.Ok)
    (files : Nat → Bytes)
    (hfiles : ∀ (n : Nat) b, chain[n]? = some b → decodeBlock o (files n) = some b)
    (order : List Nat) (hnodup : order.Nodup) (hmem : ∀ n ∈ order, n < chain.length) (k : Nat)
    (hk : k ∉ order) (hbelow : ∀ n < k, n ∈ order) :
    let q := BlockIntegrator.run o envs tables (loadCalls files order)
    Loaded o tables chain order k q ∧
      ∀ order', order'.Perm order →
        let q' := BlockIntegrator.run o envs tables (loadCalls files order')
        q'.pendingRecons = q.pendingRecons ∧
          q'.dbIntegrator.system.opened = q.dbIntegrator.system.opened ∧
          q'.dbIntegrator.integrated = q.dbIntegrator.integrated := by
  intro q
  have hloaded := loaded_run hl hok hfiles hnodup hmem hk hbelow
  refine ⟨hloaded, fun order' hperm => hloaded.unique ?_ fun n => hperm.mem_iff⟩
  exact loaded_run hl hok hfiles (hperm.nodup_iff.mpr hnodup)
    (fun n hn => hmem n (hperm.mem_iff.mp hn)) (fun hn => hk (hperm.mem_iff.mp hn))
    fun n hn => hperm.mem_iff.mpr (hbelow n hn)

/-- Two blocks, the second one first. -/
theorem load_order_twoBlocks :
    Loaded shortDer {} (twoBlocks shortDer) [1, 0] 2
      (BlockIntegrator.run shortDer (fun _ => {}) {} (loadCalls twoFiles [1, 0])) :=
  (load_order shortDer {} (twoBlocks shortDer) (loads_twoBlocks shortDer) (fun _ => {})
    (fun _ => Link.ok_default) twoFiles decodeBlock_twoFiles [1, 0] (by decide)
    (show ∀ n ∈ [1, 0], n < 2 by decide) 2 (by decide) (by decide)).1

end Fluffycoin
