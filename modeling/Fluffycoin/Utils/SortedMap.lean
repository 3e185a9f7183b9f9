import Mathlib

/-!
# Sorted maps

What a program that keeps its work in sorted maps needs of them, beside the library's lookup lemmas:
the entry an iteration starts at, and sums over the entries, to measure how much is left.

* `first m`: the entry at the start, the one with the least key (`first_eq_some_iff`).
* `store m k v`: the update of a map of maps that keeps no empty one (`NoEmpty.store`); seen through
  `under`, which reads a missing map as an empty one, it is an insertion (`under_store`).
* `total f m`: the sum of `f` over the values; `total_erase` and `total_insert` say how an update
  changes it, `total_erase_lt`, `total_insert_lt` and `total_store_lt` that it went down.
-/

namespace SortedMap

open Std (ExtTreeMap TransCmp LawfulEqCmp)

variable {κ ν : Type} {cmp : κ → κ → Ordering} [TransCmp cmp]

/-- The entry an iteration over the map starts at. -/
def first (m : ExtTreeMap κ ν cmp) : Option (κ × ν) := m.toList.head?

theorem first_eq_none_iff {m : ExtTreeMap κ ν cmp} : first m = none ↔ m = ∅ := by
  rw [first, List.head?_eq_none_iff, ExtTreeMap.toList_eq_nil_iff]

section LawfulEq

variable [LawfulEqCmp cmp] {m : ExtTreeMap κ ν cmp} {k : κ} {v : ν}

theorem getElem?_of_first (h : first m = some (k, v)) : m[k]? = some v :=
  ExtTreeMap.mem_toList_iff_getElem?_eq_some.mp (List.mem_of_head? h)

/-- **The first entry is the one with the least key.** -/
theorem first_eq_some_iff :
    first m = some (k, v) ↔ m[k]? = some v ∧ ∀ k' ∈ m, (cmp k k').isLE = true := by
  have hmin : m.minKey? = (first m).map Prod.fst := by
    rw [ExtTreeMap.minKey?_eq_head?_keys, ← ExtTreeMap.map_fst_toList_eq_keys, List.head?_map,
      first]
  constructor
  · intro h
    rw [h, Option.map_some] at hmin
    exact ⟨getElem?_of_first h, (ExtTreeMap.minKey?_eq_some_iff_mem_and_forall.mp hmin).2⟩
  · rintro ⟨hv, hle⟩
    have hk : k ∈ m := ExtTreeMap.mem_iff_isSome_getElem?.mpr (by rw [hv]; rfl)
    have hmin' := ExtTreeMap.minKey?_eq_some_iff_mem_and_forall.mpr ⟨hk, hle⟩
    rw [hmin, Option.map_eq_some_iff] at hmin'
    obtain ⟨⟨k', v'⟩, hfirst, rfl⟩ := hmin'
    have hv' := getElem?_of_first hfirst
    rw [hv, Option.some.injEq] at hv'
    rw [hfirst, hv']

end LawfulEq

/-! ## Sums over the values -/

/-- The sum of `f` over the values of the map. -/
def total (f : ν → Nat) (m : ExtTreeMap κ ν cmp) : Nat := (m.toList.map fun e => f e.2).sum

section LawfulEq

variable [LawfulEqCmp cmp] {f : ν → Nat} {m : ExtTreeMap κ ν cmp} {k : κ} {v v' : ν}

theorem nodup_toList (m : ExtTreeMap κ ν cmp) : m.toList.Nodup := by
  refine ExtTreeMap.distinct_keys_toList.imp fun {a b} hne hab => hne ?_
  rw [hab]
  exact Std.ReflCmp.compare_self

/-- Lists of things that tell their key, one after the other. -/
theorem nodup_flatMap_toList {γ : Type} {f : κ → ν → List γ} (key : γ → κ)
    (hf : ∀ k v, (f k v).Nodup) (hkey : ∀ k v, ∀ x ∈ f k v, key x = k) (m : ExtTreeMap κ ν cmp) :
    (m.toList.flatMap fun e => f e.1 e.2).Nodup := by
  refine List.nodup_flatMap.mpr ⟨fun e _ => hf e.1 e.2, ?_⟩
  refine ExtTreeMap.distinct_keys_toList.imp fun {a b} hne x ha hb => hne ?_
  rw [← hkey _ _ x ha, ← hkey _ _ x hb]
  exact Std.ReflCmp.compare_self

/-- An entry is listed once, beside those of the map without it. -/
theorem toList_perm_of_getElem? (h : m[k]? = some v) :
    m.toList.Perm ((k, v) :: (m.erase k).toList) := by
  have hnot : (k, v) ∉ (m.erase k).toList := by
    rw [ExtTreeMap.mem_toList_iff_getElem?_eq_some, ExtTreeMap.getElem?_erase_self]
    simp
  refine (List.perm_ext_iff_of_nodup (nodup_toList m)
    (List.nodup_cons.mpr ⟨hnot, nodup_toList _⟩)).mpr fun ⟨k', v'⟩ => ?_
  rw [List.mem_cons, ExtTreeMap.mem_toList_iff_getElem?_eq_some,
    ExtTreeMap.mem_toList_iff_getElem?_eq_some, ExtTreeMap.getElem?_erase, Prod.mk.injEq]
  by_cases hk : k' = k
  · subst hk
    simp [h, eq_comm]
  · have hne : ¬ cmp k k' = .eq := fun he => hk (LawfulEqCmp.eq_of_compare he).symm
    simp [hk, hne]

theorem total_erase (h : m[k]? = some v) : total f m = f v + total f (m.erase k) := by
  unfold total
  rw [((toList_perm_of_getElem? h).map _).sum_eq]
  rfl

theorem total_insert : total f (m.insert k v) = f v + total f (m.erase k) := by
  have herase : (m.insert k v).erase k = m.erase k := by
    refine ExtTreeMap.ext_getElem? fun k' => ?_
    rw [ExtTreeMap.getElem?_erase, ExtTreeMap.getElem?_erase, ExtTreeMap.getElem?_insert]
    split <;> simp_all
  rw [total_erase (ExtTreeMap.getElem?_insert_self), herase]

theorem total_erase_lt (h : m[k]? = some v) (hv : 0 < f v) : total f (m.erase k) < total f m := by
  rw [total_erase h]
  omega

theorem total_insert_lt (h : m[k]? = some v) (hv : f v' < f v) :
    total f (m.insert k v') < total f m := by
  rw [total_insert, total_erase h]
  omega

end LawfulEq

/-! ## Maps of maps -/

variable {κ' : Type} {cmp' : κ' → κ' → Ordering}

/-- Put back an inner map, or drop its key if it is empty. -/
def store (m : ExtTreeMap κ (ExtTreeMap κ' ν cmp') cmp) (k : κ) (v : ExtTreeMap κ' ν cmp') :
    ExtTreeMap κ (ExtTreeMap κ' ν cmp') cmp :=
  if v.isEmpty then m.erase k else m.insert k v

/-- The inner map under a key, empty if there is none. -/
def under (m : ExtTreeMap κ (ExtTreeMap κ' ν cmp') cmp) (k : κ) : ExtTreeMap κ' ν cmp' :=
  m[k]?.getD ∅

/-- No key has an empty map. -/
def NoEmpty (m : ExtTreeMap κ (ExtTreeMap κ' ν cmp') cmp) : Prop :=
  ∀ (k : κ) (v : ExtTreeMap κ' ν cmp'), m[k]? = some v → v ≠ ∅

theorem noEmpty_empty : NoEmpty (∅ : ExtTreeMap κ (ExtTreeMap κ' ν cmp') cmp) := by
  intro k v h
  rw [ExtTreeMap.getElem?_empty] at h
  cases h

section LawfulEq

variable [LawfulEqCmp cmp] {m m' : ExtTreeMap κ (ExtTreeMap κ' ν cmp') cmp}
variable {k k' : κ} {v v' : ExtTreeMap κ' ν cmp'}

theorem getElem?_insert_of_ne (h : k' ≠ k) : (m.insert k v)[k']? = m[k']? := by
  have hne : ¬ cmp k k' = .eq := fun he => h (LawfulEqCmp.eq_of_compare he).symm
  rw [ExtTreeMap.getElem?_insert, if_neg hne]

theorem getElem?_store_of_ne (h : k' ≠ k) : (store m k v)[k']? = m[k']? := by
  have hne : ¬ cmp k k' = .eq := fun he => h (LawfulEqCmp.eq_of_compare he).symm
  unfold store
  split
  · rw [ExtTreeMap.getElem?_erase, if_neg hne]
  · rw [getElem?_insert_of_ne h]

theorem getElem?_store_self : (store m k v)[k]? = if v.isEmpty then none else some v := by
  unfold store
  split <;> simp

theorem under_insert [DecidableEq κ] :
    under (m.insert k v) k' = if k' = k then v else under m k' := by
  unfold under
  split
  · rename_i h
    rw [h, ExtTreeMap.getElem?_insert_self, Option.getD_some]
  · rename_i h
    rw [getElem?_insert_of_ne h]

/-- Seen through `under`, `store` is an insertion. -/
theorem under_store [DecidableEq κ] [TransCmp cmp'] :
    under (store m k v) k' = if k' = k then v else under m k' := by
  unfold under
  split
  · rename_i h
    rw [h, getElem?_store_self]
    split
    · rename_i hv
      exact (ExtTreeMap.isEmpty_iff.mp hv).symm
    · rfl
  · rename_i h
    rw [getElem?_store_of_ne h]

omit [LawfulEqCmp cmp] in
theorem under_of_getElem? (h : m[k]? = some v) : under m k = v := by
  rw [under, h, Option.getD_some]

theorem NoEmpty.insert (h : NoEmpty m) (hv : v ≠ ∅) : NoEmpty (m.insert k v) := by
  intro k' v' h'
  by_cases hk : k' = k
  · rw [hk, ExtTreeMap.getElem?_insert_self, Option.some.injEq] at h'
    exact h' ▸ hv
  · rw [getElem?_insert_of_ne hk] at h'
    exact h k' v' h'

theorem NoEmpty.store [TransCmp cmp'] (h : NoEmpty m) : NoEmpty (store m k v) := by
  intro k' v' h'
  by_cases hk : k' = k
  · rw [hk, getElem?_store_self] at h'
    split at h'
    · cases h'
    · rename_i hv
      rw [Option.some.injEq] at h'
      exact fun he => hv (ExtTreeMap.isEmpty_iff.mpr (h'.trans he))
  · rw [getElem?_store_of_ne hk] at h'
    exact h k' v' h'

/-- Maps without empty inner maps are equal when their inner maps are. -/
theorem NoEmpty.ext (h : NoEmpty m) (h' : NoEmpty m') (he : ∀ k, under m k = under m' k) :
    m = m' := by
  refine ExtTreeMap.ext_getElem? fun k => ?_
  have hk := he k
  unfold under at hk
  cases hm : m[k]? with
  | none =>
    cases hm' : m'[k]? with
    | none => rfl
    | some v' =>
      rw [hm, hm', Option.getD_none, Option.getD_some] at hk
      exact absurd hk.symm (h' k v' hm')
  | some v =>
    cases hm' : m'[k]? with
    | none =>
      rw [hm, hm', Option.getD_none, Option.getD_some] at hk
      exact absurd hk (h k v hm)
    | some v' =>
      rw [hm, hm', Option.getD_some, Option.getD_some] at hk
      rw [hk]

theorem total_store_lt {f : ExtTreeMap κ' ν cmp' → Nat} (h : m[k]? = some v)
    (hlt : f v' < f v) : total f (SortedMap.store m k v') < total f m := by
  unfold SortedMap.store
  split
  · exact total_erase_lt h (Nat.zero_lt_of_lt hlt)
  · exact total_insert_lt h hlt

end LawfulEq

end SortedMap
