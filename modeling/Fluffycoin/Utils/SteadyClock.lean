import Mathlib.Data.List.Induction

/-!
# A steady clock

Readings of a clock that never goes back: integers, the nanoseconds since its epoch. An action may
read the clock several times; `InOrder` says that the readings of a sequence of actions never go
back.
-/

namespace SteadyClock

/-- A duration of whole seconds. -/
def seconds (n : Nat) : Int := n * 1000000000

theorem seconds_nonneg (n : Nat) : 0 ≤ seconds n := by
  unfold seconds
  omega

section InOrder

variable {α : Type} (readings : α → List Int)

/-- No reading is before an earlier one. -/
def InOrder (as : List α) : Prop := (as.flatMap readings).Pairwise (· ≤ ·)

instance (as : List α) : Decidable (InOrder readings as) :=
  inferInstanceAs (Decidable (List.Pairwise _ _))

variable {readings} {as bs : List α}

theorem InOrder.left (h : InOrder readings (as ++ bs)) : InOrder readings as := by
  unfold InOrder at h
  rw [List.flatMap_append] at h
  exact (List.pairwise_append.mp h).1

theorem InOrder.of_isPrefix (h : InOrder readings bs) (hp : as <+: bs) : InOrder readings as := by
  obtain ⟨cs, rfl⟩ := hp
  exact h.left

/-- A reading of an earlier action is not after one of a later action. -/
theorem InOrder.le (h : InOrder readings (as ++ bs)) {a b : α} (ha : a ∈ as) (hb : b ∈ bs)
    {t u : Int} (ht : t ∈ readings a) (hu : u ∈ readings b) : t ≤ u := by
  unfold InOrder at h
  rw [List.flatMap_append] at h
  exact (List.pairwise_append.mp h).2.2 t (List.mem_flatMap_of_mem ha ht) u
    (List.mem_flatMap_of_mem hb hu)

/-- No reading is after the last one. -/
theorem InOrder.le_getLast {a : α} (h : InOrder readings (as ++ [a])) {b : α}
    (hb : b ∈ as ++ [a]) {t u : Int} (ht : (readings a).getLast? = some t) (hu : u ∈ readings b) :
    u ≤ t := by
  obtain ⟨ts, hts⟩ := List.getLast?_eq_some_iff.mp ht
  have hall : (as ++ [a]).flatMap readings = as.flatMap readings ++ ts ++ [t] := by
    rw [List.flatMap_append, List.flatMap_singleton, hts, List.append_assoc]
  have hmem : u ∈ as.flatMap readings ++ ts ++ [t] := hall ▸ List.mem_flatMap_of_mem hb hu
  unfold InOrder at h
  rw [hall, List.pairwise_append] at h
  rcases List.mem_append.mp hmem with hmem | hmem
  · exact h.2.2 u hmem t List.mem_cons_self
  · exact Int.le_of_eq (List.mem_singleton.mp hmem)

end InOrder

end SteadyClock
