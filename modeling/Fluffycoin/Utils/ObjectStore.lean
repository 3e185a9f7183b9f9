import Mathlib.Data.List.Basic
import Mathlib.Logic.Function.Basic

/-!
# Objects of a class

The objects of a class that can be moved, and perhaps copied, and the sequences of operations on
them. A store is the list of the objects that have been constructed; moved-from objects stay in it.
Members that act on one object, and copies, may go wrong (`none`).

`Keeps c P` says that the operations of the class keep the property `P` of its objects. `Keeps.run`
is the rule: then no sequence of operations goes wrong, and all objects have the property after it.
`forall_update` and `forall_update_none` are for stores of objects by name.
-/

namespace ObjectStore

/-- What the operations of a class do. `move x y` are the two objects after `x = std::move(y)`, for
different objects, and `copy x y` is `x` after `x = y`. -/
structure Class (Obj Act : Type) where
  new : Obj
  act : Act → Obj → Option Obj
  move : Obj → Obj → Obj × Obj
  copy : Option (Obj → Obj → Option Obj) := none

/-- An operation; objects are given by their place in the store. -/
inductive Op (Act : Type) where
  | construct
  | constructMove (j : Nat)
  | constructCopy (j : Nat)
  | assignMove (i j : Nat)
  | assignCopy (i j : Nat)
  | act (i : Nat) (a : Act)

variable {Obj Act : Type} (c : Class Obj Act)

namespace Class

/-- The object after a copy; the objects of a class that has none are left alone. -/
def copied (x y : Obj) : Option Obj :=
  match c.copy with
  | none => some x
  | some copy => copy x y

/-- The store after an operation. Operations on objects that are not there do nothing. -/
def step (store : List Obj) : Op Act → Option (List Obj)
  | .construct => some (store ++ [c.new])
  | .constructMove j =>
    match store[j]? with
    | none => some store
    | some y => some (store.set j (c.move c.new y).2 ++ [(c.move c.new y).1])
  | .constructCopy j =>
    match store[j]? with
    | none => some store
    | some y => (c.copied c.new y).map fun x => store ++ [x]
  | .assignMove i j =>
    if i = j then some store
    else match store[i]?, store[j]? with
      | some x, some y => some ((store.set i (c.move x y).1).set j (c.move x y).2)
      | _, _ => some store
  | .assignCopy i j =>
    if i = j then some store
    else match store[i]?, store[j]? with
      | some x, some y => (c.copied x y).map (store.set i)
      | _, _ => some store
  | .act i a =>
    match store[i]? with
    | none => some store
    | some x => (c.act a x).map (store.set i)

/-- The store after operations. -/
def run (ops : List (Op Act)) : Option (List Obj) := ops.foldlM c.step []

end Class

/-- The operations go through on objects with `P`, and keep it. -/
structure Keeps (P : Obj → Prop) : Prop where
  new : P c.new
  act : ∀ a x, P x → ∃ y, c.act a x = some y ∧ P y
  move : ∀ x y, P x → P y → P (c.move x y).1 ∧ P (c.move x y).2
  copied : ∀ x y, P x → P y → ∃ z, c.copied x y = some z ∧ P z

variable {c} {P : Obj → Prop} {store : List Obj}

theorem forall_mem_set {i : Nat} {x : Obj} (h : ∀ y ∈ store, P y) (hx : P x) :
    ∀ y ∈ store.set i x, P y := fun y hy =>
  (List.mem_or_eq_of_mem_set hy).elim (h y) fun heq => heq ▸ hx

theorem forall_mem_append_singleton {x : Obj} (h : ∀ y ∈ store, P y) (hx : P x) :
    ∀ y ∈ store ++ [x], P y :=
  List.forall_mem_append.mpr ⟨h, List.forall_mem_singleton.mpr hx⟩

/-- One operation goes through, and keeps `P` of all objects. -/
theorem Keeps.step (hc : Keeps c P) (op : Op Act) (h : ∀ x ∈ store, P x) :
    ∃ store', c.step store op = some store' ∧ ∀ x ∈ store', P x := by
  cases op with
  | construct => exact ⟨_, rfl, forall_mem_append_singleton h hc.new⟩
  | constructMove j =>
    simp only [Class.step]
    cases hj : store[j]? with
    | none => exact ⟨store, rfl, h⟩
    | some y =>
      obtain ⟨hx, hy⟩ := hc.move c.new y hc.new (h y (List.mem_of_getElem? hj))
      exact ⟨_, rfl, forall_mem_append_singleton (forall_mem_set h hy) hx⟩
  | constructCopy j =>
    simp only [Class.step]
    cases hj : store[j]? with
    | none => exact ⟨store, rfl, h⟩
    | some y =>
      obtain ⟨z, hz, hPz⟩ := hc.copied c.new y hc.new (h y (List.mem_of_getElem? hj))
      exact ⟨_, by simp only [hz, Option.map_some], forall_mem_append_singleton h hPz⟩
  | assignMove i j =>
    simp only [Class.step]
    split
    · exact ⟨store, rfl, h⟩
    · split
      · rename_i x y hi hj
        obtain ⟨hx, hy⟩ :=
          hc.move x y (h x (List.mem_of_getElem? hi)) (h y (List.mem_of_getElem? hj))
        exact ⟨_, rfl, forall_mem_set (forall_mem_set h hx) hy⟩
      · exact ⟨store, rfl, h⟩
  | assignCopy i j =>
    simp only [Class.step]
    split
    · exact ⟨store, rfl, h⟩
    · split
      · rename_i x y hi hj
        obtain ⟨z, hz, hPz⟩ :=
          hc.copied x y (h x (List.mem_of_getElem? hi)) (h y (List.mem_of_getElem? hj))
        exact ⟨_, by rw [hz, Option.map_some], forall_mem_set h hPz⟩
      · exact ⟨store, rfl, h⟩
  | act i a =>
    simp only [Class.step]
    cases hi : store[i]? with
    | none => exact ⟨store, rfl, h⟩
    | some x =>
      obtain ⟨z, hz, hPz⟩ := hc.act a x (h x (List.mem_of_getElem? hi))
      exact ⟨store.set i z, by simp only [hz, Option.map_some], forall_mem_set h hPz⟩

/-- **Operations go through, and keep `P` of all objects.** -/
theorem Keeps.run (hc : Keeps c P) (ops : List (Op Act)) :
    ∃ store, c.run ops = some store ∧ ∀ x ∈ store, P x := by
  suffices h : ∀ start : List Obj, (∀ x ∈ start, P x) →
      ∃ store, ops.foldlM c.step start = some store ∧ ∀ x ∈ store, P x from
    h [] (List.forall_mem_nil P)
  induction ops with
  | nil => exact fun start h => ⟨start, rfl, h⟩
  | cons op ops ih =>
    intro start h
    obtain ⟨next, hstep, hnext⟩ := hc.step op h
    obtain ⟨store, hrun, hstore⟩ := ih next hnext
    refine ⟨store, ?_, hstore⟩
    rw [List.foldlM_cons, hstep]
    exact hrun

/-! ## Objects by name -/

section Named

variable {objects : Nat → Option Obj} {x : Nat}

theorem forall_update (h : ∀ y a, objects y = some a → P a) {a : Obj} (ha : P a) :
    ∀ y b, Function.update objects x (some a) y = some b → P b := by
  intro y b hy
  by_cases hyx : y = x
  · rw [hyx, Function.update_self] at hy
    cases hy
    exact ha
  · rw [Function.update_of_ne hyx] at hy
    exact h y b hy

theorem forall_update_none (h : ∀ y a, objects y = some a → P a) :
    ∀ y b, Function.update objects x none y = some b → P b := by
  intro y b hy
  by_cases hyx : y = x
  · rw [hyx, Function.update_self] at hy
    cases hy
  · rw [Function.update_of_ne hyx] at hy
    exact h y b hy

end Named

end ObjectStore
