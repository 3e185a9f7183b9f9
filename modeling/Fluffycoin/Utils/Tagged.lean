import Mathlib.Logic.Function.Basic

/-!
# Tagged unions kept by hand

A class that holds one of several alternatives as a tag and one owning pointer for each alternative,
and the C structure with a union it is written to and read from. `ι` is the type of the
alternatives, `α i` the type of the objects of alternative `i` and `β i` that of the structures.

* `Tagged α`: the tag, `none` for no alternative, and the pointers. `WellTagged` says that the
  pointer the tag selects is set and the others are null; resetting, setting, moving and reading
  keep it.
* `Choice β`: the type number of the structure and what the pointer of its union points to. A
  pointer to nothing, or to the structure that stands for no alternative, is `none`. `Schema.Value`
  are the structures whose pointer is to the alternative that their type number says; other numbers
  say nothing of it.
* `Schema α β`: the numbers of the alternatives, and how a fresh structure is made, written and
  read.
* `write` and `read` follow the tag, or the type number, and dereference what it selects; the result
  is `none` if that is a null pointer, or a pointer to another alternative. For well tagged objects
  and values of the schema it never is (`WellTagged.write`, `read_value`), and what is written and
  read back depends on the object alone (`WellTagged.read_write`).
-/

/-- A tag, and one pointer for each alternative. -/
structure Tagged {ι : Type} (α : ι → Type) where
  tag : Option ι := none
  ptr : (i : ι) → Option (α i) := fun _ => none

namespace Tagged

variable {ι : Type} {α β : ι → Type}

/-- A structure with a union: its type number, and what the pointer points to. -/
structure Choice (β : ι → Type) where
  type : Int
  u : Option (Sigma β) := none

/-- How the alternatives are numbered, written and read. -/
structure Schema (α β : ι → Type) where
  code : ι → Int
  select : Int → Option ι
  select_code : ∀ i, select (code i) = some i
  select_zero : select 0 = none
  new : (i : ι) → β i
  put : (i : ι) → α i → β i → β i
  get : (i : ι) → β i → α i

variable (s : Schema α β) {x y : Tagged α}

/-- The structure holds the alternative its type number says, if it says one. -/
def Choice.Valid (t : Choice β) : Prop := ∀ i, s.select t.type = some i → ∃ v, t.u = some ⟨i, v⟩

/-- The values of the choice. -/
abbrev Schema.Value := { t : Choice β // t.Valid s }

/-- The pointer the tag selects is set, and no other. -/
def WellTagged (x : Tagged α) : Prop := ∀ i, (x.ptr i).isSome = true ↔ x.tag = some i

def reset (_x : Tagged α) : Tagged α := {}

theorem wellTagged_reset (x : Tagged α) : WellTagged x.reset := fun i =>
  iff_of_false Bool.false_ne_true (Option.some_ne_none i).symm

/-- The two objects after `x = std::move(y)`. -/
def move (x y : Tagged α) : Tagged α × Tagged α :=
  let x := x.reset
  ({ x with tag := y.tag, ptr := y.ptr }, y.reset)

theorem WellTagged.move (hy : WellTagged y) (x : Tagged α) :
    WellTagged (x.move y).1 ∧ WellTagged (x.move y).2 := ⟨hy, wellTagged_reset y⟩

/-- The structure after `x` has been written to it. -/
def write (x : Tagged α) (t : Choice β) : Option (Choice β) :=
  -- clean up what the structure held, unless its number is unknown
  let t := if t.type = 0 ∨ (s.select t.type).isSome then { t with u := none } else t
  match x.tag with
  | none => some { t with type := 0, u := none }
  | some i =>
    (x.ptr i).map fun v => { t with type := s.code i, u := some ⟨i, s.put i v (s.new i)⟩ }

variable [DecidableEq ι]

/-- The pointer of the union, read as one to alternative `i`. -/
def Choice.deref (t : Choice β) (i : ι) : Option (β i) :=
  match t.u with
  | some ⟨j, v⟩ => if h : j = i then some (h ▸ v) else none
  | none => none

@[simp] theorem Choice.deref_mk (n : Int) (i : ι) (v : β i) : deref ⟨n, some ⟨i, v⟩⟩ i = some v :=
  dif_pos rfl

def set (x : Tagged α) (i : ι) (v : α i) : Tagged α :=
  let x := x.reset
  { tag := some i, ptr := Function.update x.ptr i (some v) }

/-- The object after the structure has been read into it. -/
def read (x : Tagged α) (t : Choice β) : Option (Tagged α) :=
  let x := x.reset
  match s.select t.type with
  | none => some x
  | some i => (t.deref i).map fun v => x.set i (s.get i v)

/-! ## One alternative, or none -/

theorem wellTagged_set (x : Tagged α) (i : ι) (v : α i) : WellTagged (x.set i v) := by
  intro j
  by_cases hj : j = i
  · subst hj
    exact iff_of_true (by simp [set]) rfl
  · refine iff_of_false ?_ fun h => hj (Option.some.inj h).symm
    simp [set, reset, Function.update_of_ne hj]

/-- **A well tagged object is one alternative, or none.** -/
theorem wellTagged_iff : WellTagged x ↔ x = {} ∨ ∃ i v, x = set {} i v := by
  constructor
  · intro h
    obtain ⟨tag, ptr⟩ := x
    have hnull (i : ι) (hi : tag ≠ some i) : ptr i = none := by
      rw [← Option.not_isSome_iff_eq_none]
      exact fun hsome => hi ((h i).mp hsome)
    cases tag with
    | none =>
      exact .inl (congrArg (Tagged.mk none) (funext fun i => hnull i (Option.some_ne_none i).symm))
    | some i =>
      obtain ⟨v, hv⟩ := Option.isSome_iff_exists.mp ((h i).mpr rfl)
      refine .inr ⟨i, v, congrArg (Tagged.mk (some i)) (funext fun j => ?_)⟩
      by_cases hj : j = i
      · subst hj
        rw [Function.update_self]
        exact hv
      · rw [Function.update_of_ne hj]
        exact hnull j fun hi => hj (Option.some.inj hi).symm
  · rintro (rfl | ⟨i, v, rfl⟩)
    · exact wellTagged_reset {}
    · exact wellTagged_set {} i v

/-! ## Writing and reading -/

theorem write_set (x : Tagged α) (i : ι) (v : α i) (t : Choice β) :
    (x.set i v).write s t = some ⟨s.code i, some ⟨i, s.put i v (s.new i)⟩⟩ := by
  simp [write, set]

theorem read_code (x : Tagged α) (i : ι) (v : β i) :
    x.read s ⟨s.code i, some ⟨i, v⟩⟩ = some (set {} i (s.get i v)) := by
  simp [read, s.select_code, set, reset]

theorem read_zero (x : Tagged α) : x.read s ⟨0, none⟩ = some {} := by
  simp [read, s.select_zero, reset]

/-- **Writing a well tagged object dereferences no null pointer**, and leaves a value. -/
theorem WellTagged.write (h : WellTagged x) (t : Choice β) :
    ∃ t', x.write s t = some t' ∧ t'.Valid s := by
  rcases wellTagged_iff.mp h with rfl | ⟨i, v, rfl⟩
  · refine ⟨⟨0, none⟩, rfl, fun i hi => ?_⟩
    exact absurd (s.select_zero.symm.trans hi) (Option.some_ne_none i).symm
  · refine ⟨_, write_set s {} i v t, fun j hj => ?_⟩
    rw [s.select_code, Option.some.injEq] at hj
    subst hj
    exact ⟨_, rfl⟩

theorem WellTagged.map_write (h : WellTagged x) (t : Choice β) :
    (x.write s t).map (fun _ => x) = some x := by
  obtain ⟨t', hwrite, -⟩ := h.write s t
  rw [hwrite, Option.map_some]

variable {s}

/-- **Reading a value goes through**, and leaves a well tagged object. -/
theorem read_value (x : Tagged α) (t : s.Value) : ∃ y, x.read s t = some y ∧ WellTagged y := by
  unfold Tagged.read
  cases hi : s.select t.val.type with
  | none => exact ⟨_, rfl, wellTagged_reset x⟩
  | some i =>
    obtain ⟨⟨type, u⟩, hvalid⟩ := t
    obtain ⟨v, rfl⟩ := hvalid i hi
    refine ⟨x.reset.set i (s.get i v), ?_, wellTagged_set _ i _⟩
    dsimp only
    rw [Choice.deref_mk, Option.map_some]

/-- **What is written and read back depends on the object alone.** -/
theorem WellTagged.read_write (h : WellTagged x) (t t' : Choice β) (r r' : Tagged α) :
    (x.write s t).bind (r.read s) = (x.write s t').bind (r'.read s) := by
  rcases wellTagged_iff.mp h with rfl | ⟨i, v, rfl⟩
  · show r.read s ⟨0, none⟩ = r'.read s ⟨0, none⟩
    rw [read_zero, read_zero]
  · rw [write_set, write_set, Option.bind_some, Option.bind_some, read_code, read_code]

end Tagged
