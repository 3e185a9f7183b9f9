import Fluffycoin.Async.TreasureTrove
import Fluffycoin.Utils.ObjectStore
import Mathlib.Data.Finset.Erase
import Mathlib.Data.Finset.Insert
import Mathlib.Data.List.Nodup

/-!
# `async::BuriedTreasure`

Model of `src/async/BuriedTreasure.h`: an object that adds a treasure to the trove when it is
constructed, and cleans it up when it is destroyed. A program constructs, moves and destroys such
objects, which are named by numbers; a treasure is its address, which may be used again once it is
not in the trove.

A move leaves the pointer of the source as it is (`BuriedTreasure.h:34-43`), so that both objects
clean up the treasure. And `TreasureTrove::cleanup` only comes back for the first treasure (see
`Async/TreasureTrove.lean`).

`sound_run_iff`: so a program whose text destroys all of its objects never waits for ever, and never
has an object whose treasure is gone, exactly if it moves none and destroys them in the order in
which it constructs them. Objects of one scope are destroyed the other way round.
-/

namespace Fluffycoin.Async

/-- `BuriedTreasure`; the pointer may be null. There is one trove. -/
structure BuriedTreasure (α : Type) where
  ptreasure : Option α := none

namespace BuriedTreasure

variable {α : Type} [DecidableEq α]

/-- `BuriedTreasure::cleanup`, by what becomes of the trove; `none` when it does not return. -/
def cleanup (b : BuriedTreasure α) (memory : List α) : Option (List α) :=
  match b.ptreasure with
  | none => some memory
  | some treasure => TreasureTrove.cleanup memory treasure

/-! ## Programs -/

/-- The trove and the objects. -/
structure Site (α : Type) where
  trove : Option (List α) := some []
  objects : Nat → Option (BuriedTreasure α) := fun _ => none

inductive Cmd (α : Type) where
  | construct (x : Nat) (treasure : α)
  | constructMove (x y : Nat)
  | assignMove (x y : Nat)
  | destroy (x : Nat)

/-- The object `x` cleans up, and `b` takes its place. -/
def Site.replace (s : Site α) (x : Nat) (b : Option (BuriedTreasure α)) : Site α :=
  match s.trove, s.objects x with
  | some memory, some old =>
    match old.cleanup memory with
    | none => { s with trove := none }
    | some memory => ⟨some memory, Function.update s.objects x b⟩
  | _, _ => s

/-- One command. After a call of `cleanup` that does not return, nothing happens. -/
def step (s : Site α) : Cmd α → Site α
  | .construct x treasure =>
    match s.trove with
    | none => s
    | some memory =>
      ⟨some (TreasureTrove.add memory treasure), Function.update s.objects x (some ⟨treasure⟩)⟩
  | .constructMove x y =>
    match s.trove, s.objects y with
    | some _, some rhs =>
      -- an object without a treasure, to which `rhs` is assigned
      { s with objects := Function.update s.objects x (some ⟨rhs.ptreasure⟩) }
    | _, _ => s
  | .assignMove x y =>
    if x = y then s
    else match s.objects y with
      | some rhs => s.replace x (some ⟨rhs.ptreasure⟩)
      | none => s
  | .destroy x => s.replace x none

/-- The trove and the objects after commands. -/
def run (cmds : List (Cmd α)) : Site α := Trace.final step id {} cmds

/-- The names of the objects that are there after a command, by the text alone. -/
def Cmd.scope (names : Finset Nat) : Cmd α → Finset Nat
  | .construct x _ => insert x names
  | .constructMove x _ => insert x names
  | .assignMove _ _ => names
  | .destroy x => names.erase x

/-- What a compiler sees to: objects are constructed once, and used while they are there. -/
def Cmd.WellScoped (names : Finset Nat) : Cmd α → Prop
  | .construct x _ => x ∉ names
  | .constructMove x y => x ∉ names ∧ y ∈ names
  | .assignMove x y => x ∈ names ∧ y ∈ names
  | .destroy x => x ∈ names

/-- A program that destroys all of its objects, if it gets to its end. -/
structure Complete (cmds : List (Cmd α)) : Prop where
  wellScoped : Trace.Along Cmd.scope id Cmd.WellScoped ∅ cmds
  empty : Trace.final Cmd.scope id ∅ cmds = ∅

/-- What an allocator sees to: new memory is not in use. -/
def Fresh (s : Site α) : Cmd α → Prop
  | .construct _ treasure => ∀ memory ∈ s.trove, treasure ∉ memory
  | _ => True

def Allocated (cmds : List (Cmd α)) : Prop := Trace.Along step id Fresh {} cmds

/-- What both come to in a state. -/
def Legal (s : Site α) : Cmd α → Prop
  | .construct x treasure => s.objects x = none ∧ ∀ memory ∈ s.trove, treasure ∉ memory
  | .constructMove x y => s.objects x = none ∧ (s.objects y).isSome
  | .assignMove x y => (s.objects x).isSome ∧ (s.objects y).isSome
  | .destroy x => (s.objects x).isSome

/-- All calls have returned, and the treasures of all objects are there. -/
def Sound (s : Site α) : Prop :=
  ∃ memory, s.trove = some memory ∧
    ∀ x b, s.objects x = some b → ∀ treasure ∈ b.ptreasure, treasure ∈ memory

/-- A move from one object to another. -/
def Cmd.Moves : Cmd α → Prop
  | .constructMove _ _ => True
  | .assignMove x y => x ≠ y
  | _ => False

def Cmd.constructed : Cmd α → Option Nat
  | .construct x _ => some x
  | _ => none

def Cmd.destroyed : Cmd α → Option Nat
  | .destroy x => some x
  | _ => none

variable {s : Site α} {c : Cmd α}

/-! ## The text -/

theorem run_append_singleton (l : List (Cmd α)) (c : Cmd α) : run (l ++ [c]) = step (run l) c :=
  Trace.final_append ..

/-- Either `cleanup` does not return, or the object is replaced. -/
theorem replace_cases {memory : List α} {x : Nat} {old : BuriedTreasure α}
    (htrove : s.trove = some memory) (hold : s.objects x = some old)
    (b : Option (BuriedTreasure α)) :
    s.replace x b = { s with trove := none } ∨
      ∃ memory', old.cleanup memory = some memory' ∧
        s.replace x b = ⟨some memory', Function.update s.objects x b⟩ := by
  unfold Site.replace
  rw [htrove, hold]
  cases hcleanup : old.cleanup memory with
  | none => exact .inl (by simp only [hcleanup])
  | some memory' => exact .inr ⟨memory', rfl, by simp only [hcleanup]⟩

/-- Nothing happens after a call that does not return. -/
theorem step_of_none (h : s.trove = none) (c : Cmd α) : step s c = s := by
  cases c with
  | assignMove x y =>
    simp only [step, Site.replace, h]
    split
    · rfl
    · split <;> rfl
  | _ => simp only [step, Site.replace, h]

/-- The objects of a state are those of the text. -/
def Named (names : Finset Nat) (s : Site α) : Prop := ∀ x, (s.objects x).isSome ↔ x ∈ names

omit [DecidableEq α] in
theorem Named.insert {names : Finset Nat} (h : Named names s) (x : Nat) (b : BuriedTreasure α)
    (trove : Option (List α)) :
    Named (insert x names) ⟨trove, Function.update s.objects x (some b)⟩ := by
  intro y
  show (Function.update s.objects x (some b) y).isSome ↔ _
  rw [Finset.mem_insert, Function.update_apply]
  split
  · rename_i hyx
    exact iff_of_true rfl (.inl hyx)
  · rename_i hyx
    rw [h y, or_iff_right hyx]

omit [DecidableEq α] in
theorem Named.erase {names : Finset Nat} (h : Named names s) (x : Nat) (trove : Option (List α)) :
    Named (names.erase x) ⟨trove, Function.update s.objects x none⟩ := by
  intro y
  show (Function.update s.objects x none y).isSome ↔ _
  rw [Finset.mem_erase, Function.update_apply]
  split
  · rename_i hyx
    exact iff_of_false Bool.false_ne_true fun hmem => hmem.1 hyx
  · rename_i hyx
    rw [h y, and_iff_right hyx]

/-- One command that returns. -/
theorem Named.step {names : Finset Nat} (h : Named names s) (hc : c.WellScoped names)
    (htrove : (step s c).trove ≠ none) : Named (c.scope names) (step s c) := by
  obtain ⟨memory, hmemory⟩ : ∃ memory, s.trove = some memory := by
    refine Option.ne_none_iff_exists'.mp fun hnone => htrove ?_
    rw [step_of_none hnone, hnone]
  have hreplace {x : Nat} (hx : x ∈ names) (b : Option (BuriedTreasure α))
      (htrove : (s.replace x b).trove ≠ none) :
      ∃ trove, s.replace x b = ⟨trove, Function.update s.objects x b⟩ := by
    obtain ⟨old, hold⟩ := Option.isSome_iff_exists.mp ((h x).mpr hx)
    rcases replace_cases hmemory hold b with heq | ⟨memory', -, heq⟩
    · rw [heq] at htrove
      exact absurd rfl htrove
    · exact ⟨some memory', heq⟩
  cases c with
  | construct x treasure =>
    simp only [BuriedTreasure.step, hmemory]
    exact h.insert x _ _
  | constructMove x y =>
    obtain ⟨rhs, hy⟩ := Option.isSome_iff_exists.mp ((h y).mpr hc.2)
    simp only [BuriedTreasure.step, hmemory, hy]
    exact h.insert x _ _
  | assignMove x y =>
    obtain ⟨rhs, hy⟩ := Option.isSome_iff_exists.mp ((h y).mpr hc.2)
    simp only [BuriedTreasure.step, hy] at htrove ⊢
    split
    · exact h
    · rename_i hne
      rw [if_neg hne] at htrove
      obtain ⟨trove, heq⟩ := hreplace hc.1 _ htrove
      rw [heq, Cmd.scope, ← Finset.insert_eq_of_mem hc.1]
      exact h.insert x _ _
  | destroy x =>
    obtain ⟨trove, heq⟩ := hreplace hc none htrove
    rw [BuriedTreasure.step, heq]
    exact h.erase x _

/-- **The objects of a program that has not come to wait are those of its text.** -/
theorem named_run {cmds l : List (Cmd α)} (h : Trace.Along Cmd.scope id Cmd.WellScoped ∅ cmds)
    (hl : l <+: cmds) (htrove : (run l).trove ≠ none) :
    Named (Trace.final Cmd.scope id ∅ l) (run l) := by
  induction l using List.reverseRecOn with
  | nil => exact fun x => iff_of_false Bool.false_ne_true (Finset.notMem_empty x)
  | append_singleton l c ih =>
    rw [run_append_singleton] at htrove ⊢
    have hbefore : (run l).trove ≠ none := fun hnone => htrove (by rw [step_of_none hnone, hnone])
    rw [Trace.final_append]
    exact (ih ((List.prefix_append l [c]).trans hl) hbefore).step (h.of_prefix hl) htrove

/-- The commands of such a program are legal, until one does not return. -/
theorem legal_run {cmds l : List (Cmd α)} (hcomplete : Complete cmds) (halloc : Allocated cmds)
    (hl : l ++ [c] <+: cmds) (htrove : (run l).trove ≠ none) : Legal (run l) c := by
  have hnamed := named_run hcomplete.wellScoped ((List.prefix_append l [c]).trans hl) htrove
  have hnone {x : Nat} (hx : x ∉ Trace.final Cmd.scope id ∅ l) : (run l).objects x = none :=
    Option.not_isSome_iff_eq_none.mp fun hsome => hx ((hnamed x).mp hsome)
  have hc := hcomplete.wellScoped.of_prefix hl
  cases c with
  | construct x treasure => exact ⟨hnone hc, halloc.of_prefix hl⟩
  | constructMove x y => exact ⟨hnone hc.1, (hnamed y).mpr hc.2⟩
  | assignMove x y => exact ⟨(hnamed x).mpr hc.1, (hnamed y).mpr hc.2⟩
  | destroy x => exact (hnamed x).mpr hc

/-- No object is left. -/
theorem objects_eq_none {cmds : List (Cmd α)} (hcomplete : Complete cmds)
    (htrove : (run cmds).trove ≠ none) (x : Nat) : (run cmds).objects x = none := by
  have hnamed := named_run hcomplete.wellScoped (List.prefix_refl cmds) htrove
  rw [hcomplete.empty] at hnamed
  exact Option.not_isSome_iff_eq_none.mp fun hsome => Finset.notMem_empty x ((hnamed x).mp hsome)

/-! ## Moves -/

/-- The pointers are not null, and no treasure is in the trove twice. -/
structure Held (s : Site α) : Prop where
  pointers : ∀ x b, s.objects x = some b → b.ptreasure ≠ none
  nodup : ∀ memory ∈ s.trove, memory.Nodup

omit [DecidableEq α] in
theorem nodup_add {memory : List α} {treasure : α} (h : memory.Nodup) (hnew : treasure ∉ memory) :
    (memory ++ [treasure]).Nodup := by
  refine List.nodup_append.mpr ⟨h, List.nodup_singleton treasure, fun a ha b hb => ?_⟩
  rw [List.mem_singleton.mp hb]
  exact ne_of_mem_of_not_mem ha hnew

theorem cleanup_eq_some {b : BuriedTreasure α} {memory memory' : List α}
    (hb : b.ptreasure ≠ none) (h : b.cleanup memory = some memory') :
    ∃ treasure, b = ⟨some treasure⟩ ∧
      (memory = [] ∧ memory' = [] ∨ memory = treasure :: memory') := by
  obtain ⟨_ | treasure⟩ := b
  · exact absurd rfl hb
  · exact ⟨treasure, rfl, TreasureTrove.cleanup_eq_some_iff.mp h⟩

theorem held_replace (h : Held s) (x : Nat) {b : Option (BuriedTreasure α)}
    (hb : ∀ new ∈ b, new.ptreasure ≠ none) : Held (s.replace x b) := by
  cases htrove : s.trove with
  | none =>
    simp only [Site.replace, htrove]
    exact h
  | some memory =>
    cases hold : s.objects x with
    | none =>
      simp only [Site.replace, htrove, hold]
      exact h
    | some old =>
      rcases replace_cases htrove hold b with heq | ⟨memory', hcleanup, heq⟩
      · rw [heq]
        exact ⟨h.pointers, fun _ hmem => by cases hmem⟩
      · rw [heq]
        refine ⟨?_, fun memory'' hmem => ?_⟩
        · cases b with
          | none => exact ObjectStore.forall_update_none h.pointers
          | some new => exact ObjectStore.forall_update h.pointers (hb new rfl)
        · obtain rfl := Option.mem_some.mp hmem
          obtain ⟨treasure, -, ⟨-, rfl⟩ | rfl⟩ := cleanup_eq_some (h.pointers x old hold) hcleanup
          · exact List.nodup_nil
          · exact (List.nodup_cons.mp (h.nodup _ htrove)).2

theorem held_step (h : Held s) (hc : Legal s c) : Held (step s c) := by
  cases c with
  | construct x treasure =>
    cases htrove : s.trove with
    | none =>
      simp only [step, htrove]
      exact h
    | some memory =>
      simp only [step, htrove]
      refine ⟨ObjectStore.forall_update h.pointers nofun, fun memory' hmem => ?_⟩
      obtain rfl := Option.mem_some.mp hmem
      exact nodup_add (h.nodup memory htrove) (hc.2 memory htrove)
  | constructMove x y =>
    obtain ⟨rhs, hy⟩ := Option.isSome_iff_exists.mp hc.2
    cases htrove : s.trove with
    | none =>
      simp only [step, htrove]
      exact h
    | some memory =>
      simp only [step, htrove, hy]
      exact ⟨ObjectStore.forall_update h.pointers (h.pointers y rhs hy), htrove ▸ h.nodup⟩
  | assignMove x y =>
    obtain ⟨rhs, hy⟩ := Option.isSome_iff_exists.mp hc.2
    simp only [step, hy]
    split
    · exact h
    · exact held_replace h x fun new hnew => by
        obtain rfl := Option.mem_some.mp hnew
        exact h.pointers y rhs hy
  | destroy x => exact held_replace h x nofun

/-- **What a clean-up between sound states has done**: the treasure was the first one. -/
theorem replace_sound {x : Nat} {old : BuriedTreasure α} {b : Option (BuriedTreasure α)}
    (h : Held s) (hs : Sound s) (hold : s.objects x = some old) (hsound : Sound (s.replace x b)) :
    ∃ treasure memory, old = ⟨some treasure⟩ ∧ s.trove = some (treasure :: memory) ∧
      treasure ∉ memory ∧ s.replace x b = ⟨some memory, Function.update s.objects x b⟩ := by
  obtain ⟨memory, htrove, hmem⟩ := hs
  rcases replace_cases htrove hold b with heq | ⟨memory', hcleanup, heq⟩
  · obtain ⟨_, hnone, -⟩ := hsound
    rw [heq] at hnone
    cases hnone
  · obtain ⟨treasure, rfl, ⟨rfl, -⟩ | rfl⟩ := cleanup_eq_some (h.pointers x old hold) hcleanup
    · have hnil : treasure ∈ ([] : List α) := hmem x _ hold treasure rfl
      cases hnil
    · exact ⟨treasure, memory', rfl, htrove, (List.nodup_cons.mp (h.nodup _ htrove)).1, heq⟩

/-- Two objects have one treasure. -/
def Shared (s : Site α) : Prop :=
  ∃ x y treasure, x ≠ y ∧ s.objects x = some ⟨some treasure⟩ ∧ s.objects y = some ⟨some treasure⟩

/-- A shared treasure cannot be cleaned up. -/
theorem shared_replace {x : Nat} {old : BuriedTreasure α} {b : Option (BuriedTreasure α)}
    (h : Held s) (hs : Sound s) (hold : s.objects x = some old) (hsound : Sound (s.replace x b))
    (hshared : Shared s) : Shared (s.replace x b) := by
  obtain ⟨treasure, memory, rfl, -, hnot, heq⟩ := replace_sound h hs hold hsound
  have hgone (y : Nat) (hyx : y ≠ x) : s.objects y ≠ some ⟨some treasure⟩ := by
    intro hy
    obtain ⟨memory', htrove, hmem⟩ := hsound
    rw [heq] at htrove hmem
    obtain rfl := Option.some.inj htrove
    exact hnot (hmem y _ ((Function.update_of_ne hyx _ _).trans hy) treasure rfl)
  obtain ⟨p, q, treasure', hpq, hp, hq⟩ := hshared
  have hpx : p ≠ x := by
    rintro rfl
    obtain rfl : treasure = treasure' := by
      rw [hold] at hp
      cases hp
      rfl
    exact hgone q hpq.symm hq
  have hqx : q ≠ x := by
    rintro rfl
    obtain rfl : treasure = treasure' := by
      rw [hold] at hq
      cases hq
      rfl
    exact hgone p hpq hp
  rw [heq]
  exact ⟨p, q, treasure', hpq, (Function.update_of_ne hpx _ _).trans hp,
    (Function.update_of_ne hqx _ _).trans hq⟩

omit [DecidableEq α] in
theorem shared_update {x : Nat} (hx : s.objects x = none) (hshared : Shared s)
    (trove : Option (List α)) (b : Option (BuriedTreasure α)) :
    Shared ⟨trove, Function.update s.objects x b⟩ := by
  obtain ⟨p, q, treasure, hpq, hp, hq⟩ := hshared
  have hne {y : Nat} (hy : s.objects y = some ⟨some treasure⟩) : y ≠ x := by
    rintro rfl
    rw [hx] at hy
    cases hy
  exact ⟨p, q, treasure, hpq, (Function.update_of_ne (hne hp) _ _).trans hp,
    (Function.update_of_ne (hne hq) _ _).trans hq⟩

/-- As long as nothing goes wrong, a treasure that is shared stays so. -/
theorem shared_step (h : Held s) (hs : Sound s) (hc : Legal s c) (hsound : Sound (step s c))
    (hshared : Shared s) : Shared (step s c) := by
  have ⟨memory, htrove, _⟩ := hs
  cases c with
  | construct x treasure =>
    simp only [step, htrove]
    exact shared_update hc.1 hshared _ _
  | constructMove x y =>
    obtain ⟨rhs, hy⟩ := Option.isSome_iff_exists.mp hc.2
    simp only [step, htrove, hy]
    exact shared_update hc.1 hshared _ _
  | assignMove x y =>
    obtain ⟨old, hx⟩ := Option.isSome_iff_exists.mp hc.1
    obtain ⟨rhs, hy⟩ := Option.isSome_iff_exists.mp hc.2
    simp only [step, hy] at hsound ⊢
    split
    · exact hshared
    · rename_i hne
      rw [if_neg hne] at hsound
      exact shared_replace h hs hx hsound hshared
  | destroy x =>
    obtain ⟨old, hx⟩ := Option.isSome_iff_exists.mp hc
    exact shared_replace h hs hx hsound hshared

omit [DecidableEq α] in
/-- The source of a move keeps its treasure. -/
theorem shared_of_update {x y : Nat} {rhs : BuriedTreasure α} (hne : x ≠ y)
    (hy : s.objects y = some rhs) (hrhs : rhs.ptreasure ≠ none) (trove : Option (List α)) :
    Shared ⟨trove, Function.update s.objects x (some ⟨rhs.ptreasure⟩)⟩ := by
  obtain ⟨_ | treasure⟩ := rhs
  · exact absurd rfl hrhs
  · exact ⟨x, y, treasure, hne, Function.update_self ..,
      (Function.update_of_ne hne.symm _ _).trans hy⟩

theorem shared_of_moves (h : Held s) (hs : Sound s) (hc : Legal s c) (hsound : Sound (step s c))
    (hmoves : c.Moves) : Shared (step s c) := by
  have ⟨memory, htrove, _⟩ := hs
  cases c with
  | construct x treasure => cases hmoves
  | constructMove x y =>
    obtain ⟨rhs, hy⟩ := Option.isSome_iff_exists.mp hc.2
    have hne : x ≠ y := by
      rintro rfl
      rw [hc.1] at hy
      cases hy
    simp only [step, htrove, hy]
    exact shared_of_update hne hy (h.pointers y rhs hy) _
  | assignMove x y =>
    have hne : x ≠ y := hmoves
    obtain ⟨old, hx⟩ := Option.isSome_iff_exists.mp hc.1
    obtain ⟨rhs, hy⟩ := Option.isSome_iff_exists.mp hc.2
    simp only [step, hy, if_neg hne] at hsound ⊢
    obtain ⟨-, memory', -, -, -, heq⟩ := replace_sound h hs hx hsound
    rw [heq]
    exact shared_of_update hne hy (h.pointers y rhs hy) _
  | destroy x => cases hmoves

omit [DecidableEq α] in
theorem held_nil : Held ({} : Site α) :=
  ⟨nofun, fun _ hmem => Option.mem_some.mp hmem ▸ List.nodup_nil⟩

omit [DecidableEq α] in
theorem sound_nil : Sound ({} : Site α) := ⟨[], rfl, nofun⟩

omit [DecidableEq α] in
theorem Sound.trove_ne_none (h : Sound s) : s.trove ≠ none := by
  obtain ⟨memory, htrove, -⟩ := h
  exact ne_of_eq_of_ne htrove (Option.some_ne_none memory)

/-- **A treasure that has been moved is never cleaned up soundly.** -/
theorem shared_run {cmds : List (Cmd α)} (hcomplete : Complete cmds) (halloc : Allocated cmds)
    (hsound : ∀ l, l <+: cmds → Sound (run l)) (hmoves : ∃ c ∈ cmds, c.Moves) :
    Shared (run cmds) := by
  refine (Trace.invariant_prefix step id
    (fun s l => Held s ∧ Sound s ∧ ((∃ c ∈ l, c.Moves) → Shared s))
    (fun s c => Legal s c ∧ Sound (step s c)) (fun s l c ⟨h, hs, hshared⟩ ⟨hc, hnext⟩ => ?_)
    ⟨held_nil, sound_nil, fun ⟨_, hmem, _⟩ => by cases hmem⟩
    (fun l c hl => ⟨legal_run hcomplete halloc hl
        (hsound l ((List.prefix_append l [c]).trans hl)).trove_ne_none,
      run_append_singleton l c ▸ hsound _ hl⟩)
    (List.prefix_refl cmds)).2.2 hmoves
  refine ⟨held_step h hc, hnext, ?_⟩
  rintro ⟨c', hmem, hmoves'⟩
  rcases List.mem_append.mp hmem with hmem | hmem
  · exact shared_step h hs hc hnext (hshared ⟨c', hmem, hmoves'⟩)
  · exact shared_of_moves h hs hc hnext (List.mem_singleton.mp hmem ▸ hmoves')

/-! ## The order -/

/-- Each object has a treasure of its own; they are in the trove in this order. -/
structure Owned (s : Site α) (queue : List (Nat × α)) : Prop where
  trove : s.trove = some (queue.map Prod.snd)
  objects : ∀ x b, s.objects x = some b ↔ ∃ treasure, (x, treasure) ∈ queue ∧ b = ⟨some treasure⟩
  names : (queue.map Prod.fst).Nodup
  treasures : (queue.map Prod.snd).Nodup

section Owned

omit [DecidableEq α] in
theorem owned_nil : Owned ({} : Site α) [] :=
  ⟨rfl, fun _ _ => iff_of_false nofun fun ⟨_, hmem, _⟩ => List.not_mem_nil hmem, List.nodup_nil,
    List.nodup_nil⟩

variable {queue : List (Nat × α)}

omit [DecidableEq α] in
theorem Owned.held (h : Owned s queue) : Held s := by
  refine ⟨fun x b hx => ?_, fun memory hmem => ?_⟩
  · obtain ⟨treasure, -, rfl⟩ := (h.objects x b).mp hx
    nofun
  · rw [h.trove] at hmem
    exact Option.mem_some.mp hmem ▸ h.treasures

omit [DecidableEq α] in
theorem Owned.sound (h : Owned s queue) : Sound s := by
  refine ⟨_, h.trove, fun x b hx treasure hmem => ?_⟩
  obtain ⟨treasure', hqueue, rfl⟩ := (h.objects x b).mp hx
  obtain rfl := Option.some.inj hmem
  exact List.mem_map_of_mem hqueue

omit [DecidableEq α] in
theorem Owned.not_mem_names (h : Owned s queue) {x : Nat} (hx : s.objects x = none) :
    x ∉ queue.map Prod.fst := by
  intro hmem
  obtain ⟨⟨_, treasure⟩, hqueue, rfl⟩ := List.mem_map.mp hmem
  rw [(h.objects _ _).mpr ⟨treasure, hqueue, rfl⟩] at hx
  cases hx

omit [DecidableEq α] in
theorem Owned.construct (h : Owned s queue) {x : Nat} {treasure : α} (hx : s.objects x = none)
    (hnew : treasure ∉ queue.map Prod.snd) :
    Owned ⟨some (queue.map Prod.snd ++ [treasure]),
      Function.update s.objects x (some ⟨some treasure⟩)⟩ (queue ++ [(x, treasure)]) := by
  have hnot := h.not_mem_names hx
  refine ⟨?_, fun y b => ?_, ?_, ?_⟩
  · rw [List.map_append]
    rfl
  · show Function.update s.objects x _ y = some b ↔ _
    by_cases hyx : y = x
    · subst hyx
      rw [Function.update_self]
      constructor
      · intro hb
        obtain rfl := Option.some.inj hb
        exact ⟨treasure, List.mem_append_right _ (List.mem_singleton_self _), rfl⟩
      · rintro ⟨treasure', hmem, rfl⟩
        rcases List.mem_append.mp hmem with hmem | hmem
        · exact absurd (List.mem_map_of_mem hmem) hnot
        · obtain ⟨-, rfl⟩ := Prod.mk.inj (List.mem_singleton.mp hmem)
          rfl
    · rw [Function.update_of_ne hyx, h.objects]
      refine exists_congr fun treasure' => and_congr_left fun _ => ?_
      rw [List.mem_append, List.mem_singleton, Prod.mk.injEq]
      exact (or_iff_left fun heq => hyx heq.1).symm
  · rw [List.map_append]
    exact nodup_add h.names hnot
  · rw [List.map_append]
    exact nodup_add h.treasures hnew

/-- The first object can be destroyed. -/
theorem Owned.destroy {x : Nat} {treasure : α} (h : Owned s ((x, treasure) :: queue)) :
    Owned (s.replace x none) queue := by
  have hx : s.objects x = some ⟨some treasure⟩ :=
    (h.objects x _).mpr ⟨treasure, List.mem_cons_self, rfl⟩
  have hnot : x ∉ queue.map Prod.fst := (List.nodup_cons.mp h.names).1
  have hcleanup : cleanup ⟨some treasure⟩ (treasure :: queue.map Prod.snd) =
      some (queue.map Prod.snd) := TreasureTrove.cleanup_eq_some_iff.mpr (.inr rfl)
  have heq : s.replace x none =
      ⟨some (queue.map Prod.snd), Function.update s.objects x none⟩ := by
    simp only [Site.replace, h.trove, hx, List.map_cons, hcleanup]
  rw [heq]
  refine ⟨rfl, fun y b => ?_, (List.nodup_cons.mp h.names).2, (List.nodup_cons.mp h.treasures).2⟩
  show Function.update s.objects x none y = some b ↔ _
  by_cases hyx : y = x
  · subst hyx
    rw [Function.update_self]
    refine iff_of_false nofun ?_
    rintro ⟨treasure', hmem, -⟩
    exact hnot (List.mem_map_of_mem hmem)
  · rw [Function.update_of_ne hyx, h.objects]
    refine exists_congr fun treasure' => and_congr_left fun _ => ?_
    rw [List.mem_cons, Prod.mk.injEq]
    exact or_iff_right fun heq => hyx heq.1

/-- **One command without a move**, if a destroyed object is the first one. -/
theorem Owned.step (h : Owned s queue) (hc : Legal s c) (hmoves : ¬ c.Moves)
    (hfirst : ∀ x, c = .destroy x → (queue.map Prod.fst).head? = some x) :
    ∃ queue', Owned (step s c) queue' ∧
      queue.map Prod.fst ++ c.constructed.toList = c.destroyed.toList ++ queue'.map Prod.fst := by
  cases c with
  | construct x treasure =>
    refine ⟨queue ++ [(x, treasure)], ?_, ?_⟩
    · simp only [BuriedTreasure.step, h.trove]
      exact h.construct hc.1 (hc.2 _ h.trove)
    · rw [List.map_append]
      rfl
  | constructMove x y => exact absurd trivial hmoves
  | assignMove x y =>
    refine ⟨queue, ?_, List.append_nil _⟩
    rw [BuriedTreasure.step, if_pos (not_not.mp hmoves)]
    exact h
  | destroy x =>
    cases queue with
    | nil => cases hfirst x rfl
    | cons entry queue =>
      obtain ⟨x', treasure⟩ := entry
      obtain rfl : x' = x := Option.some.inj (hfirst x rfl)
      exact ⟨queue, h.destroy, List.append_nil _⟩

end Owned

omit [DecidableEq α] in
theorem filterMap_append_singleton (f : Cmd α → Option Nat) (l : List (Cmd α)) (c : Cmd α) :
    (l ++ [c]).filterMap f = l.filterMap f ++ (f c).toList := by
  rw [List.filterMap_append]
  cases hc : f c <;> simp [hc]

/-- The objects of a program without moves, if each is the first one when it is destroyed. -/
theorem owned_run {cmds : List (Cmd α)} (hcomplete : Complete cmds) (halloc : Allocated cmds)
    (hmoves : ∀ c ∈ cmds, ¬ c.Moves)
    (hfirst : ∀ l x queue, l ++ [.destroy x] <+: cmds → Owned (run l) queue →
      l.filterMap Cmd.constructed = l.filterMap Cmd.destroyed ++ queue.map Prod.fst →
      (queue.map Prod.fst).head? = some x)
    {l : List (Cmd α)} (hl : l <+: cmds) :
    ∃ queue, Owned (run l) queue ∧
      l.filterMap Cmd.constructed = l.filterMap Cmd.destroyed ++ queue.map Prod.fst := by
  induction l using List.reverseRecOn with
  | nil => exact ⟨[], owned_nil, rfl⟩
  | append_singleton l c ih =>
    obtain ⟨queue, howned, horder⟩ := ih ((List.prefix_append l [c]).trans hl)
    have hmem : c ∈ cmds := hl.subset (List.mem_append_right l (List.mem_singleton_self c))
    obtain ⟨queue', howned', horder'⟩ :=
      howned.step (legal_run hcomplete halloc hl howned.sound.trove_ne_none) (hmoves c hmem)
        fun x hx => hfirst l x queue (hx ▸ hl) howned horder
    refine ⟨queue', run_append_singleton l c ▸ howned', ?_⟩
    calc (l ++ [c]).filterMap Cmd.constructed
        = l.filterMap Cmd.constructed ++ c.constructed.toList := filterMap_append_singleton ..
      _ = l.filterMap Cmd.destroyed ++ (c.destroyed.toList ++ queue'.map Prod.fst) := by
        rw [horder, List.append_assoc, horder']
      _ = (l ++ [c]).filterMap Cmd.destroyed ++ queue'.map Prod.fst := by
        rw [filterMap_append_singleton, List.append_assoc]

/-- An object that is destroyed between sound states is the first one. -/
theorem first_of_sound {queue : List (Nat × α)} {x : Nat} (h : Owned s queue)
    (hx : (s.objects x).isSome) (hsound : Sound (s.replace x none)) :
    (queue.map Prod.fst).head? = some x := by
  obtain ⟨old, hold⟩ := Option.isSome_iff_exists.mp hx
  obtain ⟨treasure, memory, rfl, htrove, -, -⟩ := replace_sound h.held h.sound hold hsound
  obtain ⟨treasure', hmem, heq⟩ := (h.objects x _).mp hold
  obtain rfl : treasure = treasure' := by
    cases heq
    rfl
  rw [h.trove] at htrove
  cases queue with
  | nil => cases hmem
  | cons entry queue =>
    obtain ⟨x', treasure'⟩ := entry
    obtain ⟨rfl, -⟩ := List.cons.inj (Option.some.inj htrove)
    rcases List.mem_cons.mp hmem with heq | hmem
    · rw [(Prod.mk.inj heq).1]
      rfl
    · exact absurd (List.mem_map_of_mem hmem) (List.nodup_cons.mp h.treasures).1

/-- An object that is destroyed in the order of the constructions is the first one. -/
theorem first_of_order {queue : List (Nat × α)} {cmds l : List (Cmd α)} {x : Nat}
    (h : Owned (run l) queue) (hx : ((run l).objects x).isSome) (hl : l ++ [.destroy x] <+: cmds)
    (horder : cmds.filterMap Cmd.destroyed = cmds.filterMap Cmd.constructed)
    (hqueue : l.filterMap Cmd.constructed = l.filterMap Cmd.destroyed ++ queue.map Prod.fst) :
    (queue.map Prod.fst).head? = some x := by
  obtain ⟨old, hold⟩ := Option.isSome_iff_exists.mp hx
  obtain ⟨treasure, hmem, -⟩ := (h.objects x old).mp hold
  -- both lists go on in the list of all constructions
  have hdestroyed : l.filterMap Cmd.destroyed ++ [x] <+: cmds.filterMap Cmd.constructed := by
    have hprefix := hl.filterMap Cmd.destroyed
    rw [filterMap_append_singleton, horder] at hprefix
    exact hprefix
  have hconstructed :
      l.filterMap Cmd.destroyed ++ queue.map Prod.fst <+: cmds.filterMap Cmd.constructed := by
    rw [← hqueue]
    exact ((List.prefix_append l _).trans hl).filterMap Cmd.constructed
  have hlength : 1 ≤ (queue.map Prod.fst).length := by
    rw [List.length_map]
    exact List.length_pos_of_mem hmem
  have hfirst : [x] <+: queue.map Prod.fst := by
    refine (List.prefix_append_right_inj (l.filterMap Cmd.destroyed)).mp ?_
    refine List.prefix_of_prefix_length_le hdestroyed hconstructed ?_
    rw [List.length_append, List.length_append]
    exact Nat.add_le_add_left hlength _
  obtain ⟨rest, heq⟩ := hfirst
  rw [← heq]
  rfl

/-- **When programs with treasures are sound.** A program whose text destroys all of its objects
never waits for ever, and never has an object whose treasure is gone, if and only if it moves none,
and destroys them in the order in which it constructs them. The trove is then empty. -/
theorem sound_run_iff (cmds : List (Cmd α)) (hcomplete : Complete cmds)
    (halloc : Allocated cmds) :
    ((∀ l, l <+: cmds → Sound (run l)) ↔
      (∀ c ∈ cmds, ¬ c.Moves) ∧ cmds.filterMap Cmd.destroyed = cmds.filterMap Cmd.constructed) ∧
    ((∀ l, l <+: cmds → Sound (run l)) → (run cmds).trove = some []) := by
  have hlegal {l : List (Cmd α)} {c : Cmd α} {queue : List (Nat × α)} (hl : l ++ [c] <+: cmds)
      (howned : Owned (run l) queue) : Legal (run l) c :=
    legal_run hcomplete halloc hl howned.sound.trove_ne_none
  have hqueue {queue : List (Nat × α)} (h : Owned (run cmds) queue) : queue = [] := by
    refine List.eq_nil_iff_forall_not_mem.mpr fun ⟨x, treasure⟩ hmem => ?_
    have hx := (h.objects x _).mpr ⟨treasure, hmem, rfl⟩
    rw [objects_eq_none hcomplete h.sound.trove_ne_none x] at hx
    cases hx
  have hmoves (hsound : ∀ l, l <+: cmds → Sound (run l)) : ∀ c ∈ cmds, ¬ c.Moves := by
    intro c hmem hmoves
    obtain ⟨x, -, treasure, -, hx, -⟩ := shared_run hcomplete halloc hsound ⟨c, hmem, hmoves⟩
    rw [objects_eq_none hcomplete (hsound _ (List.prefix_refl cmds)).trove_ne_none x] at hx
    cases hx
  have hforward (hsound : ∀ l, l <+: cmds → Sound (run l)) :
      Owned (run cmds) [] ∧
        cmds.filterMap Cmd.destroyed = cmds.filterMap Cmd.constructed := by
    obtain ⟨queue, howned, horder⟩ := owned_run hcomplete halloc (hmoves hsound)
      (fun l x queue hl howned _ => first_of_sound howned (hlegal hl howned)
        ((run_append_singleton l (.destroy x)).subst (hsound _ hl))) (List.prefix_refl cmds)
    obtain rfl := hqueue howned
    exact ⟨howned, (horder.trans (List.append_nil _)).symm⟩
  refine ⟨⟨fun hsound => ⟨hmoves hsound, (hforward hsound).2⟩, ?_⟩, fun hsound =>
    (hforward hsound).1.trove⟩
  rintro ⟨hmoves, horder⟩ l hl
  obtain ⟨queue, howned, -⟩ := owned_run hcomplete halloc hmoves
    (fun l x queue hl howned => first_of_order howned (hlegal hl howned) hl horder) hl
  exact howned.sound

/-- Two objects of one scope: the second one is destroyed first. -/
def inScope : List (Cmd Nat) := [.construct 0 7, .construct 1 8, .destroy 1, .destroy 0]

theorem complete_inScope : Complete inScope := by
  refine ⟨⟨?_, ?_, ?_, ?_, trivial⟩, by decide⟩ <;> simp [Cmd.WellScoped, Cmd.scope]

theorem allocated_inScope : Allocated inScope := by
  refine ⟨?_, ?_, trivial, trivial, trivial⟩ <;> simp [Fresh, step, TreasureTrove.add]

theorem sound_run_iff_inScope :
    Complete inScope ∧ Allocated inScope ∧ ¬ ∀ l, l <+: inScope → Sound (run l) := by
  refine ⟨complete_inScope, allocated_inScope, fun hsound => ?_⟩
  obtain ⟨-, horder⟩ :=
    (sound_run_iff inScope complete_inScope allocated_inScope).1.mp hsound
  cases horder

/-- In one scope, the second object is destroyed first, and that does not end. -/
example : (run [.construct 0 7, .construct 1 8, .destroy 1]).trove = none := by decide

/-- After a move, the treasure is gone with the source. -/
example : (run [.construct 0 7, .constructMove 1 0, .destroy 0]).trove = some [] := by decide

end BuriedTreasure

end Fluffycoin.Async
