import Fluffycoin.Utils.Trace
import Mathlib.Data.List.Basic

/-!
# `async::TreasureTrove`

Model of `src/async/TreasureTrove.cpp`: the memory of ongoing tasks, in the order it was added.

`cleanup` walks the list with an iterator it never advances (`TreasureTrove.cpp:16-23`). So
`cleanupLoop` is given a number of rounds and fails when they are used up. `cleanup` fails exactly
when no number of rounds is enough (**`cleanup_eq_none_iff`**), and returns exactly when the list is
empty or starts with the item (`cleanup_eq_some_iff`).

`cleanup_iff`: so it does what it should exactly then. A call that does not return holds the mutex,
and no other call returns either; over a sequence of calls the trove is the list of what has been
added and not cleaned up exactly if each item is cleaned up while it is the first one.
-/

namespace Fluffycoin.Async.TreasureTrove

variable {α : Type} [DecidableEq α]

/-- `TreasureTrove::add`. -/
def add (memory : List α) (mem : α) : List α := memory ++ [mem]

/-- Some rounds of the loop of `TreasureTrove::cleanup`. -/
def cleanupLoop (item : α) (memory : List α) (iter : Nat) : Nat → Option (List α)
  | 0 => none
  | rounds + 1 =>
    match memory[iter]? with
    | none => some memory
    | some mem =>
      if mem = item then some (memory.eraseIdx iter)
      else cleanupLoop item memory iter rounds

/-- `TreasureTrove::cleanup`; `none` when it does not return. -/
def cleanup (memory : List α) (item : α) : Option (List α) :=
  cleanupLoop item memory 0 (memory.length + 1)

/-- The iterator stays at the front. -/
theorem cleanupLoop_cons_of_ne {mem item : α} (h : mem ≠ item) (memory : List α) (rounds : Nat) :
    cleanupLoop item (mem :: memory) 0 rounds = none := by
  induction rounds with
  | zero => rfl
  | succ rounds ih =>
    rw [cleanupLoop, List.getElem?_cons_zero]
    exact (if_neg h).trans ih

theorem cleanup_eq_some_iff {memory l : List α} {item : α} :
    cleanup memory item = some l ↔ (memory = [] ∧ l = []) ∨ memory = item :: l := by
  cases memory with
  | nil => simp [cleanup, cleanupLoop, eq_comm]
  | cons mem memory =>
    by_cases h : mem = item
    · simp [cleanup, cleanupLoop, h]
    · rw [cleanup, cleanupLoop_cons_of_ne h]
      simp [h]

/-- **`cleanup` fails exactly when the loop does not end.** -/
theorem cleanup_eq_none_iff (memory : List α) (item : α) :
    cleanup memory item = none ↔ ∀ rounds, cleanupLoop item memory 0 rounds = none := by
  refine ⟨fun h => ?_, fun h => h _⟩
  cases memory with
  | nil => cases h
  | cons mem memory =>
    by_cases hitem : mem = item
    · rw [cleanup_eq_some_iff.mpr (.inr (congrArg (· :: memory) hitem))] at h
      cases h
    · exact cleanupLoop_cons_of_ne hitem memory

/-! ## What it should do -/

/-- `cleanup` returns, without the entry of the item, and with all others in order. -/
def CleansUp (memory : List α) (item : α) : Prop :=
  ∃ rounds, cleanupLoop item memory 0 rounds = some (memory.erase item)

/-- Nothing stands before the item. -/
def First (memory : List α) (item : α) : Prop := ∀ mem ∈ memory.head?, mem = item

omit [DecidableEq α] in
theorem first_cons {mem item : α} {memory : List α} : First (mem :: memory) item ↔ mem = item := by
  simp [First]

/-- **When `cleanup` returns**: if nothing stands before the item. -/
theorem cleanup_eq_erase_iff (memory : List α) (item : α) :
    cleanup memory item = some (memory.erase item) ↔ First memory item := by
  rw [cleanup_eq_some_iff]
  cases memory with
  | nil => simp [First]
  | cons mem memory =>
    rw [first_cons]
    by_cases h : mem = item
    · simp [h]
    · simp [h]

theorem cleansUp_iff (memory : List α) (item : α) : CleansUp memory item ↔ First memory item := by
  rw [← cleanup_eq_erase_iff]
  constructor
  · rintro ⟨rounds, hsome⟩
    rw [cleanup_eq_erase_iff]
    cases memory with
    | nil => simp [First]
    | cons mem memory =>
      rw [first_cons]
      by_contra hne
      rw [cleanupLoop_cons_of_ne hne] at hsome
      cases hsome
  · intro h
    exact ⟨_, h⟩

/-! ## Calls -/

inductive Call (α : Type) where
  | add (mem : α)
  | cleanup (item : α)

/-- The trove after a call. If it is `none`, a call of `cleanup` holds the mutex and does not
return; no other call does then. -/
def step : Option (List α) → Call α → Option (List α)
  | none, _ => none
  | some memory, .add mem => some (add memory mem)
  | some memory, .cleanup item => cleanup memory item

/-- The trove after calls. -/
def run (calls : List (Call α)) : Option (List α) := Trace.final step id (some []) calls

/-- What has been added and not cleaned up, in order. -/
def kept : List (Call α) → List α :=
  List.foldl (fun
    | memory, .add mem => memory ++ [mem]
    | memory, .cleanup item => memory.erase item) []

/-- The item of a call of `cleanup` is the first entry. -/
def InOrder : Option (List α) → Call α → Prop
  | some memory, .cleanup item => First memory item
  | _, _ => True

theorem isSome_step_iff {s : Option (List α)} (c : Call α) (h : s.isSome = true) :
    (step s c).isSome = true ↔ InOrder s c := by
  obtain ⟨memory, rfl⟩ := Option.isSome_iff_exists.mp h
  cases c with
  | add mem => exact iff_of_true rfl trivial
  | cleanup item =>
    show (cleanup memory item).isSome = true ↔ First memory item
    rw [← cleanup_eq_erase_iff]
    constructor
    · intro hsome
      obtain ⟨l, hl⟩ := Option.isSome_iff_exists.mp hsome
      rw [hl]
      rcases cleanup_eq_some_iff.mp hl with ⟨rfl, rfl⟩ | rfl
      · rfl
      · rw [List.erase_cons_head]
    · intro hsome
      rw [hsome]
      rfl

/-- As long as all calls return, the trove holds what it should. -/
theorem run_eq_kept {calls : List (Call α)} (h : (run calls).isSome = true) :
    run calls = some (kept calls) := by
  induction calls using List.reverseRecOn with
  | nil => rfl
  | append_singleton calls c ih =>
    have hrun : run (calls ++ [c]) = step (run calls) c := Trace.final_append _ _ _ _ _
    have hsome : (run calls).isSome = true := by
      by_contra hnone
      rw [hrun, Option.not_isSome_iff_eq_none.mp hnone] at h
      cases h
    have hinOrder := (isSome_step_iff c hsome).mp (hrun ▸ h)
    rw [hrun, ih hsome, kept, List.foldl_append]
    rw [ih hsome] at hinOrder
    cases c with
    | add mem => rfl
    | cleanup item => exact (cleanup_eq_erase_iff _ _).mpr hinOrder

/-- **When `cleanup` removes its item**, for any contents, and when the calls all return, with the
trove as it should be at every moment. -/
theorem cleanup_iff (memory : List α) (item : α) (calls : List (Call α)) :
    (CleansUp memory item ↔ First memory item) ∧
    ((∀ l, l <+: calls → run l = some (kept l)) ↔ Trace.Along step id InOrder (some []) calls) := by
  refine ⟨cleansUp_iff memory item, ?_⟩
  rw [← Trace.invariant_iff_along (fun s => s.isSome = true) (fun s c h => isSome_step_iff c h) rfl]
  constructor
  · intro h l hl
    exact Option.isSome_iff_exists.mpr ⟨_, h l hl⟩
  · intro h l hl
    exact run_eq_kept (h l hl)

/-- Of two requests the second ends first. -/
theorem second_not_cleansUp :
    ¬ CleansUp [1, 2] 2 ∧ run [Call.add 1, .add 2, .cleanup 2] = none := by
  refine ⟨?_, by decide⟩
  rw [cleansUp_iff, first_cons]
  decide

end Fluffycoin.Async.TreasureTrove
