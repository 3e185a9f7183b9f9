import Mathlib.Data.List.Induction

/-!
# Runs of a state machine

A deterministic machine: `step s a` is what input `a` gives in state `s`, `next` the state after it.
`trace` lists the steps of a run, `final` is the state it ends in. `invariant` is the induction over
a run: a relation between the state and the history of what the steps emit, kept by every step,
holds at the end, and what each step guarantees under it holds of every step of the run. The steps
may be required to meet a condition. `invariant_prefix` is the same for a relation between the state
and the inputs so far. `Along` says that every step of a run is taken in a state that meets a
condition, and `invariant_along` is the rule for an invariant that steps keep under it;
`invariant_iff_along` is for one that they keep under no other.
`final_simulates` is for a part of the state that is a machine of its own: if each step is a run of
it, so is a whole run.
-/

namespace Trace

variable {σ α ρ β : Type}

/-- One step of a run. -/
structure Entry (σ α ρ : Type) where
  before : σ
  input : α
  ret : ρ

section Machine

variable (step : σ → α → ρ) (next : ρ → σ)

/-- The step taken in state `s` on input `a`. -/
def entry (s : σ) (a : α) : Entry σ α ρ := ⟨s, a, step s a⟩

/-- The steps of a run. -/
def trace : σ → List α → List (Entry σ α ρ)
  | _, [] => []
  | s, a :: as => entry step s a :: trace (next (step s a)) as

/-- The state a run ends in. -/
def final : σ → List α → σ
  | s, [] => s
  | s, a :: as => final (next (step s a)) as

theorem input_mem_of_mem_trace {s : σ} {as : List α} {e : Entry σ α ρ}
    (h : e ∈ trace step next s as) : e.input ∈ as := by
  induction as generalizing s with
  | nil => cases h
  | cons a as ih =>
    rcases List.mem_cons.mp h with rfl | h
    · exact List.mem_cons_self
    · exact List.mem_cons_of_mem _ (ih h)

theorem final_append (s : σ) (as bs : List α) :
    final step next s (as ++ bs) = final step next (final step next s as) bs := by
  induction as generalizing s with
  | nil => rfl
  | cons a as ih => exact ih _

theorem trace_append (s : σ) (as bs : List α) :
    trace step next s (as ++ bs) =
      trace step next s as ++ trace step next (final step next s as) bs := by
  induction as generalizing s with
  | nil => rfl
  | cons a as ih => exact congrArg (_ :: ·) (ih _)

/-- **The simulation rule.** `f` is the state of another machine, which each step takes through the
inputs `emit`. -/
theorem final_simulates {τ α' ρ' : Type} {step' : τ → α' → ρ'} {next' : ρ' → τ} (f : σ → τ)
    (emit : Entry σ α ρ → List α')
    (hstep : ∀ s a, f (next (step s a)) = final step' next' (f s) (emit (entry step s a)))
    (s : σ) (as : List α) :
    f (final step next s as) =
      final step' next' (f s) ((trace step next s as).flatMap emit) := by
  induction as generalizing s with
  | nil => rfl
  | cons a as ih =>
    rw [trace, List.flatMap_cons, final_append, ← hstep]
    exact ih _

end Machine

/-- **The invariant rule.** `C` is the condition on the steps of the run, `P` what each step then
guarantees, and `Inv` relates the state to the history emitted so far. -/
theorem invariant (step : σ → α → ρ) (next : ρ → σ) (Inv : σ → List β → Prop)
    (emit : Entry σ α ρ → Option β) (C P : Entry σ α ρ → Prop)
    (hstep : ∀ s l a, Inv s l → C (entry step s a) →
      Inv (next (step s a)) (l ++ (emit (entry step s a)).toList) ∧ P (entry step s a))
    (as : List α) (s : σ) (l : List β) (hinv : Inv s l)
    (hC : ∀ e ∈ trace step next s as, C e) :
    Inv (final step next s as) (l ++ (trace step next s as).filterMap emit) ∧
      ∀ e ∈ trace step next s as, P e := by
  induction as generalizing s l with
  | nil =>
    refine ⟨?_, fun e he => by cases he⟩
    rw [trace, List.filterMap_nil, List.append_nil]
    exact hinv
  | cons a as ih =>
    obtain ⟨hhead, htail⟩ := List.forall_mem_cons.mp hC
    obtain ⟨hnext, hP⟩ := hstep s l a hinv hhead
    obtain ⟨hfinal, hPs⟩ := ih _ _ hnext htail
    refine ⟨?_, List.forall_mem_cons.mpr ⟨hP, hPs⟩⟩
    rw [trace, List.filterMap_cons]
    cases hemit : emit (entry step s a) with
    | none =>
      rw [hemit, Option.toList_none, List.append_nil] at hfinal
      exact hfinal
    | some b =>
      rw [hemit, Option.toList_some, List.append_assoc] at hfinal
      exact hfinal

/-- **The invariant rule, by moments.** If every step of a run is taken in a state that meets `C`,
`Inv` holds between the steps, of the state and the inputs so far. -/
theorem invariant_prefix (step : σ → α → ρ) (next : ρ → σ) (Inv : σ → List α → Prop)
    (C : σ → α → Prop) (hstep : ∀ s l a, Inv s l → C s a → Inv (next (step s a)) (l ++ [a]))
    {s : σ} (hinv : Inv s []) {as : List α}
    (hC : ∀ l a, l ++ [a] <+: as → C (final step next s l) a) {l : List α} (hl : l <+: as) :
    Inv (final step next s l) l := by
  induction l using List.reverseRecOn with
  | nil => exact hinv
  | append_singleton l a ih =>
    rw [final_append]
    exact hstep _ l a (ih ((List.prefix_append l [a]).trans hl)) (hC l a hl)

section Along

variable (step : σ → α → ρ) (next : ρ → σ) (C : σ → α → Prop)

/-- Every step of the run is taken in a state that meets `C`. -/
def Along : σ → List α → Prop
  | _, [] => True
  | s, a :: as => C s a ∧ Along (next (step s a)) as

variable {step next C}

theorem along_append {s : σ} {as bs : List α} :
    Along step next C s (as ++ bs) ↔
      Along step next C s as ∧ Along step next C (final step next s as) bs := by
  induction as generalizing s with
  | nil => exact (iff_of_eq (true_and _)).symm
  | cons a as ih =>
    rw [List.cons_append, Along, ih, ← and_assoc]
    rfl

theorem Along.of_prefix {s : σ} {as l : List α} {a : α} (h : Along step next C s as)
    (hl : l ++ [a] <+: as) : C (final step next s l) a := by
  obtain ⟨rest, rfl⟩ := hl
  exact (along_append.mp (along_append.mp h).1).2.1

theorem Along.of_mem_trace {s : σ} {as : List α} (h : Along step next C s as) {e : Entry σ α ρ}
    (he : e ∈ trace step next s as) : C e.before e.input := by
  induction as generalizing s with
  | nil => cases he
  | cons a as ih =>
    rcases List.mem_cons.mp he with rfl | he
    · exact h.1
    · exact ih h.2 he

theorem along_of_forall {s : σ} {as : List α} (h : ∀ a ∈ as, ∀ s, C s a) :
    Along step next C s as := by
  induction as generalizing s with
  | nil => trivial
  | cons a as ih =>
    obtain ⟨ha, has⟩ := List.forall_mem_cons.mp h
    exact ⟨ha s, ih has⟩

/-- **The invariant rule, along a run.** -/
theorem invariant_along (Inv : σ → Prop)
    (hstep : ∀ s a, Inv s → C s a → Inv (next (step s a))) {s : σ} (hinv : Inv s)
    {as : List α} (hC : Along step next C s as) {l : List α} (hl : l <+: as) :
    Inv (final step next s l) := by
  exact invariant_prefix step next (fun s _ => Inv s) C (fun s _ a => hstep s a) hinv
    (fun l a hla => hC.of_prefix hla) hl

/-- **The exact condition of an invariant.** If `C` says of each step whether it keeps the
invariant, it says so of a run. -/
theorem invariant_iff_along (Inv : σ → Prop)
    (hstep : ∀ s a, Inv s → (Inv (next (step s a)) ↔ C s a)) {s : σ} (hinv : Inv s)
    (as : List α) :
    (∀ l, l <+: as → Inv (final step next s l)) ↔ Along step next C s as := by
  constructor
  · intro h
    induction as generalizing s with
    | nil => trivial
    | cons a as ih =>
      have hnext : Inv (next (step s a)) := h [a] ⟨as, rfl⟩
      refine ⟨(hstep s a hinv).mp hnext, ih hnext fun l hl => ?_⟩
      exact h (a :: l) (List.cons_prefix_cons.mpr ⟨rfl, hl⟩)
  · intro h l hl
    exact invariant_along Inv (fun s a hs => (hstep s a hs).mpr) hinv h hl

end Along

end Trace
