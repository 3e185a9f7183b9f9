import Mathlib.Data.List.Basic

/-!
# `DelimitedString`

Model of `src/utils/DelimitedString.h`: texts that are lists of texts with a delimiter between them.
`ε` is the type of the elements; a `std::string` is a list of its characters.

`fromString` cuts a text from `startPos` to the next delimiter and goes on from there, not from the
character after it (`DelimitedString.h:25-27`). So `fromStringLoop` is given a number of rounds and
fails when they are used up.

* `pieces` is what a text should be split into.
* `fromString_of_mem`: at a delimiter the loop cuts out empty pieces for ever.
* `splits_iff`, `inverts_iff`: so a text is split exactly if there is nothing to split, and joining
  is undone exactly for lists of at most one element.
-/

namespace Fluffycoin.DelimitedString

variable {ε : Type} (fromStr : List Char → ε) (toStr : ε → List Char)

/-- `std::string::find(delimiter, pos)`; `none` is `npos`. -/
def find (str : List Char) (delimiter : Char) (pos : Nat) : Option Nat :=
  ((str.drop pos).findIdx? (· == delimiter)).map (pos + ·)

/-- `std::string::substr`. -/
def substr (str : List Char) (pos len : Nat) : List Char := (str.drop pos).take len

/-- Some rounds of the loop of `DelimitedString::fromString`. -/
def fromStringLoop (str : List Char) (delimiter : Char) :
    Nat → Nat → Option Nat → List ε → Option (List ε)
  | 0, _, _, _ => none
  | rounds + 1, startPos, pos, ret =>
    if startPos < str.length then
      let pos := pos.getD str.length
      fromStringLoop str delimiter rounds pos (find str delimiter pos)
        (ret ++ [fromStr (substr str startPos (pos - startPos))])
    else some ret

/-- `DelimitedString::fromString`; `none` if the rounds are not enough. -/
def fromString (rounds : Nat) (str : List Char) (delimiter : Char) : Option (List ε) :=
  fromStringLoop fromStr str delimiter rounds 0 (find str delimiter 0) []

/-- `DelimitedString::toString`. -/
def toString (elements : List ε) (delimiter : Char) : List Char :=
  elements.foldl (fun ret element =>
    (if ret ≠ [] then ret ++ [delimiter] else ret) ++ toStr element) []

/-- The maximal pieces without a delimiter, in order, but for an empty one at the end. -/
def pieces (str : List Char) (delimiter : Char) : List (List Char) :=
  let all := str.splitOn delimiter
  if all.getLast? = some [] then all.dropLast else all

/-! ## The loop -/

variable {str : List Char} {delimiter : Char}

theorem find_eq_none (h : delimiter ∉ str) (pos : Nat) : find str delimiter pos = none := by
  unfold find
  rw [Option.map_eq_none_iff, List.findIdx?_eq_none_iff]
  intro c hc
  rw [beq_eq_false_iff_ne]
  rintro rfl
  exact h (List.mem_of_mem_drop hc)

theorem fromStringLoop_succ {startPos : Nat} (h : startPos < str.length) (rounds pos : Nat)
    (ret : List ε) :
    fromStringLoop fromStr str delimiter (rounds + 1) startPos (some pos) ret =
      fromStringLoop fromStr str delimiter rounds pos (find str delimiter pos)
        (ret ++ [fromStr (substr str startPos (pos - startPos))]) :=
  if_pos h

/-- From a delimiter on the loop stays where it is. -/
theorem fromStringLoop_of_find {pos : Nat} (hlt : pos < str.length)
    (hfind : find str delimiter pos = some pos) (rounds : Nat) (ret : List ε) :
    fromStringLoop fromStr str delimiter rounds pos (some pos) ret = none := by
  induction rounds generalizing ret with
  | zero => rfl
  | succ rounds ih =>
    rw [fromStringLoop_succ fromStr hlt, hfind]
    exact ih _

/-- The first delimiter is found from the start and from itself. -/
theorem exists_find (h : delimiter ∈ str) :
    ∃ pos < str.length, find str delimiter 0 = some pos ∧ find str delimiter pos = some pos := by
  obtain ⟨before, after, rfl, hbefore⟩ := List.eq_append_cons_of_mem h
  have hnone : before.findIdx? (· == delimiter) = none := by
    rw [List.findIdx?_eq_none_iff]
    intro c hc
    rw [beq_eq_false_iff_ne]
    rintro rfl
    exact hbefore hc
  refine ⟨before.length, by simp, ?_, ?_⟩
  · simp [find, List.findIdx?_append, hnone, List.findIdx?_cons]
  · simp [find, List.findIdx?_cons]

/-- **A text with a delimiter is never split.** -/
theorem fromString_of_mem (h : delimiter ∈ str) (rounds : Nat) :
    fromString fromStr rounds str delimiter = none := by
  obtain ⟨pos, hlt, hfirst, hagain⟩ := exists_find h
  unfold fromString
  cases rounds with
  | zero => rfl
  | succ rounds =>
    rw [hfirst, fromStringLoop_succ fromStr (Nat.zero_lt_of_lt hlt), hagain]
    exact fromStringLoop_of_find fromStr hlt hagain rounds _

theorem pieces_of_not_mem (h : delimiter ∉ str) :
    pieces str delimiter = if str = [] then [] else [str] := by
  have hall : str.splitOn delimiter = [str] := by
    refine List.splitOnP_eq_singleton fun c hc => ?_
    rw [beq_eq_false_iff_ne]
    rintro rfl
    exact h hc
  unfold pieces
  rw [hall]
  simp

/-- A text without one is its only piece. -/
theorem fromString_of_not_mem (h : delimiter ∉ str) :
    fromString fromStr 2 str delimiter = some ((pieces str delimiter).map fromStr) := by
  rw [pieces_of_not_mem h]
  unfold fromString
  rw [find_eq_none h]
  cases str with
  | nil => rfl
  | cons c str => simp [fromStringLoop, substr]

/-- `fromString` ends, with the pieces of the text. -/
def Splits (str : List Char) (delimiter : Char) : Prop :=
  ∃ rounds, fromString fromStr rounds str delimiter = some ((pieces str delimiter).map fromStr)

/-- **Which texts are split**: those without a delimiter. -/
theorem splits_iff (str : List Char) (delimiter : Char) :
    Splits fromStr str delimiter ↔ delimiter ∉ str := by
  constructor
  · rintro ⟨rounds, hsome⟩ hmem
    rw [fromString_of_mem fromStr hmem] at hsome
    cases hsome
  · intro h
    exact ⟨2, fromString_of_not_mem fromStr h⟩

/-! ## Joining -/

/-- `fromString` undoes `toString`. -/
def Inverts (elements : List (List Char)) (delimiter : Char) : Prop :=
  ∃ rounds, fromString id rounds (toString id elements delimiter) delimiter = some elements

/-- What has been written stays. -/
theorem mem_foldl_of_mem {c : Char} (elements : List (List Char)) {ret : List Char}
    (h : c ∈ ret) :
    c ∈ elements.foldl (fun ret element =>
      (if ret ≠ [] then ret ++ [delimiter] else ret) ++ id element) ret := by
  induction elements generalizing ret with
  | nil => exact h
  | cons element elements ih =>
    apply ih
    rw [List.mem_append]
    left
    split
    · exact List.mem_append_left _ h
    · exact h

/-- A second element is joined by a delimiter. -/
theorem mem_toString {first : List Char} (h : first ≠ []) (second : List Char)
    (elements : List (List Char)) :
    delimiter ∈ toString id (first :: second :: elements) delimiter := by
  rw [toString, List.foldl_cons, List.foldl_cons]
  apply mem_foldl_of_mem elements
  simp [h]

/-- **Which lists are read back**: those with nothing to join. -/
theorem inverts_iff {elements : List (List Char)}
    (h : ∀ element ∈ elements, element ≠ [] ∧ delimiter ∉ element) :
    Inverts elements delimiter ↔ elements.length ≤ 1 := by
  match elements, h with
  | [], _ => exact iff_of_true ⟨1, rfl⟩ (Nat.zero_le 1)
  | [element], h =>
    obtain ⟨hne, hfree⟩ := h element List.mem_cons_self
    refine iff_of_true ⟨2, ?_⟩ (Nat.le_refl 1)
    have hpieces : pieces element delimiter = [element] := by
      rw [pieces_of_not_mem hfree, if_neg hne]
    have hsplit := fromString_of_not_mem id hfree
    rw [hpieces] at hsplit
    exact hsplit
  | first :: second :: elements, h =>
    refine iff_of_false ?_ (by simp)
    rintro ⟨rounds, hsome⟩
    rw [fromString_of_mem id (mem_toString (h first List.mem_cons_self).1 second elements)] at hsome
    cases hsome

/-- Two lines are never split. -/
theorem twoLines_not_splits :
    (∀ rounds, fromString id rounds ['a', '\n', 'b'] '\n' = none) ∧
      ¬ Splits id ['a', '\n', 'b'] '\n' ∧ ¬ Inverts [['a'], ['b']] '\n' := by
  have hnever : ∀ rounds, fromString id rounds ['a', '\n', 'b'] '\n' = none :=
    fromString_of_mem id (by decide)
  refine ⟨hnever, ?_, ?_⟩
  · rintro ⟨rounds, hsome⟩
    rw [hnever] at hsome
    cases hsome
  · rintro ⟨rounds, hsome⟩
    exact absurd ((hnever rounds).symm.trans hsome) (by decide)

end Fluffycoin.DelimitedString
