import Mathlib.Data.List.Basic
import Mathlib.Logic.Function.Basic

/-!
# A heap of blocks

The memory functions of C on a heap of blocks. A block is the list of its bytes, at an address of
its own; addresses are not used twice. Allocations succeed, and what is in new memory is arbitrary
(`junk`). A pointer is null, points into a block, or to memory outside of the heap, which it carries
with it.

`read` and `store` fail outside of a block, and so does everything after a block has been freed, or
if it is freed twice. Of null no bytes can be read. `freed` lists the blocks that have been freed,
as they were at that moment.

Each function has one lemma that says when it succeeds and what the blocks are then (`free_some`,
`store_block`, `read_block`), and `read_congr` which changes a pointer does not see. `Grown` is the
rule for a block that is allocated and then filled in steps.
-/

/-- A heap of blocks of `β`s. -/
structure Heap (β : Type) where
  block : Nat → Option (List β)
  next : Nat
  junk : Nat → Nat → β
  freed : List (List β)
  unused : ∀ a, next ≤ a → block a = none

namespace Heap

/-- A pointer: null, to memory outside of the heap, or into a block. -/
inductive Ptr (β : Type) where
  | null
  | foreign (data : List β)
  | block (addr off : Nat)

def Ptr.isNull {β : Type} : Ptr β → Bool
  | .null => true
  | _ => false

variable {β : Type} {h h' : Heap β} {a : Nat} {b data : List β}

/-- A heap without blocks. -/
def empty (junk : Nat → Nat → β) : Heap β := ⟨fun _ => none, 0, junk, [], fun _ _ => rfl⟩

/-! ## Allocation -/

/-- A new block with these contents, and its address. -/
def alloc (h : Heap β) (data : List β) : Nat × Heap β :=
  (h.next,
    { h with
      block := Function.update h.block h.next (some data)
      next := h.next + 1
      unused := fun a ha => by
        rw [Function.update_of_ne (Nat.ne_of_gt ha)]
        exact h.unused a (Nat.le_of_succ_le ha) })

/-- `malloc`. -/
def malloc (h : Heap β) (n : Nat) : Nat × Heap β :=
  h.alloc ((List.range n).map (h.junk h.next))

/-- `calloc` of one member; `zero` is the byte of zeros. -/
def calloc (h : Heap β) (zero : β) (n : Nat) : Nat × Heap β := h.alloc (List.replicate n zero)

/-- The blocks but the one at an address. -/
def without (h : Heap β) (p : Option Nat) (a : Nat) : Option (List β) :=
  if p = some a then none else h.block a

/-- The heap without a block. -/
def release (h : Heap β) (a : Nat) (b : List β) : Heap β :=
  { h with
    block := h.without (some a)
    freed := h.freed ++ [b]
    unused := fun x hx => by
      unfold without
      split_ifs
      · rfl
      · exact h.unused x hx }

/-- `free`; null is not freed. -/
def free (h : Heap β) : Option Nat → Option (Heap β)
  | none => some h
  | some a => (h.block a).map (h.release a)

theorem block_next (h : Heap β) : h.block h.next = none := h.unused _ (Nat.le_refl _)

theorem ne_next (hb : h.block a = some b) : a ≠ h.next := by
  rintro rfl
  rw [block_next] at hb
  cases hb

theorem without_none (h : Heap β) : h.without none = h.block := by
  funext a
  exact if_neg nofun

theorem without_next (h : Heap β) (p : Option Nat) : h.without p h.next = none := by
  unfold without
  rw [block_next, ite_self]

theorem free_some (hb : h.block a = some b) : h.free (some a) = some (h.release a b) := by
  rw [free, hb, Option.map_some]

/-! ## Reading and writing -/

/-- `n` bytes from a pointer on. -/
def read (h : Heap β) (p : Ptr β) (n : Nat) : Option (List β) :=
  if n = 0 then some []
  else
    match p with
    | .null => none
    | .foreign data => if n ≤ data.length then some (data.take n) else none
    | .block a off =>
      (h.block a).bind fun b => if off + n ≤ b.length then some ((b.drop off).take n) else none

/-- The heap with other contents of a block. -/
def write (h : Heap β) (a : Nat) (b : List β) : Heap β :=
  { h with
    block := fun x => if x = a ∧ a < h.next then some b else h.block x
    unused := fun x hx => by
      have hne : ¬ (x = a ∧ a < h.next) := by omega
      rw [if_neg hne]
      exact h.unused x hx }

/-- Bytes are written from a pointer on. -/
def store (h : Heap β) (p : Ptr β) (data : List β) : Option (Heap β) :=
  match p with
  | .block a off =>
    (h.block a).bind fun b =>
      if off + data.length ≤ b.length then
        some (h.write a (b.take off ++ data ++ b.drop (off + data.length)))
      else none
  | _ => none

/-- `memcpy`, and `memmove`: what is read is not what has been written. -/
def memcpy (h : Heap β) (dst src : Ptr β) (n : Nat) : Option (Heap β) := do
  let data ← h.read src n
  h.store dst data

/-- `memset`. -/
def memset (h : Heap β) (dst : Ptr β) (c : β) (n : Nat) : Option (Heap β) :=
  h.store dst (List.replicate n c)

/-- `memcmp`, as far as whether it is zero. -/
def memcmp [DecidableEq β] (h : Heap β) (p q : Ptr β) (n : Nat) : Option Bool := do
  let data ← h.read p n
  let data' ← h.read q n
  return decide (data = data')

/-- `realloc` of a block; of length zero it is freed and null returned. -/
def realloc (h : Heap β) (a n : Nat) : Option (Option Nat × Heap β) := do
  let b ← h.block a
  if n = 0 then
    let h ← h.free (some a)
    return (none, h)
  else
    let (a', h) := h.alloc (b.take n ++ ((List.range n).drop b.length).map (h.junk h.next))
    let h ← h.free (some a)
    return (some a', h)

theorem block_write (hb : h.block a = some b) :
    (h.write a data).block = Function.update h.block a (some data) := by
  have hlt : a < h.next := by
    by_contra hle
    rw [h.unused a (Nat.not_lt.mp hle)] at hb
    cases hb
  funext x
  by_cases hx : x = a
  · subst hx
    rw [Function.update_self]
    exact if_pos ⟨rfl, hlt⟩
  · rw [Function.update_of_ne hx]
    exact if_neg fun hxa => hx hxa.1

/-- A write inside of a block. -/
theorem store_block (hb : h.block a = some b) (off : Nat) (data : List β)
    (hle : off + data.length ≤ b.length) :
    h.store (.block a off) data =
      some (h.write a (b.take off ++ data ++ b.drop (off + data.length))) := by
  simp only [store, hb, Option.bind_some, if_pos hle]

theorem read_zero (h : Heap β) (p : Ptr β) : h.read p 0 = some [] := rfl

theorem read_block {off n : Nat} (hb : h.block a = some b) (hle : off + n ≤ b.length) :
    h.read (.block a off) n = some ((b.drop off).take n) := by
  by_cases hn : n = 0
  · subst hn
    rw [read_zero, List.take_zero]
  · simp only [read, if_neg hn, hb, Option.bind_some, if_pos hle]

theorem read_foreign (h : Heap β) (data rest : List β) :
    h.read (.foreign (data ++ rest)) data.length = some data := by
  by_cases hn : data.length = 0
  · rw [hn, read_zero, List.length_eq_zero_iff.mp hn]
  · simp [read, hn]

theorem length_read {p : Ptr β} {n : Nat} (hread : h.read p n = some data) : data.length = n := by
  unfold read at hread
  by_cases hn : n = 0
  · rw [if_pos hn] at hread
    cases hread
    exact hn.symm
  · rw [if_neg hn] at hread
    cases p with
    | null => cases hread
    | foreign bytes =>
      obtain ⟨hle, rfl⟩ : n ≤ bytes.length ∧ bytes.take n = data := by simpa using hread
      rw [List.length_take, Nat.min_eq_left hle]
    | block a off =>
      obtain ⟨b, -, hle, rfl⟩ : ∃ b, h.block a = some b ∧ off + n ≤ b.length ∧
          (b.drop off).take n = data := by simpa [Option.bind_eq_some_iff] using hread
      rw [List.length_take, List.length_drop]
      omega

/-- A pointer sees nothing of what happens in other blocks. -/
theorem read_congr {p : Ptr β} (n : Nat)
    (hp : ∀ a off, p = .block a off → h'.block a = h.block a) : h'.read p n = h.read p n := by
  unfold read
  cases p with
  | null => rfl
  | foreign data => rfl
  | block a off => simp only [hp a off rfl]

theorem without_update {p : Option Nat} (hp : p ≠ some a)
    (hblock : h'.block = Function.update h.block a (some b)) :
    h'.without p = Function.update (h.without p) a (some b) := by
  funext x
  unfold without
  rw [hblock]
  by_cases hx : x = a
  · subst hx
    rw [if_neg hp, Function.update_self, Function.update_self]
  · rw [Function.update_of_ne hx, Function.update_of_ne hx]

/-- A block taken away that was not there. -/
theorem without_of_update {blocks : Nat → Option (List β)} (ha : blocks a = none)
    (hblock : h.block = Function.update blocks a (some b)) : h.without (some a) = blocks := by
  funext x
  unfold without
  by_cases hx : x = a
  · rw [hx, if_pos rfl, ha]
  · rw [if_neg fun hax => hx (Option.some.inj hax).symm, hblock, Function.update_of_ne hx]

/-! ## A new block -/

/-- The heap has got a new block. -/
structure Grown (h h' : Heap β) (b : List β) : Prop where
  block : h'.block = Function.update h.block h.next (some b)
  freed : h'.freed = h.freed

theorem grown_alloc (h : Heap β) (b : List β) : Grown h (h.alloc b).2 b := ⟨rfl, rfl⟩

theorem Grown.block_of_some (hg : Grown h h' data) (hb : h.block a = some b) :
    h'.block a = some b := by
  rw [hg.block, Function.update_of_ne (ne_next hb), hb]

/-- What could be read before is read. -/
theorem Grown.read (hg : Grown h h' b) {p : Ptr β} {n : Nat} {bytes : List β}
    (hread : h.read p n = some bytes) : h'.read p n = some bytes := by
  by_cases hn : n = 0
  · subst hn
    exact hread
  · rw [← hread]
    refine read_congr n fun a off hp => ?_
    subst hp
    rw [hg.block]
    refine Function.update_of_ne ?_ _ _
    rintro rfl
    simp only [Heap.read, if_neg hn, block_next, Option.bind_none] at hread
    cases hread

/-- The new block is written. -/
theorem Grown.store (hg : Grown h h' b) (off : Nat) (data : List β)
    (hle : off + data.length ≤ b.length) :
    ∃ h'', h'.store (.block h.next off) data = some h'' ∧
      Grown h h'' (b.take off ++ data ++ b.drop (off + data.length)) := by
  have hb : h'.block h.next = some b := by rw [hg.block, Function.update_self]
  refine ⟨_, store_block hb off data hle, ?_, hg.freed⟩
  rw [block_write hb, hg.block, Function.update_idem]

/-- Something is copied into the new block. -/
theorem Grown.memcpy (hg : Grown h h' b) {p : Ptr β} {n : Nat} (off : Nat)
    (hread : h.read p n = some data) (hle : off + data.length ≤ b.length) :
    ∃ h'', h'.memcpy (.block h.next off) p n = some h'' ∧
      Grown h h'' (b.take off ++ data ++ b.drop (off + data.length)) := by
  simp only [Heap.memcpy, hg.read hread, Option.bind_eq_bind, Option.bind_some]
  exact hg.store off data hle

/-- A new block is a copy. -/
theorem exists_malloc_memcpy {p : Ptr β} {n : Nat} (hread : h.read p n = some data) :
    ∃ h', (h.malloc n).2.memcpy (.block h.next 0) p n = some h' ∧ Grown h h' data := by
  have hlen := length_read hread
  obtain ⟨h', hcopy, hg⟩ := (grown_alloc h ((List.range n).map (h.junk h.next))).memcpy 0
    hread (by simp [hlen])
  have hrest : ((List.range n).map (h.junk h.next)).drop n = [] :=
    List.drop_eq_nil_of_le (by simp)
  refine ⟨h', hcopy, ?_⟩
  simpa [hlen, hrest] using hg

/-- A new block is a copy of one thing and then another. -/
theorem exists_malloc_memcpy_memcpy {p q : Ptr β} {m n : Nat} {l l' : List β}
    (hp : h.read p m = some l) (hq : h.read q n = some l') :
    ∃ h₁ h₂, (h.malloc (m + n)).2.memcpy (.block h.next 0) p m = some h₁ ∧
      h₁.memcpy (.block h.next m) q n = some h₂ ∧ Grown h h₂ (l ++ l') := by
  have hl := length_read hp
  have hl' := length_read hq
  obtain ⟨h₁, hcopy, hg⟩ := (grown_alloc h ((List.range (m + n)).map (h.junk h.next))).memcpy
    0 hp (by simp [hl])
  obtain ⟨h₂, hcopy₂, hg₂⟩ := hg.memcpy m hq (by simp [hl, hl'])
  have hrest : (l ++ ((List.range (m + n)).map (h.junk h.next)).drop m).drop (m + n) = [] :=
    List.drop_eq_nil_of_le (by simp [hl])
  refine ⟨h₁, h₂, hcopy, hcopy₂, ?_⟩
  simpa [hl, hl', hrest, List.take_left' hl] using hg₂

theorem realloc_zero (hb : h.block a = some b) :
    h.realloc a 0 = some (none, h.release a b) := by
  simp [realloc, hb, free_some hb]

/-- `realloc` gives a new block, with what there was of the old one. -/
theorem exists_realloc {n : Nat} (hn : n ≠ 0) (hb : h.block a = some b) :
    ∃ h' rest, h.realloc a n = some (some h.next, h') ∧ (b.take n ++ rest).length = n ∧
      h'.block = Function.update (h.without (some a)) h.next (some (b.take n ++ rest)) ∧
      h'.freed = h.freed ++ [b] := by
  refine ⟨(h.alloc (b.take n ++ ((List.range n).drop b.length).map (h.junk h.next))).2.release a b,
    ((List.range n).drop b.length).map (h.junk h.next), ?_, ?_, ?_, rfl⟩
  · have hb' := (grown_alloc h (b.take n ++ ((List.range n).drop b.length).map
      (h.junk h.next))).block_of_some hb
    simp only [realloc, hb, Option.bind_eq_bind, Option.bind_some, if_neg hn]
    exact congrArg (Option.bind · _) (free_some hb')
  · rw [List.length_append, List.length_take, List.length_map, List.length_drop, List.length_range]
    omega
  · exact without_update (fun ha => ne_next hb (Option.some.inj ha)) rfl

end Heap
