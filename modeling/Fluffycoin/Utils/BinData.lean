import Fluffycoin.Ossl.Convert
import Fluffycoin.Utils.Trace

/-!
# The buffers of `BinData`

Model of `src/utils/BinData.cpp` with its memory. Elsewhere a `BinData` is the list of its bytes;
here it is a block of the heap with its whole contents, and the length in use, which is at most the
size of the block. Every operation also returns the blocks it frees, as they are at that moment.
Pointers given to it do not point into its own block, `append` and `prepend` apart; allocations
succeed.

* `cleanup` overwrites the length in use of a secure block, not the block (`BinData.cpp:94-101`).
  That is the same as long as the rest, `slack`, is zero (`zero_cleanup_iff`).
* A secure object gets a block of just its length from every operation but two. `truncateFront`
  moves the contents and lowers the length, so the last bytes stay behind (`slack_truncateFront`); a
  move takes over the block of another object as it is.

`zero_released_iff`: a secure object leaves nothing in freed memory exactly if each call of
`truncateFront` is made on contents that end in that many zeros, and nothing is left behind in an
object it is moved from.
-/

namespace Fluffycoin

/-- `BinData`: the block is the contents of all the memory allocated. -/
structure BinData where
  bSecure : Bool
  buffer : Option Bytes
  len : Nat
  len_le : len ≤ (buffer.getD []).length
  deriving DecidableEq

namespace BinData

/-- The constructor `BinData(bool)`. -/
def new (bSecure : Bool) : BinData := ⟨bSecure, none, 0, Nat.zero_le _⟩

/-- An object with a block of just its length. -/
def ofBlock (bSecure : Bool) (block : Bytes) : BinData :=
  ⟨bSecure, some block, block.length, Nat.le_refl _⟩

/-- The bytes in use. -/
def contents (d : BinData) : Bytes := (d.buffer.getD []).take d.len

/-- The rest of the block. -/
def slack (d : BinData) : Bytes := (d.buffer.getD []).drop d.len

/-! ## Operations -/

/-- `BinData::zeroize` at the front of a block. -/
def zeroize (block : Bytes) (len : Nat) : Bytes := List.replicate len 0 ++ block.drop len

/-- `BinData::cleanup`, and `clear`. -/
def cleanup (d : BinData) : BinData × List Bytes :=
  (new d.bSecure,
    d.buffer.toList.map fun block => if d.bSecure then zeroize block d.len else block)

/-- `BinData::resize`. -/
def resize (d : BinData) (len : Nat) : BinData × List Bytes :=
  -- the new block: the bytes that are kept, and zeros
  let data := d.contents.take len ++ List.replicate (len - d.len) 0
  if d.len = len then (d, [])
  else
    match d.buffer with
    | none => (ofBlock d.bSecure data, [])
    | some block =>
      if !d.bSecure then
        -- `realloc` frees the old block, and gives no new one of length zero
        if len = 0 then (new d.bSecure, [block]) else (ofBlock d.bSecure data, [block])
      else (ofBlock d.bSecure data, d.cleanup.2)

/-- `BinData::setData`; the pointer may be null. -/
def setData (d : BinData) : Option Bytes → BinData × List Bytes
  | some (b :: data) => (ofBlock d.bSecure (b :: data), d.cleanup.2)
  | _ => d.cleanup

/-- The arguments of `setBuffer`: a block to take over, and how much of it is in use. -/
structure Given where
  data : Option Bytes
  len : Nat
  len_le : ∀ block ∈ data, len ≤ block.length

/-- `BinData::setBuffer`. -/
def setBuffer (d : BinData) (given : Given) : BinData × List Bytes :=
  if given.len = 0 then (d.cleanup.1, d.cleanup.2 ++ given.data.toList)
  else
    match h : given.data with
    | none => d.cleanup
    | some block => (⟨d.bSecure, some block, given.len, given.len_le block h⟩, d.cleanup.2)

/-- `memmove` of the bytes from `bytes` up to the length to the front of a block. -/
def moveFront (block : Bytes) (bytes len : Nat) : Bytes :=
  (block.take len).drop bytes ++ block.drop (len - bytes)

theorem length_moveFront {block : Bytes} {bytes len : Nat} (hlen : len ≤ block.length) :
    (moveFront block bytes len).length = block.length := by
  unfold moveFront
  rw [List.length_append, List.length_drop, List.length_drop, List.length_take]
  omega

theorem length_getD_map_moveFront {buffer : Option Bytes} {bytes len : Nat}
    (hlen : len ≤ (buffer.getD []).length) :
    ((buffer.map (moveFront · bytes len)).getD []).length = (buffer.getD []).length := by
  cases buffer with
  | none => rfl
  | some block => exact length_moveFront hlen

/-- `BinData::truncateFront`. -/
def truncateFront (d : BinData) (bytes : Nat) : BinData :=
  let bytes := if bytes > d.len then d.len else bytes
  if bytes > 0 then
    { d with
      buffer := d.buffer.map (moveFront · bytes d.len)
      len := d.len - bytes
      len_le := by
        rw [length_getD_map_moveFront d.len_le]
        exact (Nat.sub_le _ _).trans d.len_le }
  else d

/-- `BinData::sub`. -/
def sub (d : BinData) (pos len : Nat) : BinData :=
  if len = 0 then new d.bSecure
  else if pos > d.len then new d.bSecure
  else ((new d.bSecure).setData (some ((d.contents.drop pos).take len))).1

/-- `BinData::append`. -/
def append (d : BinData) : Option Bytes → BinData × List Bytes
  | some (b :: data) => (ofBlock d.bSecure (d.contents ++ b :: data), d.cleanup.2)
  | _ => (d, [])

/-- `BinData::prepend`. -/
def prepend (d : BinData) : Option Bytes → BinData × List Bytes
  | some (b :: data) => (ofBlock d.bSecure (b :: data ++ d.contents), d.cleanup.2)
  | _ => (d, [])

/-- `BinData::operator=(const BinData &)` of another object. -/
def assignCopy (d rhs : BinData) : BinData × List Bytes :=
  let (copy, freed) := d.setData (rhs.buffer.map fun _ => rhs.contents)
  ({ copy with bSecure := rhs.bSecure }, freed)

/-- `BinData::operator=(BinData &&)` of another object. -/
def assignMove (d rhs : BinData) : BinData × List Bytes := (rhs, d.cleanup.2)

/-- What `operator=(BinData &&)` leaves of the other object. -/
def movedFrom (rhs : BinData) : BinData := new rhs.bSecure

/-! ## Wiping -/

/-- A block of zeros. -/
def Zero (block : Bytes) : Prop := ∀ b ∈ block, b = 0

instance (block : Bytes) : Decidable (Zero block) :=
  inferInstanceAs (Decidable (∀ b ∈ block, b = 0))

theorem zero_append {l l' : Bytes} : Zero (l ++ l') ↔ Zero l ∧ Zero l' := List.forall_mem_append

theorem zero_nil : Zero [] := fun _ h => by cases h

theorem zero_zeroize {block : Bytes} {len : Nat} :
    Zero (zeroize block len) ↔ Zero (block.drop len) := by
  unfold zeroize
  rw [zero_append]
  exact and_iff_right fun b hb => List.eq_of_mem_replicate hb

theorem slack_ofBlock (bSecure : Bool) (block : Bytes) : (ofBlock bSecure block).slack = [] :=
  List.drop_length

theorem contents_ofBlock (bSecure : Bool) (block : Bytes) :
    (ofBlock bSecure block).contents = block :=
  List.take_length

section Secure

variable {d : BinData}

/-- A secure block is freed as zeros exactly if the rest of it was zero. -/
theorem zero_cleanup_iff (h : d.bSecure = true) :
    (∀ block ∈ d.cleanup.2, Zero block) ↔ Zero d.slack := by
  unfold cleanup slack
  cases d.buffer with
  | none => simp [zero_nil]
  | some block => simp [h, zero_zeroize]

theorem length_contents (d : BinData) : d.contents.length = d.len := by
  unfold contents
  rw [List.length_take]
  exact Nat.min_eq_left d.len_le

theorem drop_moveFront {block : Bytes} {bytes len : Nat} (hlen : len ≤ block.length) :
    (moveFront block bytes len).drop (len - bytes) =
      (block.take len).drop (len - bytes) ++ block.drop len := by
  have hfront : ((block.take len).drop bytes).length = len - bytes := by
    rw [List.length_drop, List.length_take, Nat.min_eq_left hlen]
  have hle : len - bytes ≤ (block.take len).length := by
    rw [List.length_take, Nat.min_eq_left hlen]
    exact Nat.sub_le _ _
  unfold moveFront
  rw [List.drop_left' hfront, ← List.drop_append_of_le_length hle, List.take_append_drop]

theorem take_moveFront {block : Bytes} {bytes len : Nat} (hlen : len ≤ block.length) :
    (moveFront block bytes len).take (len - bytes) = (block.take len).drop bytes := by
  refine List.take_left' ?_
  rw [List.length_drop, List.length_take, Nat.min_eq_left hlen]

theorem min_eq_ite (d : BinData) (bytes : Nat) :
    (if bytes > d.len then d.len else bytes) = min bytes d.len := by
  split_ifs <;> omega

theorem len_truncateFront (d : BinData) (bytes : Nat) :
    (d.truncateFront bytes).len = d.len - bytes := by
  unfold truncateFront
  by_cases hpos : min bytes d.len > 0
  · simp only [min_eq_ite, hpos, if_true]
    omega
  · simp only [min_eq_ite, hpos, if_false]
    omega

theorem bSecure_truncateFront (d : BinData) (bytes : Nat) :
    (d.truncateFront bytes).bSecure = d.bSecure := by
  unfold truncateFront
  by_cases hpos : min bytes d.len > 0
  · simp only [min_eq_ite, hpos, if_true]
  · simp only [min_eq_ite, hpos, if_false]

theorem moveFront_zero (block : Bytes) (len : Nat) : moveFront block 0 len = block := by
  rw [moveFront, List.drop_zero, Nat.sub_zero, List.take_append_drop]

/-- The block after `truncateFront`, also where nothing is moved. -/
theorem buffer_truncateFront (d : BinData) (bytes : Nat) :
    (d.truncateFront bytes).buffer = d.buffer.map (moveFront · (min bytes d.len) d.len) := by
  unfold truncateFront
  by_cases hpos : min bytes d.len > 0
  · simp only [min_eq_ite, hpos, if_true]
  · simp only [min_eq_ite, Nat.eq_zero_of_not_pos hpos, moveFront_zero]
    exact Option.map_id'.symm

theorem getD_truncateFront (d : BinData) (bytes : Nat) :
    (d.truncateFront bytes).buffer.getD [] =
      moveFront (d.buffer.getD []) (min bytes d.len) d.len := by
  rw [buffer_truncateFront]
  cases d.buffer with
  | none => simp [moveFront]
  | some block => rfl

/-- The contents after `truncateFront`. -/
theorem contents_truncateFront (d : BinData) (bytes : Nat) :
    (d.truncateFront bytes).contents = d.contents.drop bytes := by
  have hlen : d.len - bytes = d.len - min bytes d.len := by omega
  have hdrop : d.contents.drop (min bytes d.len) = d.contents.drop bytes := by
    rcases Nat.le_total bytes d.len with hle | hle
    · rw [Nat.min_eq_left hle]
    · rw [Nat.min_eq_right hle, List.drop_eq_nil_of_le (length_contents d).le,
        List.drop_eq_nil_of_le ((length_contents d).le.trans hle)]
  rw [← hdrop]
  unfold contents
  rw [len_truncateFront, getD_truncateFront, hlen, take_moveFront d.len_le]

/-- What `truncateFront` leaves behind: the last bytes of the contents, before what was there. -/
theorem slack_truncateFront (d : BinData) (bytes : Nat) :
    (d.truncateFront bytes).slack = d.contents.drop (d.len - bytes) ++ d.slack := by
  have hlen : d.len - bytes = d.len - min bytes d.len := by omega
  unfold slack
  rw [len_truncateFront, getD_truncateFront, hlen, drop_moveFront d.len_le]
  rfl

/-- An operation frees the block, and the object gets another without a rest, or none. -/
structure Replaces (d : BinData) (r : BinData × List Bytes) : Prop where
  freed : r.2 = d.cleanup.2
  slack : r.1.slack = []

theorem replaces_cleanup (d : BinData) : Replaces d d.cleanup := ⟨rfl, rfl⟩

theorem replaces_ofBlock (d : BinData) (block : Bytes) :
    Replaces d (ofBlock d.bSecure block, d.cleanup.2) :=
  ⟨rfl, slack_ofBlock _ _⟩

theorem replaces_resize (h : d.bSecure = true) (len : Nat) :
    Replaces d (d.resize len) ∨ d.resize len = (d, []) := by
  unfold resize
  by_cases hlen : d.len = len
  · exact .inr (if_pos hlen)
  · simp only [hlen, if_false]
    cases hbuffer : d.buffer with
    | none => exact .inl ⟨by simp [cleanup, hbuffer], slack_ofBlock _ _⟩
    | some block =>
      simp only [h, Bool.not_true, Bool.false_eq_true, if_false]
      exact .inl ⟨rfl, slack_ofBlock _ _⟩

theorem replaces_setData (d : BinData) (data : Option Bytes) : Replaces d (d.setData data) := by
  unfold setData
  split
  · exact replaces_ofBlock d _
  · exact replaces_cleanup d

theorem replaces_append (d : BinData) (data : Option Bytes) :
    Replaces d (d.append data) ∨ d.append data = (d, []) := by
  unfold append
  split
  · exact .inl (replaces_ofBlock d _)
  · exact .inr rfl

theorem replaces_prepend (d : BinData) (data : Option Bytes) :
    Replaces d (d.prepend data) ∨ d.prepend data = (d, []) := by
  unfold prepend
  split
  · exact .inl (replaces_ofBlock d _)
  · exact .inr rfl

theorem replaces_assignCopy (d rhs : BinData) : Replaces d (d.assignCopy rhs) := by
  obtain ⟨hfreed, hslack⟩ := replaces_setData d (rhs.buffer.map fun _ => rhs.contents)
  exact ⟨hfreed, hslack⟩

/-- An operation on an object. An object of its own on the right-hand side of an assignment changes
nothing. -/
inductive Op where
  | resize (len : Nat)
  | setData (data : Option Bytes)
  | append (data : Option Bytes)
  | prepend (data : Option Bytes)
  | truncateFront (bytes : Nat)
  | clear
  | assignCopy (rhs : BinData)
  | assignMove (rhs : BinData)
  | assignSelf

/-- The object after an operation, and the blocks freed. -/
def step (d : BinData) : Op → BinData × List Bytes
  | .resize len => d.resize len
  | .setData data => d.setData data
  | .append data => d.append data
  | .prepend data => d.prepend data
  | .truncateFront bytes => (d.truncateFront bytes, [])
  | .clear => d.cleanup
  | .assignCopy rhs => d.assignCopy rhs
  | .assignMove rhs => d.assignMove rhs
  | .assignSelf => (d, [])

/-- The object after a sequence of operations. -/
def run (d : BinData) (ops : List Op) : BinData := Trace.final step Prod.fst d ops

/-- The blocks freed by a sequence of operations and the destructor. -/
def released (d : BinData) (ops : List Op) : List Bytes :=
  (Trace.trace step Prod.fst d ops).flatMap (·.ret.2) ++ (d.run ops).cleanup.2

/-- Nothing but zeros is left behind by an operation. -/
def LeavesNothing (d : BinData) : Op → Prop
  | .truncateFront bytes => Zero (d.contents.drop (d.len - bytes))
  | .assignMove rhs => Zero rhs.slack
  | _ => True

/-- **One operation** either frees the block of the object, or leaves what was behind there. -/
theorem step_cases (h : d.bSecure = true) (op : Op) :
    (d.step op).2 = d.cleanup.2 ∧ (Zero (d.step op).1.slack ↔ d.LeavesNothing op) ∨
      (d.step op).2 = [] ∧ (Zero (d.step op).1.slack ↔ Zero d.slack ∧ d.LeavesNothing op) := by
  have hreplaces : Replaces d (d.step op) → d.LeavesNothing op →
      (d.step op).2 = d.cleanup.2 ∧ (Zero (d.step op).1.slack ↔ d.LeavesNothing op) := by
    intro hr hop
    rw [hr.slack]
    exact ⟨hr.freed, iff_of_true zero_nil hop⟩
  have hsame : d.step op = (d, []) → d.LeavesNothing op →
      (d.step op).2 = [] ∧ (Zero (d.step op).1.slack ↔ Zero d.slack ∧ d.LeavesNothing op) := by
    intro hr hop
    rw [hr]
    exact ⟨rfl, (and_iff_left hop).symm⟩
  cases op with
  | resize len => exact (replaces_resize h len).imp (hreplaces · trivial) (hsame · trivial)
  | setData data => exact .inl (hreplaces (replaces_setData d data) trivial)
  | append data => exact (replaces_append d data).imp (hreplaces · trivial) (hsame · trivial)
  | prepend data => exact (replaces_prepend d data).imp (hreplaces · trivial) (hsame · trivial)
  | truncateFront bytes =>
    refine .inr ⟨rfl, ?_⟩
    show Zero (d.truncateFront bytes).slack ↔ _
    rw [slack_truncateFront, zero_append, and_comm]
    rfl
  | clear => exact .inl (hreplaces (replaces_cleanup d) trivial)
  | assignCopy rhs => exact .inl (hreplaces (replaces_assignCopy d rhs) trivial)
  | assignMove rhs => exact .inl ⟨rfl, Iff.rfl⟩
  | assignSelf => exact .inr (hsame rfl trivial)

theorem released_cons (d : BinData) (op : Op) (ops : List Op) :
    d.released (op :: ops) = (d.step op).2 ++ (d.step op).1.released ops := by
  unfold released
  rw [Trace.trace, List.flatMap_cons, List.append_assoc]
  rfl

/-- **When a secure object leaves nothing in freed memory.** -/
theorem zero_released_iff (ops : List Op) (hsecure : ∀ l, l <+: ops → (d.run l).bSecure = true) :
    (∀ block ∈ d.released ops, Zero block) ↔
      Zero d.slack ∧ Trace.Along step Prod.fst LeavesNothing d ops := by
  have hd : d.bSecure = true := hsecure [] List.nil_prefix
  induction ops generalizing d with
  | nil =>
    show (∀ block ∈ d.cleanup.2, Zero block) ↔ Zero d.slack ∧ True
    rw [zero_cleanup_iff hd, and_true]
  | cons op ops ih =>
    have hrest : ∀ l, l <+: ops → ((d.step op).1.run l).bSecure = true := by
      intro l hl
      exact hsecure (op :: l) (List.cons_prefix_cons.mpr ⟨rfl, hl⟩)
    have hnext := ih hrest (hrest [] List.nil_prefix)
    rw [released_cons, List.forall_mem_append, Trace.Along]
    refine (and_congr_right fun _ => hnext).trans ?_
    rcases step_cases hd op with ⟨hfreed, hslack⟩ | ⟨hfreed, hslack⟩
    · rw [hfreed, zero_cleanup_iff hd, hslack]
    · rw [hfreed, hslack, and_assoc]
      exact and_iff_right fun block hblock => by cases hblock

end Secure

end BinData

end Fluffycoin
