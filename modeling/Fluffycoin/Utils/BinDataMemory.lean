import Fluffycoin.Utils.BinData
import Fluffycoin.Utils.Heap

/-!
# `BinData` in memory

Model of `src/utils/BinData.cpp` line by line, on a heap: an object is its three members, and
`buffer` is an address. Operations fail where the code would read or write outside of a block, or
use one that has been freed.

`Holds h o d` relates an object to the `BinData` of `Fluffycoin.Utils.BinData`, which has the block
itself in the place of its address. Each operation has one lemma (`cleanup_yields`,
`setData_yields`, …): it succeeds, leaves the object as the operation there says, with the blocks
freed that it says, and touches no block but that of the object and new ones (`Yields`). So what is
known there of the blocks freed is so of the heap (`Yields.zero_freed`).

`append` and `prepend` read their argument before they free the block, so it may be a part of it.
`setData` frees the block first (`BinData.cpp:142`), so there it may not. `sub` adds its arguments
modulo `2 ^ 64` (line 192); the sum of two lengths in memory does not overflow.
-/

namespace Fluffycoin.BinData

open Heap (Ptr Grown)

/-- The members of a `BinData` object. -/
structure Raw where
  bSecure : Bool := false
  buffer : Option Nat := none
  len : Nat := 0
  deriving DecidableEq, Repr

namespace Raw

/-- `buffer + off`. -/
def ptr (o : Raw) (off : Nat) : Ptr UInt8 :=
  match o.buffer with
  | none => .null
  | some a => .block a off

/-- The first statement of `BinData::cleanup`. -/
def wipe (h : Heap UInt8) (o : Raw) : Option (Heap UInt8) :=
  if o.bSecure && o.buffer.isSome && 0 < o.len then h.memset (o.ptr 0) 0 o.len else some h

/-- `BinData::cleanup`, and `clear` (`BinData.cpp:94-106`). -/
def cleanup (h : Heap UInt8) (o : Raw) : Option (Heap UInt8 × Raw) := do
  let h ← wipe h o
  let h ← h.free o.buffer
  return (h, { o with len := 0, buffer := none })

/-- What `BinData::resize` writes behind the old contents, if there is more room. -/
def zeroRest (h : Heap UInt8) (p : Ptr UInt8) (old len : Nat) : Option (Heap UInt8) :=
  if len > old then h.memset p 0 (len - old) else some h

/-- `BinData::resize` (`BinData.cpp:108-137`). -/
def resize (h : Heap UInt8) (o : Raw) (len : Nat) : Option (Heap UInt8 × Raw) :=
  if o.len = len then some (h, o)
  else
    match o.buffer with
    | none => do
      let (buffer, h) := h.calloc 0 len
      let h ← h.memset (.block buffer 0) 0 len
      return (h, { o with buffer := some buffer, len })
    | some a =>
      if !o.bSecure then do
        let (buffer, h) ← h.realloc a len
        let h ← zeroRest h (ptr { o with buffer } o.len) o.len len
        return (h, { o with buffer, len })
      else do
        let (newData, h) := h.calloc 0 len
        let minLen := if len < o.len then len else o.len
        let h ← h.memcpy (.block newData 0) (o.ptr 0) minLen
        let h ← zeroRest h (.block newData o.len) o.len len
        let (h, o) ← cleanup h o
        return (h, { o with buffer := some newData, len })

/-- `BinData::setData` (`BinData.cpp:139-151`). -/
def setData (h : Heap UInt8) (o : Raw) (p : Ptr UInt8) (len : Nat) : Option (Heap UInt8 × Raw) := do
  let (h, o) ← cleanup h o
  if !p.isNull && 0 < len then
    let (buffer, h) := h.malloc len
    let h ← h.memcpy (.block buffer 0) p len
    return (h, { o with buffer := some buffer, len })
  else return (h, o)

/-- `BinData::setBuffer` (`BinData.cpp:153-166`). -/
def setBuffer (h : Heap UInt8) (o : Raw) (data : Option Nat) (len : Nat) :
    Option (Heap UInt8 × Raw) := do
  let (h, o) ← cleanup h o
  if len = 0 then
    let h ← h.free data
    return (h, o)
  else if data.isNone then return (h, o)
  else return (h, { o with buffer := data, len })

/-- A call of `setBuffer` with a block that the caller has allocated. -/
def giveBuffer (h : Heap UInt8) (o : Raw) (given : Given) : Option (Heap UInt8 × Raw) :=
  match given.data with
  | none => setBuffer h o none given.len
  | some block =>
    let (data, h) := h.alloc block
    setBuffer h o (some data) given.len

/-- `BinData::truncateFront` (`BinData.cpp:168-178`). -/
def truncateFront (h : Heap UInt8) (o : Raw) (bytes : Nat) : Option (Heap UInt8 × Raw) :=
  let bytes := if bytes > o.len then o.len else bytes
  if bytes > 0 then do
    let h ← h.memcpy (o.ptr 0) (o.ptr bytes) (o.len - bytes)
    return (h, { o with len := o.len - bytes })
  else some (h, o)

/-- `BinData::sub` (`BinData.cpp:180-200`), with its result. -/
def sub (h : Heap UInt8) (o : Raw) (pos len : Nat) : Option (Heap UInt8 × Raw) :=
  let ret : Raw := { bSecure := o.bSecure }
  if len = 0 then some (h, ret)
  else if pos > o.len then setData h ret (o.ptr 0) 0
  else if (pos + len) % 18446744073709551616 > o.len then setData h ret (o.ptr pos) (o.len - pos)
  else setData h ret (o.ptr pos) len

/-- `BinData::append` (`BinData.cpp:202-221`). -/
def append (h : Heap UInt8) (o : Raw) (p : Ptr UInt8) (len : Nat) : Option (Heap UInt8 × Raw) :=
  if len = 0 then some (h, o)
  else if p.isNull then some (h, o)
  else do
    let newLen := o.len + len
    let (newBuffer, h) := h.malloc newLen
    let h ← h.memcpy (.block newBuffer 0) (o.ptr 0) o.len
    let h ← h.memcpy (.block newBuffer o.len) p len
    let (h, o) ← cleanup h o
    return (h, { o with buffer := some newBuffer, len := newLen })

/-- `BinData::prepend` (`BinData.cpp:223-242`). -/
def prepend (h : Heap UInt8) (o : Raw) (p : Ptr UInt8) (len : Nat) : Option (Heap UInt8 × Raw) :=
  if len = 0 then some (h, o)
  else if p.isNull then some (h, o)
  else do
    let newLen := o.len + len
    let (newBuffer, h) := h.malloc newLen
    let h ← h.memcpy (.block newBuffer 0) p len
    let h ← h.memcpy (.block newBuffer len) (o.ptr 0) o.len
    let (h, o) ← cleanup h o
    return (h, { o with buffer := some newBuffer, len := newLen })

/-- `BinData::operator+=` (`BinData.cpp:270-274`). -/
def plusAssign (h : Heap UInt8) (o data : Raw) : Option (Heap UInt8 × Raw) :=
  append h o (data.ptr 0) data.len

/-- `BinData::operator=(const BinData &)` of another object (`BinData.cpp:78-87`). -/
def assignCopy (h : Heap UInt8) (o rhs : Raw) : Option (Heap UInt8 × Raw) := do
  let (h, o) ← setData h o (rhs.ptr 0) rhs.len
  return (h, { o with bSecure := rhs.bSecure })

/-- `BinData::operator=(BinData &&)` of another object (`BinData.cpp:61-76`), with what it leaves of
that. -/
def assignMove (h : Heap UInt8) (o rhs : Raw) : Option (Heap UInt8 × Raw × Raw) := do
  let (h, o) ← cleanup h o
  return (h, { o with bSecure := rhs.bSecure, buffer := rhs.buffer, len := rhs.len },
    { rhs with buffer := none, len := 0 })

/-- `BinData::operator==` (`BinData.cpp:276-280`). -/
def equals (h : Heap UInt8) (o rhs : Raw) : Option Bool :=
  if o.len = rhs.len then h.memcmp (o.ptr 0) (rhs.ptr 0) o.len else some false

end Raw

/-! ## What an object holds -/

/-- The object is `d`, with the address of a block in the place of the block. -/
structure Holds (h : Heap UInt8) (o : Raw) (d : BinData) : Prop where
  bSecure : o.bSecure = d.bSecure
  len : o.len = d.len
  buffer : (o.buffer = none ∧ d.buffer = none) ∨
    ∃ a b, o.buffer = some a ∧ h.block a = some b ∧ d.buffer = some b

/-- An operation leaves the object `r.2` for `o`. Its block is that of `o` or a new one, it is what
the operation on blocks gives, with what it frees, and no other block has changed. -/
structure Yields (h : Heap UInt8) (o : Raw) (r : Heap UInt8 × Raw) (d : BinData × List Bytes) :
    Prop where
  holds : Holds r.1 r.2 d.1
  frame : ∀ a, r.2.buffer ≠ some a → r.1.block a = h.without o.buffer a
  fresh : ∀ a ∈ r.2.buffer, o.buffer = some a ∨ h.block a = none
  freed : r.1.freed = h.freed ++ d.2

section Holds

variable {h h' : Heap UInt8} {o : Raw} {d : BinData}

theorem len_le_length {b : Bytes} (hb : d.buffer = some b) : d.len ≤ b.length := by
  have hle := d.len_le
  rwa [hb] at hle

theorem len_eq_zero (hb : d.buffer = none) : d.len = 0 := by
  have hle := d.len_le
  rw [hb] at hle
  exact Nat.eq_zero_of_le_zero hle

theorem Holds.buffer_eq_none (hd : Holds h o d) (hb : d.buffer = none) : o.buffer = none := by
  rcases hd.buffer with ⟨ho, -⟩ | ⟨a, b, -, -, hb'⟩
  · exact ho
  · rw [hb] at hb'
    cases hb'

theorem Holds.congr (hd : Holds h o d) (hblock : ∀ a ∈ o.buffer, h'.block a = h.block a) :
    Holds h' o d := by
  refine ⟨hd.bSecure, hd.len, hd.buffer.imp_right ?_⟩
  rintro ⟨a, b, ho, hb, hd⟩
  exact ⟨a, b, ho, (hblock a ho).trans hb, hd⟩

theorem Holds.grown {b : Bytes} (hd : Holds h o d) (hg : Grown h h' b) : Holds h' o d := by
  refine hd.congr fun a ha => ?_
  rcases hd.buffer with ⟨ho, -⟩ | ⟨a', b', ho, hb, -⟩
  · rw [ho] at ha
    cases ha
  · obtain rfl : a' = a := by
      rw [ho] at ha
      exact Option.some.inj ha
    rw [hg.block_of_some hb, hb]

/-- A part of the contents, through the pointer. -/
theorem Holds.read (hd : Holds h o d) (off n : Nat) (hle : off + n ≤ d.len) :
    h.read (o.ptr off) n = some ((d.contents.drop off).take n) := by
  rcases hd.buffer with ⟨ho, hb⟩ | ⟨a, b, ho, hblock, hb⟩
  · have hlen := len_eq_zero hb
    obtain rfl : n = 0 := by omega
    rw [Heap.read_zero, List.take_zero]
  · rw [Raw.ptr, ho, Heap.read_block hblock (hle.trans (len_le_length hb)), BinData.contents, hb,
      Option.getD_some, List.drop_take, List.take_take, Nat.min_eq_left (by omega)]

theorem Holds.read_all (hd : Holds h o d) : h.read (o.ptr 0) o.len = some d.contents := by
  have hread := hd.read 0 d.len (by omega)
  rw [hd.len, hread, List.drop_zero, ← length_contents, List.take_length]

/-! ## The operations -/

/-- An object with no block. -/
theorem holds_new (h : Heap UInt8) (bSecure : Bool) : Holds h { bSecure } (new bSecure) :=
  ⟨rfl, rfl, .inl ⟨rfl, rfl⟩⟩

/-- The block at the moment `cleanup` frees it: wiped, if the object is secure. -/
theorem exists_wipe {a : Nat} {b : Bytes} (hd : Holds h o d) (ho : o.buffer = some a)
    (hblock : h.block a = some b) (hb : d.buffer = some b) :
    ∃ h', Raw.wipe h o = some h' ∧
      h'.block = Function.update h.block a (some (if d.bSecure then zeroize b d.len else b)) ∧
      h'.freed = h.freed := by
  unfold Raw.wipe
  by_cases hcond : (o.bSecure && o.buffer.isSome && decide (0 < o.len)) = true
  · have hlen : o.len ≤ b.length := hd.len.trans_le (len_le_length hb)
    have hstore := Heap.store_block hblock 0 (List.replicate o.len (0 : UInt8))
      (by rwa [List.length_replicate, Nat.zero_add])
    have hsecure : d.bSecure = true := by
      rw [← hd.bSecure]
      simp only [Bool.and_eq_true] at hcond
      exact hcond.1.1
    refine ⟨h.write a (zeroize b d.len), ?_, ?_, rfl⟩
    · rw [if_pos hcond, Raw.ptr, ho]
      refine hstore.trans ?_
      simp [zeroize, hd.len]
    · rw [Heap.block_write hblock, if_pos hsecure]
  · refine ⟨h, if_neg hcond, ?_, rfl⟩
    -- a secure block that is not wiped has no bytes in use
    have hsame : (if d.bSecure then zeroize b d.len else b) = b := by
      by_cases hsecure : d.bSecure = true
      · have hzero : d.len = 0 := by
          rw [← hd.bSecure] at hsecure
          simpa [hsecure, ho, hd.len] using hcond
        rw [if_pos hsecure, zeroize, hzero]
        rfl
      · rw [if_neg hsecure]
    rw [hsame, ← hblock, Function.update_eq_self]

/-- `cleanup` takes away the block. -/
theorem exists_cleanup (hd : Holds h o d) :
    ∃ h', Raw.cleanup h o = some (h', { bSecure := o.bSecure }) ∧
      h'.block = h.without o.buffer ∧ h'.freed = h.freed ++ d.cleanup.2 := by
  rcases hd.buffer with ⟨ho, hb⟩ | ⟨a, b, ho, hblock, hb⟩
  · refine ⟨h, ?_, ?_, ?_⟩
    · simp [Raw.cleanup, Raw.wipe, ho, Heap.free]
    · rw [ho, Heap.without_none]
    · simp [BinData.cleanup, hb]
  · obtain ⟨h₁, hwipe, hblock₁, hfreed⟩ := exists_wipe hd ho hblock hb
    have hfree := Heap.free_some (h := h₁) (a := a) (by rw [hblock₁, Function.update_self])
    refine ⟨h₁.release a (if d.bSecure then zeroize b d.len else b), ?_, ?_, ?_⟩
    · simp only [Raw.cleanup, hwipe, Option.bind_eq_bind, Option.bind_some]
      rw [ho, hfree]
      rfl
    · rw [ho]
      funext x
      show h₁.without (some a) x = h.without (some a) x
      unfold Heap.without
      by_cases hx : x = a
      · rw [hx, if_pos rfl, if_pos rfl]
      · rw [hblock₁, Function.update_of_ne hx]
    · show h₁.freed ++ [_] = _
      rw [hfreed]
      simp [BinData.cleanup, hb]

/-! ### Results with a block of their own -/

theorem yields_self (hd : Holds h o d) : Yields h o (h, o) (d, []) := by
  refine ⟨hd, fun a ha => ?_, fun a ha => .inl ha, ?_⟩
  · exact (if_neg ha).symm
  · rw [List.append_nil]

/-- The object has got another block. -/
theorem yields_block (d' : BinData) {a : Nat} {data : Bytes} {freed : List Bytes}
    (hd : Holds h o d) (hb : d'.buffer = some data) (hsecure : d'.bSecure = d.bSecure)
    (hblock : h'.block = Function.update (h.without o.buffer) a (some data))
    (hnew : h.without o.buffer a = none) (hfreed : h'.freed = h.freed ++ freed) :
    Yields h o (h', ⟨o.bSecure, some a, d'.len⟩) (d', freed) := by
  refine ⟨⟨hd.bSecure.trans hsecure.symm, rfl, .inr ⟨a, data, rfl, ?_, hb⟩⟩, fun x hx => ?_, ?_,
    hfreed⟩
  · rw [hblock, Function.update_self]
  · rw [hblock, Function.update_of_ne fun hxa => hx (congrArg some hxa.symm)]
  · rintro x ⟨⟩
    unfold Heap.without at hnew
    by_cases ho : o.buffer = some a
    · exact .inl ho
    · exact .inr (by rwa [if_neg ho] at hnew)

/-- It has a block of just its length. -/
theorem yields_ofBlock {a : Nat} {data : Bytes} {freed : List Bytes} (hd : Holds h o d)
    (hblock : h'.block = Function.update (h.without o.buffer) a (some data))
    (hnew : h.without o.buffer a = none) (hfreed : h'.freed = h.freed ++ freed) :
    Yields h o (h', ⟨o.bSecure, some a, data.length⟩) (ofBlock d.bSecure data, freed) :=
  yields_block (ofBlock d.bSecure data) hd rfl rfl hblock hnew hfreed

theorem buffer_ne_next (hd : Holds h o d) : o.buffer ≠ some h.next := by
  intro hnext
  rcases hd.buffer with ⟨ho, -⟩ | ⟨a, b, ho, hb, -⟩
  · rw [ho] at hnext
    cases hnext
  · rw [ho] at hnext
    exact Heap.ne_next hb (Option.some.inj hnext)

/-- A new block has been filled, and the old one is given up for it. -/
theorem exists_replace {h₁ : Heap UInt8} {data : Bytes} (hd : Holds h o d)
    (hg : Grown h h₁ data) :
    ∃ h', Raw.cleanup h₁ o = some (h', { bSecure := o.bSecure }) ∧
      Yields h o (h', ⟨o.bSecure, some h.next, data.length⟩)
        (ofBlock d.bSecure data, d.cleanup.2) := by
  obtain ⟨h', hrun, hblock, hfreed⟩ := exists_cleanup (hd.grown hg)
  refine ⟨h', hrun, yields_ofBlock hd ?_ (h.without_next _) ?_⟩
  · rw [hblock, Heap.without_update (buffer_ne_next hd) hg.block]
  · rw [hfreed, hg.freed]

/-! ### The members -/

theorem cleanup_yields (hd : Holds h o d) :
    ∃ r, Raw.cleanup h o = some r ∧ Yields h o r d.cleanup := by
  obtain ⟨h', hrun, hblock, hfreed⟩ := exists_cleanup hd
  refine ⟨_, hrun, ?_, fun a _ => congrFun hblock a, nofun, hfreed⟩
  have hnew := holds_new h' o.bSecure
  rwa [hd.bSecure] at hnew ⊢

/-- What a pointer and a length say: null, or the bytes there. -/
def Denotes (h : Heap UInt8) (p : Ptr UInt8) (len : Nat) : Option Bytes → Prop
  | none => p.isNull = true
  | some data => p.isNull = false ∧ h.read p len = some data

/-- There is nothing to copy, or there are bytes. -/
theorem Denotes.cases {p : Ptr UInt8} {len : Nat} {arg : Option Bytes} (hp : Denotes h p len arg) :
    (len = 0 ∨ p.isNull = true) ∧ (arg = none ∨ arg = some []) ∨
      len ≠ 0 ∧ p.isNull = false ∧
        ∃ b data, arg = some (b :: data) ∧ h.read p len = some (b :: data) := by
  match arg, hp with
  | none, hp => exact .inl ⟨.inr hp, .inl rfl⟩
  | some [], hp => exact .inl ⟨.inl (Heap.length_read hp.2).symm, .inr rfl⟩
  | some (b :: data), hp =>
    have hlen := Heap.length_read hp.2
    refine .inr ⟨?_, hp.1, b, data, rfl, hp.2⟩
    rw [← hlen]
    exact Nat.succ_ne_zero _

/-- `setData` frees the block and then copies the argument, so that may not be in it. -/
theorem setData_yields {p : Ptr UInt8} {len : Nat} {arg : Option Bytes} (hd : Holds h o d)
    (hp : Denotes h p len arg) (hown : ∀ a off, p = .block a off → o.buffer ≠ some a) :
    ∃ r, Raw.setData h o p len = some r ∧ Yields h o r (d.setData arg) := by
  obtain ⟨h₁, hrun, hblock, hfreed⟩ := exists_cleanup hd
  simp only [Raw.setData, hrun, Option.bind_eq_bind, Option.bind_some]
  rcases hp.cases with ⟨hnothing, harg⟩ | ⟨hlen, hnull, b, data, rfl, hread⟩
  · have hcond : ¬ ((!p.isNull && decide (0 < len)) = true) := by
      rcases hnothing with rfl | hnull
      · simp
      · simp [hnull]
    have hset : d.setData arg = d.cleanup := by rcases harg with rfl | rfl <;> rfl
    rw [if_neg hcond, hset]
    obtain ⟨r, hr, hyields⟩ := cleanup_yields hd
    rw [hrun] at hr
    exact ⟨r, hr, hyields⟩
  · have hcond : (!p.isNull && decide (0 < len)) = true := by
      simp [hnull, Nat.pos_of_ne_zero hlen]
    rw [if_pos hcond]
    have hread₁ : h₁.read p len = some (b :: data) := by
      rw [← hread]
      refine Heap.read_congr len fun a off ha => ?_
      rw [hblock]
      exact if_neg (hown a off ha)
    obtain ⟨h₂, hcopy, hg⟩ := Heap.exists_malloc_memcpy hread₁
    have hyields : Yields h o (h₂, ⟨o.bSecure, some h₁.next, (b :: data).length⟩)
        (ofBlock d.bSecure (b :: data), d.cleanup.2) :=
      yields_ofBlock hd (by rw [hg.block, hblock]) (by rw [← hblock, Heap.block_next])
        (by rw [hg.freed, hfreed])
    rw [Heap.length_read hread] at hyields
    exact ⟨_, congrArg (Option.bind · _) hcopy, hyields⟩

/-- What `append` and `prepend` have in common: a new block of two pieces, of lengths `m` and `n`,
for the old one. -/
def Raw.joined (h : Heap UInt8) (o : Raw) (p : Ptr UInt8) (m : Nat) (q : Ptr UInt8) (n : Nat) :
    Option (Heap UInt8 × Raw) := do
  let newLen := m + n
  let (newBuffer, h) := h.malloc newLen
  let h ← h.memcpy (.block newBuffer 0) p m
  let h ← h.memcpy (.block newBuffer m) q n
  let (h, o) ← cleanup h o
  return (h, { o with buffer := some newBuffer, len := newLen })

theorem append_eq_joined (p : Ptr UInt8) (len : Nat) : Raw.append h o p len =
    if len = 0 then some (h, o)
    else if p.isNull then some (h, o)
    else Raw.joined h o (o.ptr 0) o.len p len :=
  rfl

theorem prepend_eq_joined (p : Ptr UInt8) (len : Nat) : Raw.prepend h o p len =
    if len = 0 then some (h, o)
    else if p.isNull then some (h, o)
    else Raw.joined h o p len (o.ptr 0) o.len := by
  unfold Raw.prepend Raw.joined
  rw [Nat.add_comm o.len]

/-- Two pieces of memory are copied into a new block, and only then is the old one freed. So a piece
may be in it. -/
theorem joined_yields {p q : Ptr UInt8} {m n : Nat} {l l' : Bytes} (hd : Holds h o d)
    (hp : h.read p m = some l) (hq : h.read q n = some l') :
    ∃ r, Raw.joined h o p m q n = some r ∧
      Yields h o r (ofBlock d.bSecure (l ++ l'), d.cleanup.2) := by
  obtain ⟨h₁, h₂, hcopy, hcopy₂, hg⟩ := Heap.exists_malloc_memcpy_memcpy hp hq
  obtain ⟨h₃, hcleanup, hyields⟩ := exists_replace hd hg
  rw [List.length_append, Heap.length_read hp, Heap.length_read hq] at hyields
  refine ⟨_, ?_, hyields⟩
  refine Option.bind_eq_some_iff.mpr ⟨h₁, hcopy, ?_⟩
  refine Option.bind_eq_some_iff.mpr ⟨h₂, hcopy₂, ?_⟩
  exact Option.bind_eq_some_iff.mpr ⟨_, hcleanup, rfl⟩

/-- `op` is the operation on blocks; it does nothing if there is nothing to copy. -/
theorem guarded_yields {op : Option Bytes → BinData × List Bytes} {p : Ptr UInt8} {len : Nat}
    {arg : Option Bytes} {rest : Option (Heap UInt8 × Raw)} (hd : Holds h o d)
    (hp : Denotes h p len arg) (hnull : op none = (d, [])) (hempty : op (some []) = (d, []))
    (hrest : ∀ b data, h.read p len = some (b :: data) →
      ∃ r, rest = some r ∧ Yields h o r (op (some (b :: data)))) :
    ∃ r, (if len = 0 then some (h, o) else if p.isNull then some (h, o) else rest) = some r ∧
      Yields h o r (op arg) := by
  rcases hp.cases with ⟨hnothing, harg⟩ | ⟨hlen, hnotNull, b, data, rfl, hread⟩
  · have hop : op arg = (d, []) := by
      rcases harg with rfl | rfl
      · exact hnull
      · exact hempty
    refine ⟨(h, o), ?_, hop ▸ yields_self hd⟩
    rcases hnothing with hlen | hisNull
    · rw [if_pos hlen]
    · rw [if_pos hisNull, ite_self]
  · rw [if_neg hlen, if_neg (by rw [hnotNull]; nofun)]
    exact hrest b data hread

theorem append_yields {p : Ptr UInt8} {len : Nat} {arg : Option Bytes} (hd : Holds h o d)
    (hp : Denotes h p len arg) :
    ∃ r, Raw.append h o p len = some r ∧ Yields h o r (d.append arg) := by
  rw [append_eq_joined]
  exact guarded_yields hd hp rfl rfl fun _ _ hread => joined_yields hd hd.read_all hread

theorem prepend_yields {p : Ptr UInt8} {len : Nat} {arg : Option Bytes} (hd : Holds h o d)
    (hp : Denotes h p len arg) :
    ∃ r, Raw.prepend h o p len = some r ∧ Yields h o r (d.prepend arg) := by
  rw [prepend_eq_joined]
  exact guarded_yields hd hp rfl rfl fun _ _ hread => joined_yields hd hread hd.read_all

/-- What `resize` writes behind the old contents. -/
theorem exists_zeroRest {a : Nat} {b : Bytes} (old len : Nat) (hblock : h.block a = some b)
    (hle : len ≤ b.length) :
    ∃ h', Raw.zeroRest h (.block a old) old len = some h' ∧
      h'.block = Function.update h.block a
        (some (b.take old ++ List.replicate (len - old) 0 ++ b.drop (old + (len - old)))) ∧
      h'.freed = h.freed := by
  unfold Raw.zeroRest
  by_cases hlen : len > old
  · rw [if_pos hlen]
    have hstore := Heap.store_block hblock old (List.replicate (len - old) (0 : UInt8))
      (by rw [List.length_replicate]; omega)
    rw [List.length_replicate] at hstore
    exact ⟨_, hstore, Heap.block_write hblock, rfl⟩
  · rw [if_neg hlen]
    refine ⟨h, rfl, ?_, rfl⟩
    rw [Nat.sub_eq_zero_of_le (Nat.not_lt.mp hlen), List.replicate_zero, List.append_nil,
      Nat.add_zero, List.take_append_drop, ← hblock, Function.update_eq_self]

/-- A block of the new length that begins with the bytes to keep has then the contents it should. -/
theorem zeroRest_eq {b : Bytes} {len : Nat} (hlen : b.length = len)
    (hkeep : b.take (min len d.len) = d.contents.take len) :
    b.take d.len ++ List.replicate (len - d.len) 0 ++ b.drop (d.len + (len - d.len)) =
      d.contents.take len ++ List.replicate (len - d.len) 0 := by
  have htake : b.take d.len = d.contents.take len := by
    rw [← hkeep, ← hlen, Nat.min_comm]
    exact List.take_eq_take_min
  rw [htake, List.drop_eq_nil_of_le (by omega), List.append_nil]

theorem length_resized (d : BinData) (len : Nat) :
    (d.contents.take len ++ List.replicate (len - d.len) (0 : UInt8)).length = len := by
  rw [List.length_append, List.length_take, List.length_replicate, length_contents]
  omega

/-- There is no block yet. -/
theorem resize_yields_new (hd : Holds h o d) {len : Nat} (hlen : d.len ≠ len)
    (ho : o.buffer = none) (hb : d.buffer = none) :
    ∃ r, Raw.resize h o len = some r ∧ Yields h o r (d.resize len) := by
  have hzero := len_eq_zero hb
  have hcontents : d.contents = [] := List.length_eq_zero_iff.mp ((length_contents d).trans hzero)
  obtain ⟨h₁, hstore, hg⟩ := (Heap.grown_alloc h (List.replicate len (0 : UInt8))).store 0
    (List.replicate len 0) (by simp)
  have hyields := yields_ofBlock hd (by rw [hg.block, ho, Heap.without_none]) (h.without_next _)
    (hg.freed.trans (List.append_nil _).symm)
  rw [Raw.resize, BinData.resize, if_neg (hd.len ▸ hlen), if_neg hlen, ho, hb]
  refine ⟨(h₁, ⟨o.bSecure, some h.next, len⟩), Option.bind_eq_some_iff.mpr ⟨h₁, hstore, rfl⟩, ?_⟩
  simpa [hzero, hcontents] using hyields

/-- `realloc`, which gives no block of length zero. -/
theorem resize_yields_plain (hd : Holds h o d) {len a : Nat} {b : Bytes} (hlen : d.len ≠ len)
    (hsecure : d.bSecure = false) (ho : o.buffer = some a) (hblock : h.block a = some b)
    (hb : d.buffer = some b) :
    ∃ r, Raw.resize h o len = some r ∧ Yields h o r (d.resize len) := by
  have hplain : (!d.bSecure) = true := by rw [hsecure]; rfl
  simp only [Raw.resize, BinData.resize, if_neg (hd.len ▸ hlen), if_neg hlen, ho, hb, hd.bSecure,
    if_pos hplain]
  by_cases hzero : len = 0
  · rw [if_pos hzero, hzero]
    refine ⟨(h.release a b, ⟨d.bSecure, none, 0⟩), ?_, ?_⟩
    · exact Option.bind_eq_some_iff.mpr ⟨_, Heap.realloc_zero hblock, rfl⟩
    · exact ⟨holds_new _ _, fun x _ => congrArg (h.without · x) ho.symm, nofun, rfl⟩
  · rw [if_neg hzero]
    obtain ⟨h₁, rest, hrealloc, hlength, hblock₁, hfreed₁⟩ := Heap.exists_realloc hzero hblock
    obtain ⟨h₂, hzero, hblock₂, hfreed₂⟩ := exists_zeroRest (h := h₁) (a := h.next) d.len len
      (by rw [hblock₁, Function.update_self]) hlength.ge
    have hkeep : (b.take len ++ rest).take (min len d.len) = d.contents.take len := by
      have hdlen := len_le_length hb
      rw [List.take_append_of_le_length (by rw [List.length_take]; omega), List.take_take,
        BinData.contents, hb, Option.getD_some, List.take_take]
      congr 1
      omega
    have hdata := zeroRest_eq hlength hkeep
    have hyields := yields_ofBlock hd
      (hblock₂.trans (by rw [hblock₁, Function.update_idem, hdata, ho])) (h.without_next _)
      (hfreed₂.trans hfreed₁)
    rw [length_resized] at hyields
    refine ⟨_, ?_, hd.bSecure ▸ hyields⟩
    refine Option.bind_eq_some_iff.mpr ⟨_, hrealloc, ?_⟩
    exact Option.bind_eq_some_iff.mpr ⟨h₂, hd.len ▸ hzero, rfl⟩

/-- The contents are copied to a new block, and the old one wiped. -/
theorem resize_yields_secure (hd : Holds h o d) {len a : Nat} {b : Bytes} (hlen : d.len ≠ len)
    (hsecure : d.bSecure = true) (ho : o.buffer = some a) (hb : d.buffer = some b) :
    ∃ r, Raw.resize h o len = some r ∧ Yields h o r (d.resize len) := by
  have hplain : ¬ ((!d.bSecure) = true) := by rw [hsecure]; nofun
  have hmin : (if len < o.len then len else o.len) = min len d.len := by
    rw [hd.len]
    split_ifs <;> omega
  have hread := hd.read 0 (min len d.len) (by omega)
  rw [List.drop_zero] at hread
  obtain ⟨h₁, hcopy, hg₁⟩ := (Heap.grown_alloc h (List.replicate len (0 : UInt8))).memcpy 0
    hread (by simp [length_contents])
  have hkept : (d.contents.take (min len d.len)).length = min len d.len := by
    rw [List.length_take, length_contents]
    omega
  rw [List.take_zero, List.nil_append, Nat.zero_add, hkept] at hg₁
  have hlength : (d.contents.take (min len d.len) ++
      (List.replicate len 0).drop (min len d.len)).length = len := by
    rw [List.length_append, hkept, List.length_drop, List.length_replicate]
    omega
  have hkeep : (d.contents.take (min len d.len) ++
      (List.replicate len 0).drop (min len d.len)).take (min len d.len) = d.contents.take len := by
    rw [List.take_left' hkept, ← length_contents, ← List.take_eq_take_min]
  obtain ⟨h₂, hzero, hblock₂, hfreed₂⟩ := exists_zeroRest (h := h₁) (a := h.next) d.len len
    (by rw [hg₁.block, Function.update_self]) hlength.ge
  have hg₂ : Grown h h₂ (d.contents.take len ++ List.replicate (len - d.len) 0) := by
    refine ⟨?_, hfreed₂.trans hg₁.freed⟩
    rw [hblock₂, hg₁.block, Function.update_idem, zeroRest_eq hlength hkeep]
  obtain ⟨h₃, hcleanup, hyields⟩ := exists_replace hd hg₂
  rw [length_resized] at hyields
  simp only [Raw.resize, BinData.resize, if_neg (hd.len ▸ hlen), if_neg hlen, ho, hb, hd.bSecure,
    if_neg hplain, hmin]
  refine ⟨_, ?_, hyields⟩
  refine Option.bind_eq_some_iff.mpr ⟨h₁, hcopy, ?_⟩
  refine Option.bind_eq_some_iff.mpr ⟨h₂, hd.len ▸ hzero, ?_⟩
  exact Option.bind_eq_some_iff.mpr ⟨_, hcleanup, rfl⟩

theorem resize_yields (hd : Holds h o d) (len : Nat) :
    ∃ r, Raw.resize h o len = some r ∧ Yields h o r (d.resize len) := by
  by_cases hlen : d.len = len
  · rw [Raw.resize, BinData.resize, if_pos (hd.len.trans hlen), if_pos hlen]
    exact ⟨_, rfl, yields_self hd⟩
  · rcases hd.buffer with ⟨ho, hb⟩ | ⟨a, b, ho, hblock, hb⟩
    · exact resize_yields_new hd hlen ho hb
    · cases hsecure : d.bSecure with
      | false => exact resize_yields_plain hd hlen hsecure ho hblock hb
      | true => exact resize_yields_secure hd hlen hsecure ho hb

/-- The contents are moved to the front of the block. -/
theorem exists_moveFront {a bytes : Nat} {b : Bytes} (hd : Holds h o d) (ho : o.buffer = some a)
    (hblock : h.block a = some b) (hb : d.buffer = some b) (hle : bytes ≤ d.len) :
    ∃ h', h.memcpy (o.ptr 0) (o.ptr bytes) (d.len - bytes) = some h' ∧
      h'.block = Function.update h.block a (some (moveFront b bytes d.len)) ∧
      h'.freed = h.freed := by
  have hlen := len_le_length hb
  have hlength : ((b.take d.len).drop bytes).length = d.len - bytes := by
    rw [List.length_drop, List.length_take, Nat.min_eq_left hlen]
  have hread := hd.read bytes (d.len - bytes) (by omega)
  rw [BinData.contents, hb, Option.getD_some, List.take_of_length_le hlength.le] at hread
  have hstore := Heap.store_block hblock 0 ((b.take d.len).drop bytes) (by omega)
  rw [List.take_zero, List.nil_append, Nat.zero_add, hlength] at hstore
  refine ⟨h.write a (moveFront b bytes d.len), ?_, Heap.block_write hblock, rfl⟩
  refine Option.bind_eq_some_iff.mpr ⟨_, hread, ?_⟩
  rw [Raw.ptr, ho]
  exact hstore

/-- The block stays where it is. -/
theorem truncateFront_yields (hd : Holds h o d) (bytes : Nat) :
    ∃ r, Raw.truncateFront h o bytes = some r ∧ Yields h o r (d.truncateFront bytes, []) := by
  have hlen : d.len - min bytes d.len = (d.truncateFront bytes).len := by
    rw [len_truncateFront]
    omega
  unfold Raw.truncateFront
  simp only [hd.len, min_eq_ite]
  by_cases hpos : min bytes d.len > 0
  · rw [if_pos hpos]
    rcases hd.buffer with ⟨ho, hb⟩ | ⟨a, b, ho, hblock, hb⟩
    · have hzero := len_eq_zero hb
      omega
    · obtain ⟨h', hmove, hblock', hfreed⟩ := exists_moveFront hd ho hblock hb
        (Nat.min_le_right bytes d.len)
      refine ⟨_, Option.bind_eq_some_iff.mpr ⟨h', hmove, rfl⟩, ?_, fun x hx => ?_, ?_, ?_⟩
      · have hbuffer : (d.truncateFront bytes).buffer =
            some (moveFront b (min bytes d.len) d.len) := by
          rw [buffer_truncateFront, hb, Option.map_some]
        have hnew : h'.block a = some (moveFront b (min bytes d.len) d.len) := by
          rw [hblock', Function.update_self]
        exact ⟨hd.bSecure.trans (bSecure_truncateFront d bytes).symm, hlen,
          .inr ⟨a, _, ho, hnew, hbuffer⟩⟩
      · have hxa : x ≠ a := fun hxa => hx (hxa ▸ ho)
        rw [hblock', Function.update_of_ne hxa]
        exact (if_neg hx).symm
      · exact fun x hx => .inl hx
      · rw [hfreed, List.append_nil]
  · have hsame : d.truncateFront bytes = d := by
      simp only [BinData.truncateFront, min_eq_ite, hpos, if_false]
    rw [if_neg hpos, hsame]
    exact ⟨_, rfl, yields_self hd⟩

/-- The block given becomes that of the object, or is freed if nothing of it is in use. -/
theorem giveBuffer_yields (hd : Holds h o d) (given : Given) :
    ∃ r, Raw.giveBuffer h o given = some r ∧ Yields h o r (d.setBuffer given) := by
  obtain ⟨data, len, hle⟩ := given
  cases data with
  | none =>
    obtain ⟨r, hrun, hyields⟩ := cleanup_yields hd
    have hset : d.setBuffer ⟨none, len, hle⟩ = d.cleanup := by
      by_cases hlen : len = 0
      · exact (if_pos hlen).trans (Prod.ext rfl (List.append_nil _))
      · exact if_neg hlen
    refine ⟨r, ?_, hset ▸ hyields⟩
    refine Option.bind_eq_some_iff.mpr ⟨r, hrun, ?_⟩
    by_cases hlen : len = 0
    · exact if_pos hlen
    · exact if_neg hlen
  | some block =>
    have hg := Heap.grown_alloc h block
    obtain ⟨h', hrun, hblock, hfreed⟩ := exists_cleanup (hd.grown hg)
    rw [Heap.without_update (buffer_ne_next hd) hg.block] at hblock
    by_cases hlen : len = 0
    · have hnext : h'.block h.next = some block := by rw [hblock, Function.update_self]
      refine ⟨(h'.release h.next block, { bSecure := o.bSecure }), ?_, ?_⟩
      · refine Option.bind_eq_some_iff.mpr ⟨_, hrun, ?_⟩
        refine (if_pos hlen).trans ?_
        exact Option.bind_eq_some_iff.mpr ⟨_, Heap.free_some hnext, rfl⟩
      · have hset : d.setBuffer ⟨some block, len, hle⟩ = (new d.bSecure, d.cleanup.2 ++ [block]) :=
          if_pos hlen
        rw [hset]
        refine ⟨hd.bSecure ▸ holds_new _ _, fun x _ => ?_, nofun, ?_⟩
        · exact congrFun (Heap.without_of_update (h.without_next _) hblock) x
        · show h'.freed ++ [block] = _
          rw [hfreed, List.append_assoc]
          rfl
    · refine ⟨(h', ⟨o.bSecure, some h.next, len⟩), ?_, ?_⟩
      · refine Option.bind_eq_some_iff.mpr ⟨_, hrun, ?_⟩
        exact if_neg hlen
      · have hset : d.setBuffer ⟨some block, len, hle⟩ =
            (⟨d.bSecure, some block, len, hle block rfl⟩, d.cleanup.2) := if_neg hlen
        rw [hset]
        exact yields_block ⟨d.bSecure, some block, len, hle block rfl⟩ hd rfl rfl hblock
          (h.without_next _) hfreed

/-! ### Members with another object -/

section Other

variable {o' : Raw} {d' : BinData}

/-- A part of the contents as an argument. -/
theorem Holds.denotes (hd : Holds h o d) (off len : Nat) (hle : off + len ≤ d.len) :
    Denotes h (o.ptr off) len (d.buffer.map fun _ => (d.contents.drop off).take len) := by
  have hread := hd.read off len hle
  rcases hd.buffer with ⟨ho, hb⟩ | ⟨a, b, ho, -, hb⟩
  · rw [hb, Raw.ptr, ho]
    rfl
  · rw [hb]
    refine ⟨?_, hread⟩
    rw [Raw.ptr, ho]
    rfl

theorem Holds.denotes_all (hd : Holds h o d) :
    Denotes h (o.ptr 0) o.len (d.buffer.map fun _ => d.contents) := by
  have hdenotes := hd.denotes 0 d.len (by omega)
  rw [List.drop_zero, ← length_contents, List.take_length, length_contents, ← hd.len] at hdenotes
  exact hdenotes

/-- The block of another object is another block. -/
theorem ptr_ne_buffer (hother : ∀ a ∈ o'.buffer, o.buffer ≠ some a) (off : Nat) :
    ∀ a off', o'.ptr off = .block a off' → o.buffer ≠ some a := by
  intro a off' hp
  unfold Raw.ptr at hp
  cases hbuffer : o'.buffer with
  | none =>
    rw [hbuffer] at hp
    cases hp
  | some a' =>
    rw [hbuffer] at hp
    cases hp
    exact hother a hbuffer

theorem plusAssign_yields (hd : Holds h o d) (hd' : Holds h o' d') :
    ∃ r, Raw.plusAssign h o o' = some r ∧
      Yields h o r (d.append (d'.buffer.map fun _ => d'.contents)) :=
  append_yields hd hd'.denotes_all

theorem assignCopy_yields (hd : Holds h o d) (hd' : Holds h o' d')
    (hother : ∀ a ∈ o'.buffer, o.buffer ≠ some a) :
    ∃ r, Raw.assignCopy h o o' = some r ∧ Yields h o r (d.assignCopy d') := by
  obtain ⟨r, hrun, hyields⟩ := setData_yields hd hd'.denotes_all (ptr_ne_buffer hother 0)
  refine ⟨(r.1, { r.2 with bSecure := o'.bSecure }), ?_, ?_⟩
  · exact Option.bind_eq_some_iff.mpr ⟨r, hrun, rfl⟩
  · exact ⟨⟨hd'.bSecure, hyields.holds.len, hyields.holds.buffer⟩, hyields.frame, hyields.fresh,
      hyields.freed⟩

theorem setData_new (bSecure : Bool) (arg : Option Bytes) :
    (new bSecure).setData arg = (((new bSecure).setData (some (arg.getD []))).1, []) := by
  match arg with
  | none => rfl
  | some [] => rfl
  | some (b :: data) => rfl

theorem getD_part (d : BinData) (off len : Nat) :
    (d.buffer.map fun _ => (d.contents.drop off).take len).getD [] =
      (d.contents.drop off).take len := by
  cases hb : d.buffer with
  | none =>
    have hcontents : d.contents = [] :=
      List.length_eq_zero_iff.mp ((length_contents d).trans (len_eq_zero hb))
    rw [hcontents, List.drop_nil, List.take_nil]
    rfl
  | some b => rfl

/-- A new object of a part of the contents. -/
theorem setData_part_yields (hd : Holds h o d) {off len : Nat} (hle : off + len ≤ d.len) :
    ∃ r, Raw.setData h { bSecure := o.bSecure } (o.ptr off) len = some r ∧
      Yields h { bSecure := o.bSecure } r
        (((new o.bSecure).setData (some ((d.contents.drop off).take len))).1, []) := by
  obtain ⟨r, hrun, hyields⟩ := setData_yields (holds_new h o.bSecure) (hd.denotes off len hle) nofun
  rw [setData_new, getD_part] at hyields
  exact ⟨r, hrun, hyields⟩

theorem sub_yields (hd : Holds h o d) {pos len : Nat} (hlt : pos + len < 18446744073709551616) :
    ∃ r, Raw.sub h o pos len = some r ∧
      Yields h { bSecure := o.bSecure } r (d.sub pos len, []) := by
  unfold Raw.sub BinData.sub
  rw [← hd.bSecure]
  by_cases hlen : len = 0
  · rw [if_pos hlen, if_pos hlen]
    exact ⟨_, rfl, yields_self (holds_new h o.bSecure)⟩
  · rw [if_neg hlen, if_neg hlen, hd.len]
    by_cases hpos : pos > d.len
    · rw [if_pos hpos, if_pos hpos]
      exact setData_part_yields hd (Nat.zero_le _)
    · rw [if_neg hpos, if_neg hpos, Nat.mod_eq_of_lt hlt]
      by_cases hover : pos + len > d.len
      · -- there are not that many bytes
        have hrest : (d.contents.drop pos).take len = (d.contents.drop pos).take (d.len - pos) := by
          have hlength : (d.contents.drop pos).length = d.len - pos := by
            rw [List.length_drop, length_contents]
          rw [List.take_of_length_le (by omega), List.take_of_length_le hlength.le]
        rw [if_pos hover, hrest]
        exact setData_part_yields hd (by omega)
      · rw [if_neg hover]
        exact setData_part_yields hd (by omega)

/-- A move hands the block over. -/
theorem assignMove_eq {r : Heap UInt8 × Raw} (hcleanup : Raw.cleanup h o = some r) (rhs : Raw) :
    Raw.assignMove h o rhs = some (r.1, rhs, { bSecure := rhs.bSecure }) :=
  Option.bind_eq_some_iff.mpr ⟨r, hcleanup, rfl⟩

/-- `operator==` compares the contents. -/
theorem equals_eq (hd : Holds h o d) (hd' : Holds h o' d') :
    Raw.equals h o o' = some (decide (d.contents = d'.contents)) := by
  unfold Raw.equals
  by_cases hlen : o.len = o'.len
  · have hread' := hd'.read_all
    rw [← hlen] at hread'
    simp [if_pos hlen, Heap.memcmp, hd.read_all, hread']
  · have hne : d.contents ≠ d'.contents := by
      intro heq
      refine hlen ?_
      rw [hd.len, hd'.len, ← length_contents, heq, length_contents]
    rw [if_neg hlen, decide_eq_false hne]

end Other

/-- What a secure object without a rest gives back to the heap has been wiped. -/
theorem Yields.zero_freed {r : Heap UInt8 × Raw} {d' : BinData × List Bytes}
    (hy : Yields h o r d') (hd' : Replaces d d' ∨ d' = (d, [])) (hsecure : d.bSecure = true)
    (hslack : Zero d.slack) :
    ∃ freed, r.1.freed = h.freed ++ freed ∧ ∀ block ∈ freed, Zero block := by
  refine ⟨d'.2, hy.freed, ?_⟩
  rcases hd' with hreplaces | rfl
  · rw [hreplaces.freed]
    exact (zero_cleanup_iff hsecure).mpr hslack
  · nofun

end Holds

end Fluffycoin.BinData
