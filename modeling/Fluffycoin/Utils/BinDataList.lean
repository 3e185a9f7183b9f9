import Fluffycoin.Utils.BinDataMemory
import Fluffycoin.Utils.SafeData

/-!
# `BinData` is a list of bytes

Programs on named `BinData` and `SafeData` objects, on two levels. `run` executes the code of
`src/utils/BinData.cpp` and `SafeData.cpp` on a heap. `lists` has the list of bytes in the place of
each object, and neither memory nor the flag `bSecure`.

The class of an object is that of its name, so the same program can be run with other classes. A
command that names an object that is not there, or constructs one that is, does nothing. A pointer
into an object is to bytes that it has; null stands for any other. `operator+` is a copy and then
`+=`.

`Rep` relates the levels: the contents of each object are its list, no two objects have the same
block, and every block is that of an object. One command keeps it (`Rep.step`), so
* `run_eq_lists`: no program reads or writes outside of a block, and what is in the objects does not
  depend on which of them are secure;
* `run_owned`: no block is left without an object.
-/

namespace Fluffycoin.BinDataList

open BinData (Raw Given Holds Yields Denotes)
open SafeData (How)
open Heap (Ptr)

/-! ## Programs -/

/-- A pointer argument with its length. -/
inductive Arg where
  | null (len : Nat)
  /-- Memory that is not that of an object. -/
  | foreign (data : Bytes)
  /-- A part of the contents of an object. -/
  | part (y off len : Nat)

/-- The arguments of the constructors that take bytes. -/
inductive Init where
  | nothing
  | data (arg : Arg)
  /-- A string, up to its first zero. -/
  | psz (text : Option Bytes)
  | str (text : Bytes)

/-- The members that change an object, `setData` apart. -/
inductive Member where
  | resize (len : Nat)
  | setBuffer (given : Given)
  | append (arg : Arg)
  | prepend (arg : Arg)
  | truncateFront (bytes : Nat)
  | clear

inductive Cmd where
  | construct (x : Nat) (init : Init)
  | constructFrom (how : How) (x y : Nat)
  | assign (how : How) (x y : Nat)
  | sub (x y pos len : Nat) (hlt : pos + len < 18446744073709551616)
  /-- The argument is not a part of the object itself. -/
  | setData (x : Nat) (arg : Arg) (hother : ∀ off len, arg ≠ .part x off len)
  | member (x : Nat) (m : Member)
  | plusAssign (x y : Nat)
  | destroy (x : Nat)

/-! ## Programs in memory -/

/-- The heap, and the objects that are alive, by name. -/
structure Memory where
  heap : Heap UInt8
  objects : Nat → Option Raw

namespace Memory

/-- No objects; `junk` is what is in new memory. -/
def start (junk : Nat → Nat → UInt8) : Memory := ⟨Heap.empty junk, fun _ => none⟩

/-- The memory after an operation on an object. -/
def put (m : Memory) (x : Nat) (r : Heap UInt8 × Raw) : Memory :=
  ⟨r.1, Function.update m.objects x (some r.2)⟩

/-- What `data` and `length` give to read. -/
def contents (m : Memory) (x : Nat) : Option Bytes :=
  (m.objects x).bind fun o => m.heap.read (o.ptr 0) o.len

/-- `operator==`. -/
def equals (m : Memory) (x y : Nat) : Option Bool :=
  (m.objects x).bind fun o => (m.objects y).bind fun rhs => Raw.equals m.heap o rhs

end Memory

def Arg.pointer (m : Memory) : Arg → Ptr UInt8 × Nat
  | .null len => (.null, len)
  | .foreign data => (.foreign data, data.length)
  | .part y off len =>
    match m.objects y with
    | some o => if off + len ≤ o.len then (o.ptr off, len) else (.null, len)
    | none => (.null, len)

/-- `strlen`. -/
def strlen (str : Bytes) : Nat := (str.takeWhile (· ≠ 0)).length

/-- The rest of a constructor (`BinData.cpp:30-47`, `SafeData.cpp:5-20`). -/
def Init.run (m : Memory) (o : Raw) : Init → Option (Heap UInt8 × Raw)
  | .nothing => some (m.heap, o)
  | .data arg => Raw.setData m.heap o (arg.pointer m).1 (arg.pointer m).2
  | .psz none => some (m.heap, o)
  | .psz (some text) =>
    let psz := text ++ [0]
    if psz.head? ≠ some 0 then Raw.setData m.heap o (.foreign psz) (strlen psz)
    else some (m.heap, o)
  | .str text => Raw.setData m.heap o (.foreign (text ++ [0])) text.length

def Member.run (m : Memory) (o : Raw) : Member → Option (Heap UInt8 × Raw)
  | .resize len => Raw.resize m.heap o len
  | .setBuffer given => Raw.giveBuffer m.heap o given
  | .append arg => Raw.append m.heap o (arg.pointer m).1 (arg.pointer m).2
  | .prepend arg => Raw.prepend m.heap o (arg.pointer m).1 (arg.pointer m).2
  | .truncateFront bytes => Raw.truncateFront m.heap o bytes
  | .clear => Raw.cleanup m.heap o

/-- The assignment of another object, `y`. -/
def How.run (m : Memory) (x y : Nat) (o rhs : Raw) : How → Option Memory
  | .copy => (Raw.assignCopy m.heap o rhs).map (m.put x)
  | .move => (Raw.assignMove m.heap o rhs).map fun (heap, o, rhs) =>
    ⟨heap, Function.update (Function.update m.objects y (some rhs)) x (some o)⟩

/-- A command, for objects of these classes. -/
def step (cls : Nat → SafeData.Class) (m : Memory) : Cmd → Option Memory
  | .construct x init =>
    match m.objects x with
    | none => (init.run m { bSecure := (cls x).bSecure }).map (m.put x)
    | some _ => some m
  | .constructFrom how x y =>
    match m.objects x, m.objects y with
    | none, some rhs => How.run m x y { bSecure := (cls x).bSecure } rhs how
    | _, _ => some m
  | .assign how x y =>
    match m.objects x, m.objects y with
    -- `this != &rhs`
    | some o, some rhs => if x = y then some m else How.run m x y o rhs how
    | _, _ => some m
  | .sub x y pos len _ =>
    match m.objects x, m.objects y with
    | none, some o => (Raw.sub m.heap o pos len).map (m.put x)
    | _, _ => some m
  | .setData x arg _ =>
    match m.objects x with
    | some o => (Raw.setData m.heap o (arg.pointer m).1 (arg.pointer m).2).map (m.put x)
    | none => some m
  | .member x f =>
    match m.objects x with
    | some o => (f.run m o).map (m.put x)
    | none => some m
  | .plusAssign x y =>
    match m.objects x, m.objects y with
    | some o, some rhs => (Raw.plusAssign m.heap o rhs).map (m.put x)
    | _, _ => some m
  | .destroy x =>
    match m.objects x with
    | some o => (Raw.cleanup m.heap o).map fun r => ⟨r.1, Function.update m.objects x none⟩
    | none => some m

/-- The memory after a program. -/
def run (cls : Nat → SafeData.Class) (junk : Nat → Nat → UInt8) (cmds : List Cmd) : Option Memory :=
  cmds.foldlM (step cls) (.start junk)

/-! ## Programs on lists -/

/-- The bytes of the objects that are alive. -/
abbrev Lists := Nat → Option Bytes

def Arg.bytes (s : Lists) : Arg → Bytes
  | .null _ => []
  | .foreign data => data
  | .part y off len =>
    match s y with
    | some l => if off + len ≤ l.length then (l.drop off).take len else []
    | none => []

def Init.bytes (s : Lists) : Init → Bytes
  | .nothing => []
  | .data arg => arg.bytes s
  | .psz none => []
  | .psz (some text) => text.takeWhile (· ≠ 0)
  | .str text => text

def Member.bytes (s : Lists) (l : Bytes) : Member → Bytes
  | .resize len => l.take len ++ List.replicate (len - l.length) 0
  | .setBuffer given => (given.data.getD []).take given.len
  | .append arg => l ++ arg.bytes s
  | .prepend arg => arg.bytes s ++ l
  | .truncateFront bytes => l.drop bytes
  | .clear => []

/-- What is left of the bytes of the other object. -/
def How.bytes (rhs : Bytes) : How → Bytes
  | .copy => rhs
  | .move => []

def listStep (s : Lists) : Cmd → Lists
  | .construct x init =>
    match s x with
    | none => Function.update s x (some (init.bytes s))
    | some _ => s
  | .constructFrom how x y =>
    match s x, s y with
    | none, some l => Function.update (Function.update s y (some (How.bytes l how))) x (some l)
    | _, _ => s
  | .assign how x y =>
    match s x, s y with
    | some _, some l =>
      if x = y then s
      else Function.update (Function.update s y (some (How.bytes l how))) x (some l)
    | _, _ => s
  | .sub x y pos len _ =>
    match s x, s y with
    | none, some l => Function.update s x (some ((l.drop pos).take len))
    | _, _ => s
  | .setData x arg _ =>
    match s x with
    | some _ => Function.update s x (some (arg.bytes s))
    | none => s
  | .member x f =>
    match s x with
    | some l => Function.update s x (some (f.bytes s l))
    | none => s
  | .plusAssign x y =>
    match s x, s y with
    | some l, some l' => Function.update s x (some (l ++ l'))
    | _, _ => s
  | .destroy x => Function.update s x none

/-- The lists after a program. -/
def lists (cmds : List Cmd) : Lists := cmds.foldl listStep fun _ => none

/-! ## Contents -/

section Contents

variable (d : BinData)

theorem contents_setData (arg : Option Bytes) : (d.setData arg).1.contents = arg.getD [] := by
  match arg with
  | none => rfl
  | some [] => rfl
  | some (b :: data) => exact BinData.contents_ofBlock _ _

theorem contents_append (arg : Option Bytes) :
    (d.append arg).1.contents = d.contents ++ arg.getD [] := by
  match arg with
  | none => exact (List.append_nil _).symm
  | some [] => exact (List.append_nil _).symm
  | some (b :: data) => exact BinData.contents_ofBlock _ _

theorem contents_prepend (arg : Option Bytes) :
    (d.prepend arg).1.contents = arg.getD [] ++ d.contents := by
  match arg with
  | none => rfl
  | some [] => rfl
  | some (b :: data) => exact BinData.contents_ofBlock _ _

theorem contents_resize (len : Nat) :
    (d.resize len).1.contents =
      d.contents.take len ++ List.replicate (len - d.contents.length) 0 := by
  rw [BinData.length_contents]
  unfold BinData.resize
  by_cases hlen : d.len = len
  · rw [if_pos hlen, ← hlen, Nat.sub_self, List.replicate_zero, List.append_nil,
      List.take_of_length_le (BinData.length_contents d).le]
  · rw [if_neg hlen]
    cases d.buffer with
    | none => exact BinData.contents_ofBlock _ _
    | some block =>
      by_cases hplain : (!d.bSecure) = true
      · simp only [hplain, if_true]
        by_cases hzero : len = 0
        · rw [if_pos hzero, hzero, List.take_zero, Nat.zero_sub]
          rfl
        · rw [if_neg hzero, BinData.contents_ofBlock]
      · simp only [hplain, Bool.false_eq_true, if_false]
        exact BinData.contents_ofBlock _ _

theorem contents_setBuffer (given : Given) :
    (d.setBuffer given).1.contents = (given.data.getD []).take given.len := by
  obtain ⟨data, len, hle⟩ := given
  unfold BinData.setBuffer
  by_cases hlen : len = 0
  · simp only [hlen, if_true, List.take_zero]
    rfl
  · simp only [hlen, if_false]
    cases data with
    | none => exact List.take_nil.symm
    | some block => rfl

theorem contents_sub (pos len : Nat) :
    (d.sub pos len).contents = (d.contents.drop pos).take len := by
  unfold BinData.sub
  by_cases hlen : len = 0
  · rw [if_pos hlen, hlen, List.take_zero]
    rfl
  · rw [if_neg hlen]
    by_cases hpos : pos > d.len
    · rw [if_pos hpos, List.drop_eq_nil_of_le ((BinData.length_contents d).le.trans hpos.le),
        List.take_nil]
      rfl
    · rw [if_neg hpos, contents_setData]
      rfl

theorem getD_contents : (d.buffer.map fun _ => d.contents).getD [] = d.contents := by
  have hpart := BinData.getD_part d 0 d.len
  rwa [List.drop_zero, List.take_of_length_le (BinData.length_contents d).le] at hpart

theorem contents_assignCopy (rhs : BinData) : (d.assignCopy rhs).1.contents = rhs.contents :=
  (contents_setData d _).trans (getD_contents rhs)

end Contents

/-! ## The levels agree -/

/-- The contents of each object are its list, and every block is that of one object. -/
structure Rep (m : Memory) (s : Lists) : Prop where
  objects : ∀ x, m.objects x = none ∧ s x = none ∨
    ∃ o d, m.objects x = some o ∧ Holds m.heap o d ∧ s x = some d.contents
  distinct : ∀ x y o o' a, m.objects x = some o → m.objects y = some o' →
    o.buffer = some a → o'.buffer = some a → x = y
  owned : ∀ a b, m.heap.block a = some b → ∃ x o, m.objects x = some o ∧ o.buffer = some a

section Rep

variable {m : Memory} {s : Lists} {x y : Nat} {o : Raw} {d : BinData}

theorem rep_start (junk : Nat → Nat → UInt8) : Rep (.start junk) fun _ => none :=
  ⟨fun _ => .inl ⟨rfl, rfl⟩, nofun, nofun⟩

theorem Rep.absent (hr : Rep m s) (hx : m.objects x = none) : s x = none := by
  rcases hr.objects x with ⟨-, hs⟩ | ⟨o, d, ho, -⟩
  · exact hs
  · rw [hx] at ho
    cases ho

theorem Rep.alive (hr : Rep m s) (hx : m.objects x = some o) :
    ∃ d, Holds m.heap o d ∧ s x = some d.contents := by
  rcases hr.objects x with ⟨hnone, -⟩ | ⟨o', d, ho, hd, hs⟩
  · rw [hx] at hnone
    cases hnone
  · rw [hx] at ho
    cases ho
    exact ⟨d, hd, hs⟩

/-- The contents of an object are its list. -/
def Represents (m : Memory) (s : Lists) (x : Nat) : Prop :=
  m.objects x = none ∧ s x = none ∨
    ∃ o d, m.objects x = some o ∧ Holds m.heap o d ∧ s x = some d.contents

/-- The block at an address is that of an object. -/
def Memory.Owns (m : Memory) (x a : Nat) : Prop := ∃ o, m.objects x = some o ∧ o.buffer = some a

theorem Rep.eq_of_owns (hr : Rep m s) {a : Nat} (hx : m.Owns x a) (hy : m.Owns y a) : x = y := by
  obtain ⟨o, ho, ha⟩ := hx
  obtain ⟨o', ho', ha'⟩ := hy
  exact hr.distinct x y o o' a ho ho' ha ha'

theorem Rep.of_owns (hrepresents : ∀ x, Represents m s x)
    (hdistinct : ∀ x y a, m.Owns x a → m.Owns y a → x = y)
    (howned : ∀ a b, m.heap.block a = some b → ∃ x, m.Owns x a) : Rep m s :=
  ⟨hrepresents, fun x y o o' a ho ho' ha ha' => hdistinct x y a ⟨o, ho, ha⟩ ⟨o', ho', ha'⟩, howned⟩

theorem Rep.exists_block (hr : Rep m s) {a : Nat} (ha : m.Owns x a) :
    ∃ b, m.heap.block a = some b := by
  obtain ⟨o, hx, ho⟩ := ha
  obtain ⟨d, hd, -⟩ := hr.alive hx
  rcases hd.buffer with ⟨hnone, -⟩ | ⟨a', b, hsome, hb, -⟩
  · rw [hnone] at ho
    cases ho
  · rw [hsome] at ho
    cases ho
    exact ⟨b, hb⟩

/-- The object an operation is on: one that is alive, or a new one, without a block. -/
def Current (m : Memory) (x : Nat) (o : Raw) : Prop :=
  m.objects x = some o ∨ m.objects x = none ∧ o.buffer = none

theorem Current.owns (hx : Current m x o) {a : Nat} (ho : o.buffer = some a) : m.Owns x a := by
  rcases hx with hx | ⟨-, hnone⟩
  · exact ⟨o, hx, ho⟩
  · rw [hnone] at ho
    cases ho

/-- No other object has the block. -/
theorem Rep.buffer_ne (hr : Rep m s) (hx : Current m x o) (hne : y ≠ x) {a : Nat}
    (hy : m.Owns y a) : o.buffer ≠ some a :=
  fun ho => hne (hr.eq_of_owns hy (hx.owns ho))

theorem owns_put {r : Heap UInt8 × Raw} {z a : Nat} :
    (m.put x r).Owns z a ↔ z = x ∧ r.2.buffer = some a ∨ z ≠ x ∧ m.Owns z a := by
  unfold Memory.Owns Memory.put
  by_cases hz : z = x
  · simp [hz]
  · simp [hz]

/-- **The rule for operations**: what yields an object of the right contents keeps the levels in
agreement. -/
theorem Rep.put (hr : Rep m s) (hx : Current m x o) {r : Heap UInt8 × Raw}
    {d : BinData × List Bytes} (hy : Yields m.heap o r d) :
    Rep (m.put x r) (Function.update s x (some d.1.contents)) := by
  -- the block of another object is not the one the operation has left here
  have hfresh : ∀ y a, y ≠ x → m.Owns y a → r.2.buffer ≠ some a := by
    intro y a hne ha hnew
    rcases hy.fresh a hnew with hown | hfree
    · exact hr.buffer_ne hx hne ha hown
    · obtain ⟨b, hb⟩ := hr.exists_block ha
      rw [hfree] at hb
      cases hb
  refine .of_owns (fun y => ?_) (fun y z a hya hza => ?_) fun a b hb => ?_
  · by_cases hne : y = x
    · subst hne
      exact .inr ⟨r.2, d.1, Function.update_self .., hy.holds, Function.update_self ..⟩
    · simp only [Represents, Memory.put, Function.update_of_ne hne]
      refine (hr.objects y).imp_right ?_
      rintro ⟨o', d', ho', hd', hs⟩
      refine ⟨o', d', ho', hd'.congr fun a ha => ?_, hs⟩
      rw [hy.frame a (hfresh y a hne ⟨o', ho', ha⟩)]
      exact if_neg (hr.buffer_ne hx hne ⟨o', ho', ha⟩)
  · rcases owns_put.mp hya with ⟨hyx, hya⟩ | ⟨hyx, hya⟩ <;>
      rcases owns_put.mp hza with ⟨hzx, hza⟩ | ⟨hzx, hza⟩
    · rw [hyx, hzx]
    · exact absurd hya (hfresh z a hzx hza)
    · exact absurd hza (hfresh y a hyx hya)
    · exact hr.eq_of_owns hya hza
  · by_cases hnew : r.2.buffer = some a
    · exact ⟨x, owns_put.mpr (.inl ⟨rfl, hnew⟩)⟩
    · -- a block that was there, and not the one of the object
      have hwithout : m.heap.without o.buffer a = some b := (hy.frame a hnew).symm.trans hb
      have hown : o.buffer ≠ some a := by
        intro hown
        rw [Heap.without, if_pos hown] at hwithout
        cases hwithout
      rw [Heap.without, if_neg hown] at hwithout
      obtain ⟨z, o', ho', ha⟩ := hr.owned a b hwithout
      refine ⟨z, owns_put.mpr (.inr ⟨?_, o', ho', ha⟩)⟩
      rintro rfl
      rcases hx with hx | ⟨hx, -⟩ <;> rw [ho'] at hx <;> cases hx
      exact hown ha

/-- The command succeeds, and leaves memory and lists in agreement. -/
def Agrees (r : Option Memory) (s : Lists) : Prop := ∃ m, r = some m ∧ Rep m s

theorem Rep.agrees (hr : Rep m s) : Agrees (some m) s := ⟨m, rfl, hr⟩

/-- An operation that succeeds. -/
theorem Rep.exists_put (hr : Rep m s) (hx : Current m x o) {op : Option (Heap UInt8 × Raw)}
    {d : BinData × List Bytes} (hop : ∃ r, op = some r ∧ Yields m.heap o r d) :
    Agrees (op.map (m.put x)) (Function.update s x (some d.1.contents)) := by
  obtain ⟨r, rfl, hy⟩ := hop
  exact ⟨_, rfl, hr.put hx hy⟩

/-- **The rule for changes of names**: no block is touched, and each is that of another object. -/
theorem Rep.renamed {m' : Memory} {s' : Lists} (hr : Rep m s) (name : Equiv.Perm Nat)
    (hheap : m'.heap = m.heap) (howns : ∀ z a, m'.Owns z a ↔ m.Owns (name z) a)
    (hrepresents : ∀ z, Represents m' s' z) : Rep m' s' := by
  refine .of_owns hrepresents (fun z w a hz hw => ?_) fun a b hb => ?_
  · exact name.injective (hr.eq_of_owns ((howns z a).mp hz) ((howns w a).mp hw))
  · rw [hheap] at hb
    obtain ⟨z, hz⟩ := hr.owned a b hb
    refine ⟨name.symm z, (howns _ a).mpr ?_⟩
    rwa [Equiv.apply_symm_apply]

/-- The destructor of an object without a block. -/
theorem Rep.erase (hr : Rep m s) (hx : m.objects x = some o) (ho : o.buffer = none) :
    Rep ⟨m.heap, Function.update m.objects x none⟩ (Function.update s x none) := by
  refine hr.renamed (Equiv.refl Nat) rfl (fun z a => ?_) fun z => ?_
  · unfold Memory.Owns
    by_cases hz : z = x
    · simp [hz, hx, ho]
    · simp [hz]
  · by_cases hz : z = x
    · subst hz
      exact .inl ⟨Function.update_self .., Function.update_self ..⟩
    · simp only [Represents, Function.update_of_ne hz]
      exact hr.objects z

/-- An object hands its block over to one that has none. -/
theorem Rep.handOver (hr : Rep m s) (hx : m.objects x = some o) (ho : o.buffer = none)
    (hne : y ≠ x) {rhs : Raw} (hy : m.objects y = some rhs) :
    Rep ⟨m.heap, Function.update (Function.update m.objects y (some { bSecure := rhs.bSecure })) x
        (some rhs)⟩
      (Function.update (Function.update s y (some [])) x (s y)) := by
  refine hr.renamed (Equiv.swap x y) rfl (fun z a => ?_) fun z => ?_
  · unfold Memory.Owns
    by_cases hzx : z = x
    · simp [hzx, hy]
    · by_cases hzy : z = y
      · simp [hzy, hne, hx, ho]
      · rw [Equiv.swap_apply_of_ne_of_ne hzx hzy]
        simp [hzx, hzy]
  · by_cases hzx : z = x
    · obtain ⟨d, hd, hs⟩ := hr.alive hy
      subst hzx
      exact .inr ⟨rhs, d, Function.update_self .., hd, (Function.update_self ..).trans hs⟩
    · simp only [Represents, Function.update_of_ne hzx]
      by_cases hzy : z = y
      · subst hzy
        exact .inr ⟨_, _, Function.update_self .., BinData.holds_new _ rhs.bSecure,
          Function.update_self ..⟩
      · simp only [Function.update_of_ne hzy]
        exact hr.objects z

/-! ## One command -/

/-- An argument of a member. -/
theorem Rep.denotes (hr : Rep m s) (arg : Arg) :
    ∃ a, Denotes m.heap (arg.pointer m).1 (arg.pointer m).2 a ∧ a.getD [] = arg.bytes s := by
  cases arg with
  | null len => exact ⟨none, rfl, rfl⟩
  | foreign data =>
    have hread := m.heap.read_foreign data []
    rw [List.append_nil] at hread
    exact ⟨some data, ⟨rfl, hread⟩, rfl⟩
  | part y off len =>
    cases hy : m.objects y with
    | none =>
      simp only [Arg.pointer, Arg.bytes, hy, hr.absent hy]
      exact ⟨none, rfl, rfl⟩
    | some o =>
      obtain ⟨d, hd, hs⟩ := hr.alive hy
      simp only [Arg.pointer, Arg.bytes, hy, hs, hd.len, BinData.length_contents]
      by_cases hle : off + len ≤ d.len
      · simp only [if_pos hle]
        exact ⟨_, hd.denotes off len hle, BinData.getD_part d off len⟩
      · simp only [if_neg hle]
        exact ⟨none, rfl, rfl⟩

/-- An argument that is not a part of the object is not in its block. -/
theorem Rep.pointer_ne (hr : Rep m s) (hx : Current m x o) {arg : Arg}
    (hother : ∀ off len, arg ≠ .part x off len) :
    ∀ a off, (arg.pointer m).1 = .block a off → o.buffer ≠ some a := by
  intro a off hp
  cases arg with
  | null len => cases hp
  | foreign data => cases hp
  | part y off' len =>
    have hne : y ≠ x := fun hyx => hother off' len (by rw [hyx])
    cases hy : m.objects y with
    | none =>
      simp only [Arg.pointer, hy] at hp
      cases hp
    | some o' =>
      simp only [Arg.pointer, hy] at hp
      by_cases hle : off' + len ≤ o'.len
      · rw [if_pos hle] at hp
        exact BinData.ptr_ne_buffer (fun _ ha => hr.buffer_ne hx hne ⟨o', hy, ha⟩) off' a off hp
      · rw [if_neg hle] at hp
        cases hp

theorem takeWhile_append_zero (text : Bytes) :
    (text ++ [0]).takeWhile (· ≠ 0) = text.takeWhile (· ≠ 0) := by
  induction text with
  | nil => rfl
  | cons b text ih =>
    rw [List.cons_append, List.takeWhile_cons, List.takeWhile_cons, ih]

theorem takeWhile_of_head {str : Bytes} (hhead : str.head? = some 0) :
    str.takeWhile (· ≠ 0) = [] := by
  cases str with
  | nil => rfl
  | cons b str =>
    cases hhead
    rfl

/-- The constructors from bytes. -/
theorem Rep.init (hr : Rep m s) (hx : m.objects x = none) (bSecure : Bool) (init : Init) :
    Agrees ((init.run m { bSecure }).map (m.put x))
      (Function.update s x (some (init.bytes s))) := by
  have hcurrent : Current m x { bSecure } := .inr ⟨hx, rfl⟩
  have hnew := BinData.holds_new m.heap bSecure
  have hnothing : Agrees ((some (m.heap, ({ bSecure } : Raw))).map (m.put x))
      (Function.update s x (some [])) :=
    hr.exists_put hcurrent ⟨_, rfl, BinData.yields_self hnew⟩
  have hset : ∀ {p len a}, Denotes m.heap p len a →
      Agrees ((Raw.setData m.heap { bSecure } p len).map (m.put x))
        (Function.update s x (some (a.getD []))) := by
    intro p len a ha
    have hput := hr.exists_put hcurrent (BinData.setData_yields hnew ha nofun)
    rwa [contents_setData] at hput
  cases init with
  | nothing => exact hnothing
  | data arg =>
    obtain ⟨a, ha, hbytes⟩ := hr.denotes arg
    have hput := hset ha
    rwa [hbytes] at hput
  | psz text =>
    cases text with
    | none => exact hnothing
    | some text =>
      show Agrees ((if (text ++ [0]).head? ≠ some 0 then _ else _ : Option _).map _)
        (Function.update s x (some (text.takeWhile (· ≠ 0))))
      rw [← takeWhile_append_zero]
      by_cases hhead : (text ++ [0]).head? ≠ some 0
      · rw [if_pos hhead]
        have hread := m.heap.read_foreign ((text ++ [0]).takeWhile (· ≠ 0))
          ((text ++ [0]).dropWhile (· ≠ 0))
        rw [List.takeWhile_append_dropWhile] at hread
        exact hset (a := some _) ⟨rfl, hread⟩
      · rw [if_neg hhead, takeWhile_of_head (not_not.mp hhead)]
        exact hnothing
  | str text => exact hset (a := some text) ⟨rfl, m.heap.read_foreign text [0]⟩

/-- The members. -/
theorem Rep.member (hr : Rep m s) (hx : m.objects x = some o) (hd : Holds m.heap o d)
    (f : Member) :
    Agrees ((f.run m o).map (m.put x))
      (Function.update s x (some (f.bytes s d.contents))) := by
  have hcurrent : Current m x o := .inl hx
  cases f with
  | resize len =>
    have hput := hr.exists_put hcurrent (BinData.resize_yields hd len)
    rwa [contents_resize] at hput
  | setBuffer given =>
    have hput := hr.exists_put hcurrent (BinData.giveBuffer_yields hd given)
    rwa [contents_setBuffer] at hput
  | append arg =>
    obtain ⟨a, ha, hbytes⟩ := hr.denotes arg
    have hput := hr.exists_put hcurrent (BinData.append_yields hd ha)
    rwa [contents_append, hbytes] at hput
  | prepend arg =>
    obtain ⟨a, ha, hbytes⟩ := hr.denotes arg
    have hput := hr.exists_put hcurrent (BinData.prepend_yields hd ha)
    rwa [contents_prepend, hbytes] at hput
  | truncateFront bytes =>
    have hput := hr.exists_put hcurrent (BinData.truncateFront_yields hd bytes)
    rwa [BinData.contents_truncateFront] at hput
  | clear => exact hr.exists_put hcurrent (BinData.cleanup_yields hd)

/-- An assignment of another object. -/
theorem Rep.assign (hr : Rep m s) (hx : Current m x o) (hd : Holds m.heap o d) (hne : y ≠ x)
    {rhs : Raw} {l : Bytes} (hy : m.objects y = some rhs) (hs : s y = some l) (how : How) :
    Agrees (How.run m x y o rhs how)
      (Function.update (Function.update s y (some (How.bytes l how))) x (some l)) := by
  obtain ⟨d', hd', hs'⟩ := hr.alive hy
  rw [hs] at hs'
  cases hs'
  cases how with
  | copy =>
    have hput := hr.exists_put hx
      (BinData.assignCopy_yields hd hd' fun _ ha => hr.buffer_ne hx hne ⟨rhs, hy, ha⟩)
    rw [contents_assignCopy] at hput
    have hsame : Function.update s y (some (How.bytes d'.contents .copy)) = s := by
      rw [How.bytes, ← hs, Function.update_eq_self]
    rwa [hsame]
  | move =>
    obtain ⟨r, hcleanup, hyields⟩ := BinData.cleanup_yields hd
    have hmove := (hr.put hx hyields).handOver (Function.update_self ..)
      (hyields.holds.buffer_eq_none rfl) hne ((Function.update_of_ne hne ..).trans hy)
    refine ⟨_, by rw [How.run, BinData.assignMove_eq hcleanup]; rfl, ?_⟩
    simp only [Memory.put, Function.update_of_ne hne, hs] at hmove
    rw [Function.update_comm hne.symm _ _ m.objects, Function.update_idem,
      Function.update_comm hne.symm _ _ s, Function.update_idem] at hmove
    exact hmove

/-- The rule for commands on an object that is alive. On another name they do nothing. -/
theorem Rep.onOne (hr : Rep m s) {f : Raw → Option Memory} {g : Bytes → Lists}
    (hf : ∀ o d, m.objects x = some o → Holds m.heap o d → Agrees (f o) (g d.contents)) :
    Agrees (match m.objects x with | some o => f o | none => some m)
      (match s x with | some l => g l | none => s) := by
  rcases hr.objects x with ⟨hx, hs⟩ | ⟨o, d, hx, hd, hs⟩
  · rw [hx, hs]
    exact hr.agrees
  · rw [hx, hs]
    exact hf o d hx hd

/-- The rule for commands on two objects. -/
theorem Rep.onTwo (hr : Rep m s) {f : Raw → Raw → Option Memory} {g : Bytes → Bytes → Lists}
    (hf : ∀ o rhs d d', m.objects x = some o → Holds m.heap o d → m.objects y = some rhs →
      Holds m.heap rhs d' → s y = some d'.contents → Agrees (f o rhs) (g d.contents d'.contents)) :
    Agrees (match m.objects x, m.objects y with | some o, some rhs => f o rhs | _, _ => some m)
      (match s x, s y with | some l, some l' => g l l' | _, _ => s) := by
  rcases hr.objects x with ⟨hx, hs⟩ | ⟨o, d, hx, hd, hs⟩
  · rw [hx, hs]
    exact hr.agrees
  · rcases hr.objects y with ⟨hy, hs'⟩ | ⟨rhs, d', hy, hd', hs'⟩
    · rw [hx, hs, hy, hs']
      exact hr.agrees
    · rw [hx, hs, hy, hs']
      exact hf o rhs d d' hx hd hy hd' hs'

/-- The rule for commands that make an object out of another. -/
theorem Rep.onNewFrom (hr : Rep m s) {f : Raw → Option Memory} {g : Bytes → Lists}
    (hf : ∀ rhs d, m.objects x = none → m.objects y = some rhs → Holds m.heap rhs d →
      s y = some d.contents → Agrees (f rhs) (g d.contents)) :
    Agrees (match m.objects x, m.objects y with | none, some rhs => f rhs | _, _ => some m)
      (match s x, s y with | none, some l => g l | _, _ => s) := by
  rcases hr.objects x with ⟨hx, hs⟩ | ⟨o, d, hx, hd, hs⟩
  · rcases hr.objects y with ⟨hy, hs'⟩ | ⟨rhs, d', hy, hd', hs'⟩
    · rw [hx, hs, hy, hs']
      exact hr.agrees
    · rw [hx, hs, hy, hs']
      exact hf rhs d' hx hy hd' hs'
  · rw [hx, hs]
    exact hr.agrees

/-- **One command** succeeds, and does the same on both levels. -/
theorem Rep.step (hr : Rep m s) (cls : Nat → SafeData.Class) (cmd : Cmd) :
    Agrees (step cls m cmd) (listStep s cmd) := by
  cases cmd with
  | construct x init =>
    cases hx : m.objects x with
    | none =>
      simp only [BinDataList.step, listStep, hx, hr.absent hx]
      exact hr.init hx _ init
    | some o =>
      obtain ⟨d, -, hs⟩ := hr.alive hx
      simp only [BinDataList.step, listStep, hx, hs]
      exact hr.agrees
  | constructFrom how x y =>
    refine hr.onNewFrom fun rhs d hx hy _ hs => ?_
    have hne : y ≠ x := by
      rintro rfl
      rw [hx] at hy
      cases hy
    exact hr.assign (.inr ⟨hx, rfl⟩) (BinData.holds_new _ _) hne hy hs how
  | assign how x y =>
    refine hr.onTwo fun o rhs d d' hx hd hy _ hs => ?_
    by_cases hxy : x = y
    · rw [if_pos hxy, if_pos hxy]
      exact hr.agrees
    · rw [if_neg hxy, if_neg hxy]
      exact hr.assign (.inl hx) hd (Ne.symm hxy) hy hs how
  | sub x y pos len hlt =>
    refine hr.onNewFrom fun o d hx _ hd _ => ?_
    have hput := hr.exists_put (.inr ⟨hx, rfl⟩) (BinData.sub_yields hd hlt)
    rwa [contents_sub] at hput
  | setData x arg hother =>
    refine hr.onOne fun o d hx hd => ?_
    obtain ⟨a, ha, hbytes⟩ := hr.denotes arg
    have hput := hr.exists_put (.inl hx)
      (BinData.setData_yields hd ha (hr.pointer_ne (.inl hx) hother))
    rwa [contents_setData, hbytes] at hput
  | member x f => exact hr.onOne fun o d hx hd => hr.member hx hd f
  | plusAssign x y =>
    refine hr.onTwo fun o rhs d d' hx hd _ hd' _ => ?_
    have hput := hr.exists_put (.inl hx) (BinData.plusAssign_yields hd hd')
    rwa [contents_append, getD_contents] at hput
  | destroy x =>
    cases hx : m.objects x with
    | none =>
      simp only [BinDataList.step, listStep, hx]
      refine ⟨m, rfl, ?_⟩
      rwa [← hr.absent hx, Function.update_eq_self]
    | some o =>
      obtain ⟨d, hd, -⟩ := hr.alive hx
      obtain ⟨r, hcleanup, hyields⟩ := BinData.cleanup_yields hd
      have herase := (hr.put (.inl hx) hyields).erase (Function.update_self ..)
        (hyields.holds.buffer_eq_none rfl)
      simp only [Memory.put, Function.update_idem] at herase
      simp only [BinDataList.step, listStep, hx, hcleanup, Option.map_some]
      exact ⟨_, rfl, herase⟩

/-- A program. -/
theorem Rep.foldlM (hr : Rep m s) (cls : Nat → SafeData.Class) (cmds : List Cmd) :
    Agrees (cmds.foldlM (BinDataList.step cls) m) (cmds.foldl listStep s) := by
  induction cmds generalizing m s with
  | nil => exact hr.agrees
  | cons cmd cmds ih =>
    obtain ⟨m₁, hstep, hr₁⟩ := hr.step cls cmd
    obtain ⟨m₂, hrun, hr₂⟩ := ih hr₁
    refine ⟨m₂, ?_, hr₂⟩
    rw [List.foldlM_cons, hstep]
    exact hrun

theorem Rep.contents (hr : Rep m s) (x : Nat) : m.contents x = s x := by
  unfold Memory.contents
  cases hx : m.objects x with
  | none => exact (hr.absent hx).symm
  | some o =>
    obtain ⟨d, hd, hs⟩ := hr.alive hx
    rw [Option.bind_some, hd.read_all, hs]

theorem Rep.equals (hr : Rep m s) (x y : Nat) :
    m.equals x y = (s x).bind fun l => (s y).map fun l' => decide (l = l') := by
  unfold Memory.equals
  cases hx : m.objects x with
  | none =>
    rw [hr.absent hx]
    rfl
  | some o =>
    obtain ⟨d, hd, hs⟩ := hr.alive hx
    cases hy : m.objects y with
    | none =>
      rw [hs, hr.absent hy]
      rfl
    | some rhs =>
      obtain ⟨d', hd', hs'⟩ := hr.alive hy
      rw [hs, hs']
      exact BinData.equals_eq hd hd'

end Rep

/-- **`BinData` is a list of bytes**, whatever the classes of the objects are. No command of a
program fails, the contents are the lists, and `operator==` is their equality; with other classes,
and other junk in memory, the contents are the same. -/
theorem run_eq_lists (cls : Nat → SafeData.Class) (junk : Nat → Nat → UInt8) (cmds : List Cmd) :
    ∃ m, run cls junk cmds = some m ∧ (∀ x, m.contents x = lists cmds x) ∧
      (∀ x y, m.equals x y =
        (lists cmds x).bind fun l => (lists cmds y).map fun l' => decide (l = l')) ∧
      ∀ cls' junk', ∃ m', run cls' junk' cmds = some m' ∧ ∀ x, m'.contents x = m.contents x := by
  obtain ⟨m, hrun, hr⟩ := (rep_start junk).foldlM cls cmds
  refine ⟨m, hrun, hr.contents, hr.equals, fun cls' junk' => ?_⟩
  obtain ⟨m', hrun', hr'⟩ := (rep_start junk').foldlM cls' cmds
  refine ⟨m', hrun', fun x => ?_⟩
  rw [hr'.contents, hr.contents]

/-- **Nothing leaks**: a block that is left is that of an object that is alive. -/
theorem run_owned (cls : Nat → SafeData.Class) (junk : Nat → Nat → UInt8) (cmds : List Cmd) :
    ∃ m, run cls junk cmds = some m ∧
      ∀ a b, m.heap.block a = some b → ∃ x, m.Owns x a := by
  obtain ⟨m, hrun, hr⟩ := (rep_start junk).foldlM cls cmds
  exact ⟨m, hrun, hr.owned⟩

end Fluffycoin.BinDataList
