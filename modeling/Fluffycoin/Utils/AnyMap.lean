import Fluffycoin.Utils.ObjectStore
import Fluffycoin.Utils.SortedMap
import Fluffycoin.Utils.Trace

/-!
# `AnyMap`

Model of `src/utils/AnyMap.{h,cpp}`: things of any types, at most one of each, by the hash code of
their type. A slot is a `unique_ptr` to a holder, and `none` here if that is null; the holder has
another to the thing. What the program is compiled with (`Types`) is arbitrary, two types may have
one hash code. An operation fails if it dereferences null.

`operator+=` of an rvalue moves the slots out of the other map and leaves their keys there
(`AnyMap.cpp:29-30`), so that map is full of empty slots afterwards. A copy of it, a `get` or a
merge of an lvalue (lines 17, 42) then dereferences null.

Programs are commands on named objects. `allFull_iff`: no object ever has an empty slot, and nothing
fails, exactly if each merge of an rvalue finds the other map without keys.
-/

namespace Fluffycoin

open Std (ExtTreeMap)

/-- `ObjHolder<T>`. -/
structure Holder (τ V : Type) where
  type : τ
  pt : Option V
  deriving DecidableEq, Repr

/-- The types and the objects of a program. -/
structure Types (τ V : Type) where
  /-- `typeid(T).hash_code()`. -/
  hash : τ → UInt64
  /-- `std::is_copy_constructible`. -/
  copyable : τ → Bool
  /-- The constructor without arguments. -/
  make : τ → V
  /-- The copy constructor. -/
  copy : V → V
  /-- What is left of an object that has been moved. -/
  moved : V → V

/-- `AnyMap::data`. -/
abbrev AnyMap (τ V : Type) := ExtTreeMap UInt64 (Option (Holder τ V))

namespace AnyMap

variable {τ V : Type} (T : Types τ V)

/-! ## Operations -/

/-- `ObjHolder::clone`: null if the type cannot be copied. -/
def clone (holder : Holder τ V) : Option (Holder τ V) :=
  if T.copyable holder.type then holder.pt.map fun v => ⟨holder.type, some (T.copy v)⟩ else none

/-- `T &get() &`. -/
def get (m : AnyMap τ V) (t : τ) : Option (AnyMap τ V × V) :=
  match m[T.hash t]? with
  | none => some (m.insertIfNew (T.hash t) (some ⟨t, some (T.make t)⟩), T.make t)
  | some slot => slot.bind fun holder => holder.pt.map fun v => (m, v)

/-- `T get() &&`. -/
def getMove (m : AnyMap τ V) (t : τ) : Option (AnyMap τ V × V) :=
  match m[T.hash t]? with
  | none => some (m, T.make t)
  | some slot => slot.bind fun holder => holder.pt.map fun v =>
    (m.insert (T.hash t) (some { holder with pt := some (T.moved v) }), v)

/-- `set(T &&)`. -/
def set (m : AnyMap τ V) (t : τ) (v : V) : AnyMap τ V := m.insert (T.hash t) (some ⟨t, some v⟩)

/-- `set(std::unique_ptr<T>)`. -/
def setPtr (m : AnyMap τ V) (t : τ) (pt : Option V) : AnyMap τ V :=
  m.insert (T.hash t) (some ⟨t, pt⟩)

/-- `clear<T>`. -/
def clear (m : AnyMap τ V) (t : τ) : AnyMap τ V := m.erase (T.hash t)

/-- The body of the loop of `operator=`, for a holder that is there. -/
def copySlot (data : AnyMap τ V) (k : UInt64) (holder : Holder τ V) : AnyMap τ V :=
  match clone T holder with
  | some pt => data.insertIfNew k (some pt)
  | none => data

/-- `operator=(const AnyMap &)` of another map (`AnyMap.cpp:10-23`). -/
def copyAssign (t : AnyMap τ V) : Option (AnyMap τ V) :=
  t.toList.foldlM (fun data pair => pair.2.map (copySlot T data pair.1)) ∅

/-- `operator+=(AnyMap &&)` of another map, and what it leaves of that (`AnyMap.cpp:25-34`). -/
def mergeMove (m rhs : AnyMap τ V) : AnyMap τ V × AnyMap τ V :=
  (rhs.toList.foldl (fun data pair => data.insert pair.1 pair.2) m, rhs.map fun _ _ => none)

/-- The body of the loop of `operator+=`, which clones a holder twice. -/
def mergeSlot (data : AnyMap τ V) (k : UInt64) (holder : Holder τ V) : AnyMap τ V :=
  match clone T holder with
  | some _ => data.insert k (clone T holder)
  | none => data

/-- `operator+=(const AnyMap &)` of another map (`AnyMap.cpp:36-49`). -/
def mergeCopy (m rhs : AnyMap τ V) : Option (AnyMap τ V) :=
  rhs.toList.foldlM (fun data pair => pair.2.map (mergeSlot T data pair.1)) m

/-! ## Empty slots -/

/-- A slot with a holder of a type of that hash code, and a thing in it. -/
def FullSlot (k : UInt64) (slot : Option (Holder τ V)) : Prop :=
  ∃ holder, slot = some holder ∧ T.hash holder.type = k ∧ holder.pt.isSome = true

/-- No slot is null. -/
def NoNull (m : AnyMap τ V) : Prop :=
  ∀ (k : UInt64) (slot : Option (Holder τ V)), m[k]? = some slot → slot.isSome = true

/-- No slot is empty, and each is of its own type. -/
def Full (m : AnyMap τ V) : Prop := ∀ k slot, m[k]? = some slot → FullSlot T k slot

section Full

variable {T} {m rhs : AnyMap τ V} {k : UInt64} {slot : Option (Holder τ V)}

theorem full_empty : Full T (∅ : AnyMap τ V) := by
  intro k slot h
  rw [ExtTreeMap.getElem?_empty] at h
  cases h

theorem Full.insert (h : Full T m) (hslot : FullSlot T k slot) : Full T (m.insert k slot) := by
  intro k' slot' h'
  rw [ExtTreeMap.getElem?_insert] at h'
  split at h'
  · rename_i hk
    cases h'
    rwa [← Std.compare_eq_iff_eq.mp hk]
  · exact h k' slot' h'

theorem Full.insertIfNew (h : Full T m) (hslot : FullSlot T k slot) :
    Full T (m.insertIfNew k slot) := by
  intro k' slot' h'
  rw [ExtTreeMap.getElem?_insertIfNew] at h'
  split at h'
  · rename_i hk
    cases h'
    rwa [← Std.compare_eq_iff_eq.mp hk.1]
  · exact h k' slot' h'

theorem Full.erase (h : Full T m) : Full T (m.erase k) := by
  intro k' slot' h'
  rw [ExtTreeMap.getElem?_erase] at h'
  split at h'
  · cases h'
  · exact h k' slot' h'

/-- A clone is of the same type. -/
theorem fullSlot_clone {holder pt : Holder τ V} (hk : T.hash holder.type = k)
    (h : clone T holder = some pt) : FullSlot T k (some pt) := by
  unfold clone at h
  split at h
  · obtain ⟨v, -, rfl⟩ := Option.map_eq_some_iff.mp h
    exact ⟨_, rfl, hk, rfl⟩
  · cases h

theorem Full.get (h : Full T m) (t : τ) : ∃ r, get T m t = some r ∧ Full T r.1 := by
  unfold AnyMap.get
  cases hslot : m[T.hash t]? with
  | none => exact ⟨_, rfl, h.insertIfNew ⟨_, rfl, rfl, rfl⟩⟩
  | some slot =>
    obtain ⟨holder, rfl, -, hpt⟩ := h _ _ hslot
    obtain ⟨v, hv⟩ := Option.isSome_iff_exists.mp hpt
    simp only [Option.bind_some, hv, Option.map_some]
    exact ⟨_, rfl, h⟩

theorem Full.getMove (h : Full T m) (t : τ) : ∃ r, getMove T m t = some r ∧ Full T r.1 := by
  unfold AnyMap.getMove
  cases hslot : m[T.hash t]? with
  | none => exact ⟨_, rfl, h⟩
  | some slot =>
    obtain ⟨holder, rfl, hk, hpt⟩ := h _ _ hslot
    obtain ⟨v, hv⟩ := Option.isSome_iff_exists.mp hpt
    simp only [Option.bind_some, hv, Option.map_some]
    exact ⟨_, rfl, h.insert ⟨_, rfl, hk, rfl⟩⟩

theorem Full.of_mem_toList (h : Full T m) {pair : UInt64 × Option (Holder τ V)}
    (hpair : pair ∈ m.toList) : FullSlot T pair.1 pair.2 :=
  h pair.1 pair.2 (ExtTreeMap.mem_toList_iff_getElem?_eq_some.mp hpair)

/-- The loops over a map without empty slots, which clone each holder. -/
theorem Full.foldlM {body : AnyMap τ V → UInt64 → Holder τ V → AnyMap τ V}
    (hbody : ∀ data k holder, Full T data → T.hash holder.type = k →
      Full T (body data k holder))
    {l : List (UInt64 × Option (Holder τ V))} (hl : ∀ pair ∈ l, FullSlot T pair.1 pair.2)
    (h : Full T m) :
    ∃ r, l.foldlM (fun data pair => pair.2.map (body data pair.1)) m = some r ∧ Full T r := by
  induction l generalizing m with
  | nil => exact ⟨m, rfl, h⟩
  | cons pair l ih =>
    obtain ⟨hpair, hl⟩ := List.forall_mem_cons.mp hl
    obtain ⟨holder, hslot, hk, -⟩ := hpair
    obtain ⟨r, hr, hfull⟩ := ih hl (hbody m pair.1 holder h hk)
    refine ⟨r, ?_, hfull⟩
    rw [List.foldlM_cons, hslot]
    exact hr

/-- The loops fail exactly if there is an empty slot. -/
theorem isSome_foldlM_iff {body : AnyMap τ V → UInt64 → Holder τ V → AnyMap τ V}
    {l : List (UInt64 × Option (Holder τ V))} :
    Option.isSome (l.foldlM (fun data pair => pair.2.map (body data pair.1)) m) = true ↔
      ∀ pair ∈ l, pair.2.isSome = true := by
  induction l generalizing m with
  | nil => exact iff_of_true rfl nofun
  | cons pair l ih =>
    obtain ⟨k, slot⟩ := pair
    rw [List.foldlM_cons, List.forall_mem_cons]
    cases slot with
    | none => simp
    | some holder => exact ih.trans (and_iff_right rfl).symm

theorem isSome_mergeCopy_iff : (AnyMap.mergeCopy T m rhs).isSome = true ↔ NoNull rhs := by
  unfold AnyMap.mergeCopy NoNull
  rw [isSome_foldlM_iff]
  constructor
  · intro h k slot hslot
    exact h (k, slot) (ExtTreeMap.mem_toList_iff_getElem?_eq_some.mpr hslot)
  · intro h pair hpair
    exact h pair.1 pair.2 (ExtTreeMap.mem_toList_iff_getElem?_eq_some.mp hpair)

theorem Full.copyAssign (h : Full T m) : ∃ r, copyAssign T m = some r ∧ Full T r := by
  refine Full.foldlM (fun data k holder hdata hk => ?_) (fun _ => h.of_mem_toList) full_empty
  unfold copySlot
  cases hclone : clone T holder with
  | none => exact hdata
  | some pt => exact hdata.insertIfNew (fullSlot_clone hk hclone)

theorem Full.mergeCopy (h : Full T m) (hrhs : Full T rhs) :
    ∃ r, mergeCopy T m rhs = some r ∧ Full T r := by
  refine Full.foldlM (fun data k holder hdata hk => ?_) (fun _ => hrhs.of_mem_toList) h
  unfold mergeSlot
  cases hclone : clone T holder with
  | none => exact hdata
  | some pt => exact hdata.insert (fullSlot_clone hk hclone)

theorem Full.mergeMove (h : Full T m) (hrhs : Full T rhs) : Full T (mergeMove m rhs).1 := by
  unfold AnyMap.mergeMove
  have hl : ∀ pair ∈ rhs.toList, FullSlot T pair.1 pair.2 := fun _ => hrhs.of_mem_toList
  generalize rhs.toList = l at hl
  induction l generalizing m with
  | nil => exact h
  | cons pair l ih =>
    obtain ⟨hpair, hl⟩ := List.forall_mem_cons.mp hl
    exact ih (h.insert hpair) hl

/-- **What a merge of an rvalue leaves** has an empty slot, unless it has none at all. -/
theorem full_mergeMove_iff : Full T (AnyMap.mergeMove m rhs).2 ↔ rhs = ∅ := by
  constructor
  · intro h
    by_contra hne
    obtain ⟨⟨k, slot⟩, hfirst⟩ := Option.ne_none_iff_exists'.mp
      (mt SortedMap.first_eq_none_iff.mp hne)
    have hnone : (AnyMap.mergeMove m rhs).2[k]? = some none := by
      unfold AnyMap.mergeMove
      rw [ExtTreeMap.getElem?_map, SortedMap.getElem?_of_first hfirst]
      rfl
    obtain ⟨holder, hslot, -⟩ := h k none hnone
    cases hslot
  · rintro rfl k slot h
    unfold AnyMap.mergeMove at h
    rw [ExtTreeMap.getElem?_map, ExtTreeMap.getElem?_empty] at h
    cases h

end Full

/-! ## Programs -/

/-- The members that change a map; `setPtr` of a pointer that is not null. -/
inductive Member (τ V : Type) where
  | set (t : τ) (v : V)
  | setPtr (t : τ) (v : V)
  | get (t : τ)
  | getMove (t : τ)
  | clear (t : τ)

def Member.run (m : AnyMap τ V) : Member τ V → Option (AnyMap τ V)
  | .set t v => some (AnyMap.set T m t v)
  | .setPtr t v => some (AnyMap.setPtr T m t (some v))
  | .get t => (AnyMap.get T m t).map Prod.fst
  | .getMove t => (AnyMap.getMove T m t).map Prod.fst
  | .clear t => some (AnyMap.clear T m t)

inductive Cmd (τ V : Type) where
  | construct (x : Nat)
  | copyConstruct (x y : Nat)
  | moveConstruct (x y : Nat)
  | copyAssign (x y : Nat)
  | moveAssign (x y : Nat)
  | mergeCopy (x y : Nat)
  | mergeMove (x y : Nat)
  | member (x : Nat) (f : Member τ V)
  | destroy (x : Nat)

/-- The objects that are alive, by name; `Details` objects are `AnyMap` objects. -/
abbrev Store (τ V : Type) := Nat → Option (AnyMap τ V)

/-- A command on an object. One that is not there is left alone. -/
def onOne (s : Store τ V) (x : Nat) (f : AnyMap τ V → Option (Store τ V)) : Option (Store τ V) :=
  match s x with
  | some m => f m
  | none => some s

/-- A command that makes an object. One that is there is left alone. -/
def onNew (s : Store τ V) (x : Nat) (f : Option (Store τ V)) : Option (Store τ V) :=
  match s x with
  | some _ => some s
  | none => f

/-- A command. A `std::map` that has been moved is empty, also if it was to itself. -/
def step (s : Store τ V) : Cmd τ V → Option (Store τ V)
  | .construct x => onNew s x (some (Function.update s x (some ∅)))
  | .copyConstruct x y => onNew s x (onOne s y fun t =>
      (AnyMap.copyAssign T t).map fun m => Function.update s x (some m))
  | .moveConstruct x y => onNew s x (onOne s y fun t =>
      some (Function.update (Function.update s y (some ∅)) x (some t)))
  | .copyAssign x y => onOne s x fun _ => onOne s y fun t =>
      if x = y then some s
      else (AnyMap.copyAssign T t).map fun m => Function.update s x (some m)
  | .moveAssign x y => onOne s x fun _ => onOne s y fun t =>
      some (Function.update (Function.update s x (some t)) y (some ∅))
  | .mergeCopy x y => onOne s x fun m => onOne s y fun rhs =>
      if x = y then some s
      else (AnyMap.mergeCopy T m rhs).map fun m => Function.update s x (some m)
  | .mergeMove x y => onOne s x fun m => onOne s y fun rhs =>
      if x = y then some s
      else some (Function.update (Function.update s x (some (AnyMap.mergeMove m rhs).1)) y
        (some (AnyMap.mergeMove m rhs).2))
  | .member x f => onOne s x fun m => (f.run T m).map fun m => Function.update s x (some m)
  | .destroy x => some (Function.update s x none)

/-- The objects after a program, if it has not failed. -/
def run (cmds : List (Cmd τ V)) : Option (Store τ V) :=
  Trace.final (fun s cmd => s.bind (step T · cmd)) id (some fun _ => none) cmds

/-- No object has an empty slot. -/
def AllFull (s : Store τ V) : Prop := ∀ x m, s x = some m → Full T m

/-- A merge of an rvalue is of a map without keys, or of the object itself. -/
def FindsEmpty (s : Option (Store τ V)) : Cmd τ V → Prop
  | .mergeMove x y => ∀ objects ∈ s, ∀ m ∈ objects x, ∀ rhs ∈ objects y, x = y ∨ rhs = ∅
  | _ => True

section Step

variable {T} {s : Store τ V} {x y : Nat} {m : AnyMap τ V}

theorem AllFull.update (h : AllFull T s) (hm : Full T m) :
    AllFull T (Function.update s x (some m)) :=
  ObjectStore.forall_update h hm

theorem AllFull.destroy (h : AllFull T s) : AllFull T (Function.update s x none) :=
  ObjectStore.forall_update_none h

/-- The command succeeds, and all slots are full after it. -/
def Keeps (T : Types τ V) (r : Option (Store τ V)) : Prop := ∃ s', r = some s' ∧ AllFull T s'

/-- An operation that succeeds. -/
theorem AllFull.exists_update (h : AllFull T s) {op : Option (AnyMap τ V)}
    (hop : ∃ m, op = some m ∧ Full T m) :
    Keeps T (op.map fun m => Function.update s x (some m)) := by
  obtain ⟨m, rfl, hm⟩ := hop
  exact ⟨_, rfl, h.update hm⟩

theorem Full.member (h : Full T m) (f : Member τ V) : ∃ r, f.run T m = some r ∧ Full T r := by
  cases f with
  | set t v => exact ⟨_, rfl, h.insert ⟨_, rfl, rfl, rfl⟩⟩
  | setPtr t v => exact ⟨_, rfl, h.insert ⟨_, rfl, rfl, rfl⟩⟩
  | get t =>
    obtain ⟨r, hr, hfull⟩ := h.get t
    exact ⟨r.1, by rw [Member.run, hr]; rfl, hfull⟩
  | getMove t =>
    obtain ⟨r, hr, hfull⟩ := h.getMove t
    exact ⟨r.1, by rw [Member.run, hr]; rfl, hfull⟩
  | clear t => exact ⟨_, rfl, h.erase⟩

theorem AllFull.onOne (h : AllFull T s) {f : AnyMap τ V → Option (Store τ V)}
    (hf : ∀ m, s x = some m → Keeps T (f m)) : Keeps T (onOne s x f) := by
  unfold AnyMap.onOne
  cases hx : s x with
  | none => exact ⟨s, rfl, h⟩
  | some m => exact hf m hx

theorem AllFull.onNew (h : AllFull T s) {f : Option (Store τ V)} (hf : Keeps T f) :
    Keeps T (onNew s x f) := by
  unfold AnyMap.onNew
  cases s x with
  | none => exact hf
  | some m => exact ⟨s, rfl, h⟩

/-- An assignment or a merge of the object itself does nothing. -/
theorem AllFull.unless_self (h : AllFull T s) {r : Option (Store τ V)} (hr : Keeps T r) :
    Keeps T (if x = y then some s else r) := by
  by_cases hxy : x = y
  · rw [if_pos hxy]
    exact ⟨s, rfl, h⟩
  · rwa [if_neg hxy]

/-- Every command but a merge of an rvalue keeps all slots full. -/
theorem AllFull.step (h : AllFull T s) {cmd : Cmd τ V} (hcmd : ∀ x y, cmd ≠ .mergeMove x y) :
    Keeps T (step T s cmd) := by
  cases cmd with
  | construct x => exact h.onNew ⟨_, rfl, h.update full_empty⟩
  | copyConstruct x y =>
    exact h.onNew (h.onOne fun t hy => h.exists_update (h y t hy).copyAssign)
  | moveConstruct x y =>
    exact h.onNew (h.onOne fun t hy => ⟨_, rfl, (h.update full_empty).update (h y t hy)⟩)
  | copyAssign x y =>
    refine h.onOne fun _ _ => h.onOne fun t hy => ?_
    exact h.unless_self (h.exists_update (h y t hy).copyAssign)
  | moveAssign x y =>
    refine h.onOne fun _ _ => h.onOne fun t hy => ?_
    exact ⟨_, rfl, (h.update (h y t hy)).update full_empty⟩
  | mergeCopy x y =>
    refine h.onOne fun m hx => h.onOne fun rhs hy => ?_
    exact h.unless_self (h.exists_update ((h x m hx).mergeCopy (h y rhs hy)))
  | mergeMove x y => exact absurd rfl (hcmd x y)
  | member x f => exact h.onOne fun m hx => h.exists_update ((h x m hx).member f)
  | destroy x => exact ⟨_, rfl, h.destroy⟩

/-- **A merge of an rvalue** keeps them full exactly if the other map has no keys. -/
theorem AllFull.mergeMove_iff (h : AllFull T s) (x y : Nat) :
    Keeps T (AnyMap.step T s (.mergeMove x y)) ↔
      FindsEmpty (some s) (Cmd.mergeMove x y : Cmd τ V) := by
  constructor
  · rintro ⟨s', hs', hfull⟩ _ ⟨⟩ m hx rhs hy
    by_cases hxy : x = y
    · exact .inl hxy
    · refine .inr ((full_mergeMove_iff (T := T) (m := m)).mp (hfull y _ ?_))
      simp only [AnyMap.step, AnyMap.onOne, Option.mem_def.mp hx, Option.mem_def.mp hy, if_neg hxy,
        Option.some.injEq] at hs'
      rw [← hs', Function.update_self]
  · intro hcond
    refine h.onOne fun m hx => h.onOne fun rhs hy => ?_
    by_cases hxy : x = y
    · rw [if_pos hxy]
      exact ⟨s, rfl, h⟩
    · rw [if_neg hxy]
      have hempty : rhs = ∅ := (hcond s rfl m hx rhs hy).resolve_left hxy
      exact ⟨_, rfl, (h.update ((h x m hx).mergeMove (h y rhs hy))).update
        (full_mergeMove_iff.mpr hempty)⟩

theorem allFull_step_iff (h : AllFull T s) (cmd : Cmd τ V) :
    Keeps T (AnyMap.step T s cmd) ↔ FindsEmpty (some s) cmd := by
  by_cases hcmd : ∃ x y, cmd = .mergeMove x y
  · obtain ⟨x, y, rfl⟩ := hcmd
    exact h.mergeMove_iff x y
  · have hnot : ∀ x y, cmd ≠ .mergeMove x y := fun x y heq => hcmd ⟨x, y, heq⟩
    refine iff_of_true (h.step hnot) ?_
    cases cmd with
    | mergeMove x y => exact absurd rfl (hnot x y)
    | _ => trivial

end Step

/-- **When no map ever has an empty slot**, and no operation fails. -/
theorem allFull_iff (cmds : List (Cmd τ V)) :
    (∀ l, l <+: cmds → Keeps T (run T l)) ↔
      Trace.Along (fun s cmd => s.bind (step T · cmd)) id FindsEmpty (some fun _ => none) cmds := by
  refine Trace.invariant_iff_along (Keeps T) ?_ ⟨_, rfl, fun _ _ hnone => by cases hnone⟩ cmds
  rintro _ cmd ⟨objects, rfl, h⟩
  exact allFull_step_iff h cmd

/-- Numbers. -/
def numbers : Types Unit Nat where
  hash _ := 1
  copyable _ := true
  make _ := 0
  copy := id
  moved := id

/-- Two objects, and a number in the second that is merged into the first. -/
def mergeOut : List (Cmd Unit Nat) :=
  [.construct 0, .construct 1, .member 1 (.set () 7), .mergeMove 0 1]

/-- The second object is left with an empty slot, and the next use of it fails. -/
theorem mergeOut_not_full :
    ¬ Keeps numbers (run numbers mergeOut) ∧
      run numbers (mergeOut ++ [.member 1 (.get ())]) = none ∧
      run numbers (mergeOut ++ [.copyConstruct 2 1]) = none ∧
      run numbers (mergeOut ++ [.mergeCopy 0 1]) = none := by
  refine ⟨?_, rfl, rfl, rfl⟩
  rintro ⟨s, hs, hfull⟩
  have hslot : ((run numbers mergeOut).bind fun s => (s 1).bind fun m => m[(1 : UInt64)]?) =
      some none := rfl
  rw [hs, Option.bind_some] at hslot
  obtain ⟨m, hm, hnone⟩ := Option.bind_eq_some_iff.mp hslot
  obtain ⟨holder, hholder, -⟩ := hfull 1 m hm 1 none hnone
  cases hholder

end AnyMap

end Fluffycoin
