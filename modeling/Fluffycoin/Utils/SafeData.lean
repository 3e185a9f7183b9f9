import Fluffycoin.Utils.BinData
import Fluffycoin.Utils.ObjectStore

/-!
# `SafeData`

Model of `src/utils/SafeData.cpp`: a `BinData` whose memory is overwritten before it is freed. The
flag for that, `bSecure`, is a member of the base class. Every constructor sets it
(`BinData(true)`), and those that take another object then call the assignment of the base class
(lines 25, 31, 49, 55), as the assignments do. That assignment copies the flag of the other object
(`BinData.cpp:67,83`).

A program is a sequence of commands on named objects of the two classes. `allSecure_iff`: all its
`SafeData` objects have the flag set, all the time, exactly if no `SafeData` object is constructed
from or assigned a `BinData` object that has not.
-/

namespace Fluffycoin.SafeData

open BinData (Given)

/-- The class of an object. -/
inductive Class where
  | binData
  | safeData
  deriving DecidableEq, Repr

/-- The flag a constructor starts with. -/
def Class.bSecure : Class → Bool
  | .binData => false
  | .safeData => true

structure Object where
  cls : Class
  data : BinData

/-- The objects that are alive, by name. -/
abbrev Store := Nat → Option Object

/-- The members that change an object. -/
inductive Member where
  | resize (len : Nat)
  | setData (data : Option Bytes)
  | setBuffer (given : Given)
  | append (data : Option Bytes)
  | prepend (data : Option Bytes)
  | truncateFront (bytes : Nat)
  | clear

def Member.apply (d : BinData) : Member → BinData
  | .resize len => (d.resize len).1
  | .setData data => (d.setData data).1
  | .setBuffer given => (d.setBuffer given).1
  | .append data => (d.append data).1
  | .prepend data => (d.prepend data).1
  | .truncateFront bytes => d.truncateFront bytes
  | .clear => d.cleanup.1

/-- The two forms of constructors and assignments from another object. -/
inductive How where
  | copy
  | move
  deriving DecidableEq, Repr

/-- The assignment of the base class. -/
def How.assign (d rhs : BinData) : How → BinData
  | .copy => (d.assignCopy rhs).1
  | .move => (d.assignMove rhs).1

/-- What it leaves of the other object. -/
def How.leave (rhs : BinData) : How → BinData
  | .copy => rhs
  | .move => rhs.movedFrom

inductive Cmd where
  /-- The constructors from nothing or from bytes. -/
  | construct (x : Nat) (cls : Class) (data : Option Bytes)
  | constructFrom (how : How) (x : Nat) (cls : Class) (y : Nat)
  | assign (how : How) (x y : Nat)
  /-- A `BinData` object from `sub`. -/
  | sub (x y pos len : Nat)
  | member (x : Nat) (m : Member)
  | destroy (x : Nat)

/-- A command. One that names an object that is not there, or constructs one that is, does
nothing. -/
def step (s : Store) : Cmd → Store
  | .construct x cls data =>
    match s x with
    | some _ => s
    | none => Function.update s x (some ⟨cls, ((BinData.new cls.bSecure).setData data).1⟩)
  | .constructFrom how x cls y =>
    match s x, s y with
    | none, some src =>
      Function.update (Function.update s y (some { src with data := how.leave src.data })) x
        (some ⟨cls, how.assign (BinData.new cls.bSecure) src.data⟩)
    | _, _ => s
  | .assign how x y =>
    match s x, s y with
    | some dst, some src =>
      -- `this != &rhs`
      if x = y then s
      else Function.update (Function.update s y (some { src with data := how.leave src.data })) x
        (some { dst with data := how.assign dst.data src.data })
    | _, _ => s
  | .sub x y pos len =>
    match s x, s y with
    | none, some src => Function.update s x (some ⟨.binData, src.data.sub pos len⟩)
    | _, _ => s
  | .member x m =>
    match s x with
    | some obj => Function.update s x (some { obj with data := m.apply obj.data })
    | none => s
  | .destroy x => Function.update s x none

/-- The store after a program. -/
def run (cmds : List Cmd) : Store := Trace.final step id (fun _ => none) cmds

/-- Every `SafeData` object has its flag set. -/
def AllSecure (s : Store) : Prop :=
  ∀ x obj, s x = some obj → obj.cls = .safeData → obj.data.bSecure = true

/-- The `BinData` object a command constructs a `SafeData` object from, or assigns to one. -/
def source (s : Store) : Cmd → Option Object
  | .constructFrom _ x .safeData y =>
    if (s x).isNone then (s y).filter (·.cls = .binData) else none
  | .assign _ x y =>
    if (s x).any (·.cls = .safeData) then (s y).filter (·.cls = .binData) else none
  | _ => none

/-- That object has its flag set. -/
def SecureSource (s : Store) (cmd : Cmd) : Prop :=
  ∀ src ∈ source s cmd, src.data.bSecure = true

/-! ## One command -/

theorem bSecure_setData (d : BinData) (data : Option Bytes) :
    (d.setData data).1.bSecure = d.bSecure := by
  unfold BinData.setData
  split <;> rfl

/-- No member changes the flag. -/
theorem bSecure_apply (d : BinData) (m : Member) : (m.apply d).bSecure = d.bSecure := by
  cases m with
  | resize len =>
    show (d.resize len).1.bSecure = d.bSecure
    unfold BinData.resize
    by_cases hlen : d.len = len
    · simp only [hlen, if_true]
    · simp only [hlen, if_false]
      cases d.buffer with
      | none => rfl
      | some block =>
        by_cases hsecure : (!d.bSecure) = true <;> by_cases hzero : len = 0 <;>
          simp [hsecure, hzero, BinData.new, BinData.ofBlock]
  | setData data => exact bSecure_setData d data
  | setBuffer given =>
    show (d.setBuffer given).1.bSecure = d.bSecure
    unfold BinData.setBuffer
    split_ifs
    · rfl
    · split <;> rfl
  | append data =>
    show (d.append data).1.bSecure = d.bSecure
    unfold BinData.append
    split <;> rfl
  | prepend data =>
    show (d.prepend data).1.bSecure = d.bSecure
    unfold BinData.prepend
    split <;> rfl
  | truncateFront bytes => exact BinData.bSecure_truncateFront d bytes
  | clear => rfl

section Secure

variable {s : Store}

/-- Another object under a name. -/
theorem AllSecure.update_iff (h : AllSecure s) (x : Nat) (obj : Object) :
    AllSecure (Function.update s x (some obj)) ↔
      (obj.cls = .safeData → obj.data.bSecure = true) := by
  constructor
  · intro hupdate
    exact hupdate x obj (Function.update_self _ _ _)
  · intro hobj
    exact ObjectStore.forall_update h hobj

theorem How.bSecure_assign (how : How) (d rhs : BinData) :
    (how.assign d rhs).bSecure = rhs.bSecure := by
  cases how <;> rfl

theorem How.bSecure_leave (how : How) (rhs : BinData) : (how.leave rhs).bSecure = rhs.bSecure := by
  cases how <;> rfl

theorem AllSecure.leave (h : AllSecure s) {y : Nat} {src : Object} (hy : s y = some src)
    (how : How) :
    AllSecure (Function.update s y (some { src with data := how.leave src.data })) := by
  refine (h.update_iff y _).mpr fun hcls => ?_
  rw [How.bSecure_leave]
  exact h y src hy hcls

theorem AllSecure.destroy (h : AllSecure s) (x : Nat) : AllSecure (Function.update s x none) :=
  ObjectStore.forall_update_none h

/-- The flag a `SafeData` object takes over matters only if it is that of a `BinData` object. -/
theorem AllSecure.source_iff (h : AllSecure s) {y : Nat} {src : Object} (hy : s y = some src) :
    src.data.bSecure = true ↔
      ∀ obj ∈ (s y).filter (·.cls = .binData), obj.data.bSecure = true := by
  rw [hy]
  cases hcls : src.cls with
  | binData => simp [Option.filter, hcls]
  | safeData => simp [Option.filter, hcls, h y src hy hcls]

theorem AllSecure.construct (h : AllSecure s) (x : Nat) (cls : Class) (data : Option Bytes) :
    AllSecure (step s (.construct x cls data)) := by
  cases hx : s x with
  | some _ =>
    simp only [step, hx]
    exact h
  | none =>
    simp only [step, hx]
    refine (h.update_iff x _).mpr fun hcls => ?_
    rw [bSecure_setData]
    cases hcls
    rfl

theorem AllSecure.constructFrom_iff (h : AllSecure s) (how : How) (x : Nat) (cls : Class)
    (y : Nat) :
    AllSecure (step s (.constructFrom how x cls y)) ↔
      SecureSource s (.constructFrom how x cls y) := by
  cases hx : s x with
  | some _ =>
    simp only [step, hx]
    refine iff_of_true h ?_
    cases cls <;> simp [SecureSource, source, hx]
  | none =>
    cases hy : s y with
    | none =>
      simp only [step, hx, hy]
      refine iff_of_true h ?_
      cases cls <;> simp [SecureSource, source, hy]
    | some src =>
      simp only [step, hx, hy]
      rw [(h.leave hy how).update_iff, How.bSecure_assign]
      cases cls with
      | binData => exact iff_of_true (fun hcls => by cases hcls) fun obj hobj => by cases hobj
      | safeData =>
        simp only [SecureSource, source, hx, Option.isNone_none, if_true, forall_const]
        exact h.source_iff hy

theorem AllSecure.assign_iff (h : AllSecure s) (how : How) (x y : Nat) :
    AllSecure (step s (.assign how x y)) ↔ SecureSource s (.assign how x y) := by
  cases hx : s x with
  | none =>
    simp only [step, hx]
    exact iff_of_true h (by simp [SecureSource, source, hx])
  | some dst =>
    cases hy : s y with
    | none =>
      simp only [step, hx, hy]
      exact iff_of_true h (by simp [SecureSource, source, hy])
    | some src =>
      have hsource : SecureSource s (.assign how x y) ↔
          (dst.cls = .safeData → src.data.bSecure = true) := by
        rw [h.source_iff hy]
        cases hcls : dst.cls <;> simp [SecureSource, source, hx, hcls]
      simp only [step, hx, hy, hsource]
      by_cases hxy : x = y
      · -- the object itself: `src` is `dst`
        obtain rfl : dst = src := by
          rw [hxy, hy] at hx
          exact (Option.some.inj hx).symm
        rw [if_pos hxy]
        exact iff_of_true h (h x dst hx)
      · rw [if_neg hxy, (h.leave hy how).update_iff, How.bSecure_assign]

theorem AllSecure.sub (h : AllSecure s) (x y pos len : Nat) :
    AllSecure (step s (.sub x y pos len)) := by
  cases hx : s x with
  | some _ =>
    simp only [step, hx]
    exact h
  | none =>
    cases hy : s y with
    | none =>
      simp only [step, hx, hy]
      exact h
    | some src =>
      simp only [step, hx, hy]
      exact (h.update_iff x _).mpr fun hcls => by cases hcls

theorem AllSecure.member (h : AllSecure s) (x : Nat) (m : Member) :
    AllSecure (step s (.member x m)) := by
  cases hx : s x with
  | none =>
    simp only [step, hx]
    exact h
  | some obj =>
    simp only [step, hx]
    refine (h.update_iff x _).mpr fun hcls => ?_
    rw [bSecure_apply]
    exact h x obj hx hcls

/-- **A command keeps all flags set exactly if its source has.** -/
theorem allSecure_step_iff (h : AllSecure s) (cmd : Cmd) :
    AllSecure (step s cmd) ↔ SecureSource s cmd := by
  -- only two commands have a source
  have hnone : source s cmd = none → SecureSource s cmd := by
    intro hsource src hsrc
    rw [hsource] at hsrc
    cases hsrc
  cases cmd with
  | construct x cls data => exact iff_of_true (h.construct x cls data) (hnone rfl)
  | constructFrom how x cls y => exact h.constructFrom_iff how x cls y
  | assign how x y => exact h.assign_iff how x y
  | sub x y pos len => exact iff_of_true (h.sub x y pos len) (hnone rfl)
  | member x m => exact iff_of_true (h.member x m) (hnone rfl)
  | destroy x => exact iff_of_true (h.destroy x) (hnone rfl)

end Secure

/-- **When every `SafeData` object is secure**, at every moment of a program. -/
theorem allSecure_iff (cmds : List Cmd) :
    (∀ l, l <+: cmds → AllSecure (run l)) ↔
      Trace.Along step id SecureSource (fun _ => none) cmds :=
  Trace.invariant_iff_along AllSecure (fun s cmd h => allSecure_step_iff h cmd)
    (fun _ _ hnone => by cases hnone) cmds

/-- `decrypt` (`Wallet.cpp:28`): what Base64 decodes to, moved into a `SafeData` object. -/
def decodedKey (key : Bytes) : List Cmd :=
  [.construct 0 .binData (some key), .constructFrom .move 1 .safeData 0]

/-- The key bytes of a wallet are not secure. -/
theorem decodedKey_not_secure :
    run (decodedKey [1, 2]) 1 = some ⟨.safeData, BinData.ofBlock false [1, 2]⟩ ∧
      ¬ AllSecure (run (decodedKey [1, 2])) := by
  have hrun : run (decodedKey [1, 2]) 1 = some ⟨.safeData, BinData.ofBlock false [1, 2]⟩ := rfl
  refine ⟨hrun, fun h => ?_⟩
  exact absurd (h 1 _ hrun rfl) (by decide)

end Fluffycoin.SafeData
