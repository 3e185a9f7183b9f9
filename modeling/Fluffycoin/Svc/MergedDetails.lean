import Fluffycoin.Async.UncontrolledSocket
import Fluffycoin.Utils.AnyMap

/-!
# Merged details

`Details` with the `AnyMap` it is derived from, and `operator+=`, which it inherits from that class
(`src/utils/Details.h:19`, `src/utils/AnyMap.cpp:25-49`) and which knows nothing of the error
status. The error of the right-hand side is lost, if the left-hand side has none.

The callers are `RequestScene::operator+=` (`src/svc/api/RequestScene.cpp:42-45`), and
`UncontrolledSocket::read` (`src/async/UncontrolledSocket.cpp:145,158`), which merges the pending
details into those of its caller.

`merge_keepsErrors_iff`: errors are kept exactly if the right-hand side is ok or the left-hand side
is not; the merge of an lvalue also needs a right-hand side without empty slots, as it fails
otherwise. A merge of an object with itself does nothing and loses nothing.
-/

namespace Fluffycoin

/-- `Details`, with the things that are attached to it. -/
structure WholeDetails (τ V : Type) where
  data : AnyMap τ V := ∅
  details : Details := {}

namespace WholeDetails

variable {τ V : Type} (T : Types τ V)

/-- `Details::isOk`. -/
def isOk (d : WholeDetails τ V) : Bool := d.details.isOk

/-- `Details::error`. -/
def error (d : WholeDetails τ V) : ErrorStatus := d.details.errorStatus

/-- `operator+=` of an rvalue, and what it leaves of that. -/
def plusMove (d rhs : WholeDetails τ V) : WholeDetails τ V × WholeDetails τ V :=
  ({ d with data := (d.data.mergeMove rhs.data).1 },
    { rhs with data := (d.data.mergeMove rhs.data).2 })

/-- `operator+=` of an lvalue. -/
def plusCopy (d rhs : WholeDetails τ V) : Option (WholeDetails τ V) :=
  (AnyMap.mergeCopy T d.data rhs.data).map fun data => { d with data }

end WholeDetails

/-- `RequestScene`, as far as its details. -/
structure Scene (τ V : Type) where
  deets : WholeDetails τ V

namespace Scene

variable {τ V : Type}

/-- `RequestScene::isOk`. -/
def isOk (scene : Scene τ V) : Bool := scene.deets.isOk

/-- `RequestScene::operator+=`. -/
def plusAssign (scene : Scene τ V) (details : WholeDetails τ V) : Scene τ V × WholeDetails τ V :=
  (⟨(scene.deets.plusMove details).1⟩, (scene.deets.plusMove details).2)

end Scene

namespace WholeDetails

variable {τ V κ : Type} (T : Types τ V) (a b : WholeDetails τ V)

/-- `r` has no error only if neither had, and if one had, it is that. -/
structure KeepsErrors (r : WholeDetails τ V) : Prop where
  ok : r.isOk = true → a.isOk = true ∧ b.isOk = true
  left : a.isOk = false → b.isOk = true → r.error = a.error
  right : a.isOk = true → b.isOk = false → r.error = b.error

/-- `UncontrolledSocket::read`, called with `a` while `b` is pending, reports the error of `b`. -/
def Reports (κ : Type) : Prop :=
  ∀ (s : Async.UncontrolledSocket κ) (callback : κ) (details : Details),
    s.pendingDetails = b.details → s.wantRead = true →
    (s.read a.details callback).1 = some details → b.isOk = false → details.isOk = false

/-- No error is lost when `b` is merged into `a`, nor by the callers. -/
structure Merge (κ : Type) : Prop where
  move : KeepsErrors a b (a.plusMove b).1
  copy : ∃ r, a.plusCopy T b = some r ∧ KeepsErrors a b r
  scene : b.isOk = false → ((Scene.mk a).plusAssign b).1.isOk = false
  read : Reports a b κ

section Merge

variable {a b}

/-- The error status is that of the left-hand side. -/
theorem keepsErrors_iff {r : WholeDetails τ V} (hr : r.details = a.details) :
    KeepsErrors a b r ↔ (a.isOk = true → b.isOk = true) := by
  have hok : r.isOk = a.isOk := by rw [isOk, hr, isOk]
  have herror : r.error = a.error := by rw [error, hr, error]
  constructor
  · intro h ha
    exact (h.ok (hok.trans ha)).2
  · intro h
    refine ⟨fun hrok => ?_, fun _ _ => herror, fun ha hb => ?_⟩
    · have ha := hok.symm.trans hrok
      exact ⟨ha, h ha⟩
    · rw [h ha] at hb
      cases hb

theorem isSome_plusCopy_iff : (a.plusCopy T b).isSome = true ↔ AnyMap.NoNull b.data := by
  unfold plusCopy
  rw [Option.isSome_map, AnyMap.isSome_mergeCopy_iff]

/-- What `read` calls back with has an error, if what it is called with has. -/
theorem isOk_read {s : Async.UncontrolledSocket κ} {details details' : Details} {callback : κ}
    (h : (s.read details callback).1 = some details') (hd : details.isOk = false) :
    details'.isOk = false := by
  unfold Async.UncontrolledSocket.read at h
  split_ifs at h
  · cases h
    exact hd
  · cases h
    exact hd
  · cases h
    rfl

theorem reports_of_imp (h : a.isOk = true → b.isOk = true) : Reports a b κ := by
  intro s callback details _ _ hread hb
  refine isOk_read hread ?_
  by_contra ha
  have hbok := h (Bool.not_eq_false _ ▸ ha)
  rw [hbok] at hb
  cases hb

end Merge

/-- **When a merge keeps errors**, with all its callers. -/
theorem merge_keepsErrors_iff (κ : Type) :
    Merge T a b κ ↔ AnyMap.NoNull b.data ∧ (a.isOk = true → b.isOk = true) := by
  have hmove : (a.plusMove b).1.details = a.details := rfl
  constructor
  · intro h
    obtain ⟨r, hr, -⟩ := h.copy
    refine ⟨(isSome_plusCopy_iff T).mp (by rw [hr]; rfl), ?_⟩
    exact (keepsErrors_iff hmove).mp h.move
  · rintro ⟨hnull, himp⟩
    obtain ⟨r, hr⟩ := Option.isSome_iff_exists.mp ((isSome_plusCopy_iff T).mpr hnull)
    have hdetails : r.details = a.details := by
      obtain ⟨data, -, rfl⟩ := Option.map_eq_some_iff.mp hr
      rfl
    refine ⟨(keepsErrors_iff hmove).mpr himp, ⟨r, hr, (keepsErrors_iff hdetails).mpr himp⟩, ?_,
      reports_of_imp himp⟩
    intro hb
    show a.isOk = false
    by_contra ha
    rw [himp (by simpa using ha)] at hb
    cases hb

/-- Details that tell of an error. -/
def failed : WholeDetails Unit Nat :=
  { details := Details.setError {} .databaseError "block" "Failed to save block." }

/-- The error is lost in every merge into details without one: the scene stays ok, and so does what
a socket calls back with. -/
theorem failed_is_lost :
    failed.isOk = false ∧ (plusMove {} failed).1.isOk = true ∧
      ((plusCopy AnyMap.numbers {} failed).map isOk) = some true ∧
      ((Scene.mk {}).plusAssign failed).1.isOk = true ∧
      ((Async.UncontrolledSocket.read
        { isOpen := true, wantRead := true, pendingDetails := failed.details } {} ()).1.map
          Details.isOk) = some true :=
  ⟨rfl, rfl, rfl, rfl, rfl⟩

end WholeDetails

end Fluffycoin
