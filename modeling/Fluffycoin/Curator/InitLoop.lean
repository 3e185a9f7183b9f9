import Fluffycoin.Block.Der
import Fluffycoin.Curator.DbIntegrator
import Fluffycoin.Db.Result

/-!
# The row loop of `init`

`DbIntegrator.init` takes the rows its loop gets to see as a parameter and reads their columns as
integers. This module runs the loop (`DbIntegrator.cpp:46-70`) on the result of the query, with the
cursor and the accessors of `Fluffycoin.Db.Result`.

* `column_of_row`: the accessor reads the three integer columns of a row as `columnUInt32` does. An
  `INT` is an `int4`, of which `Int64` does not extend the sign, and `UInt32` gives back its 32
  bits.
* `initLoop_never_ends`: once the table has a row, the loop does not end. The cursor stays on the
  first row, which never mismatches itself. So a process that starts on tables with imported blocks
  does not get past `init`; the results about `init` on such tables say what it would make of the
  rows if its loop saw them.
-/

namespace Fluffycoin

open Std (ExtTreeMap)
open Fluffycoin.Ossl Db

namespace DbIntegrator

variable (o : OpenSsl) (atoll : Bytes → Int)

/-- The result of the query of `init` (`DbIntegrator.cpp:25-27`). -/
def selectResult (rows : List ImportedBlock) : PgResult where
  ntuples := rows.length
  nfields := 4
  ftype col := if col < 3 then .int4 else .other
  value i col := (rows[i]?).map fun row =>
    match col with
    | 0 => IntType.int4.send row.reconciliation
    | 1 => IntType.int4.send row.shard
    | 2 => IntType.int4.send row.block
    | _ => row.hash

/-- A column read by `UInt32`. -/
def column (c : ResultCol) : UInt32 := UInt32.ofInt ((c.uInt32 atoll).getD 0)

/-- The loop of `init`, for at most `fuel` iterations; `none` if it has not ended by then. The flag
is false when it stopped at a mismatch. -/
def initLoop (result : DataResult) :
    Nat → Bool → DbIntegrator → Details → Option (DbIntegrator × Details × Bool)
  | 0, _, _, _ => none
  | fuel + 1, first, s, details =>
    if !result.next.toBool then some (s, details, true)
    else
      let row := result.cur
      let lastRecon := column atoll (row.get 0)
      if !first && s.currentRecon != lastRecon then
        some (s, details.setError .argumentInvalid "dbintegrate_init"
          (s!"Database state mismatches current reconciliation block " ++
            s!"({s.currentRecon} vs {lastRecon})."), false)
      else
        let s := if first then { s with currentRecon := lastRecon } else s
        let shard := column atoll (row.get 1)
        let info := (s.lastImports[shard]?).getD {}
        let info : ShardInfo :=
          { block := column atoll (row.get 2)
            hash := (decodeHash o (row.get 3).data).getD info.hash }
        initLoop result fuel false { s with lastImports := s.lastImports.insert shard info } details

/-! ## The columns -/

theorem fits_of_isInt {v : Int} (h : isInt v = true) : IntType.int4.Fits v := by
  unfold isInt at h
  rw [Bool.and_eq_true, decide_eq_true_eq, decide_eq_true_eq] at h
  obtain ⟨hlow, hhigh⟩ := h
  constructor <;> simp only [IntType.card] <;> omega

/-- `UInt32` gives the 32 bits of an `INT`. -/
theorem column_of_holds {c : ResultCol} {v : Int} (h : Holds c .int4 v) :
    column atoll c = columnUInt32 v := by
  have hread := int64_of_holds atoll h
  have hclamp : (c.uInt32 atoll).getD 0 = v % 4294967296 := by
    simp only [ResultCol.uInt32, hread, Option.map_some, Option.getD_some, IntType.read]
    split_ifs <;> omega
  have hmod : v % 4294967296 % 2 ^ 32 = v % 2 ^ 32 := Int.emod_emod_of_dvd v ⟨1, rfl⟩
  unfold column columnUInt32 UInt32.ofInt
  rw [hclamp, hmod]

/-- The accessors read a row of the table as `readRows` does. -/
theorem column_of_row {rows : List ImportedBlock} {i : Nat} {row : ImportedBlock}
    (hrow : rows[i]? = some row) (hrecon : isInt row.reconciliation = true)
    (hshard : isInt row.shard = true) (hblock : isInt row.block = true) :
    let r : ResultRow := { result := some (selectResult rows), curRow := i }
    column atoll (r.get 0) = columnUInt32 row.reconciliation ∧
      column atoll (r.get 1) = columnUInt32 row.shard ∧
      column atoll (r.get 2) = columnUInt32 row.block ∧ (r.get 3).data = row.hash := by
  intro r
  have hlt : i < rows.length := (List.getElem?_eq_some_iff.mp hrow).1
  have hcell : ∀ col < 4, ∀ psz, psz ≠ [] → (selectResult rows).value i col = some psz →
      (r.get col).cell = some (if col < 3 then .int4 else .other, psz) := by
    intro col hcol psz hne hvalue
    have hin : ¬ ((selectResult rows).ntuples ≤ i ∨ (selectResult rows).nfields ≤ col) := by
      rw [not_or]
      exact ⟨Nat.not_le.mpr hlt, Nat.not_le.mpr hcol⟩
    simp [ResultCol.cell, ResultRow.get, r, hin, hvalue, hne]
    rfl
  have hint : ∀ col < 3, ∀ v, isInt v = true →
      (selectResult rows).value i col = some (IntType.int4.send v) →
      column atoll (r.get col) = columnUInt32 v := by
    intro col hcol v hv hvalue
    refine column_of_holds atoll ⟨fits_of_isInt hv, ?_⟩
    rw [hcell col (by omega) _ (IntType.send_ne_nil _ v) hvalue, if_pos hcol]
    rfl
  refine ⟨hint 0 (by decide) _ hrecon (by simp [selectResult, hrow]),
    hint 1 (by decide) _ hshard (by simp [selectResult, hrow]),
    hint 2 (by decide) _ hblock (by simp [selectResult, hrow]), ?_⟩
  have hvalue : (selectResult rows).value i 3 = some row.hash := by simp [selectResult, hrow]
  by_cases hempty : row.hash = []
  · -- an empty value counts as none
    rw [hempty] at hvalue ⊢
    simp [ResultCol.data, ResultCol.cell, ResultRow.get, r, hvalue]
  · rw [ResultCol.data, hcell 3 (by decide) _ hempty hvalue]

/-! ## The loop -/

/-- From the second iteration on the cached number is the one of the row the cursor is on. -/
theorem initLoop_of_pos {result : PgResult} (hpos : 0 < result.ntuples) :
    ∀ (fuel : Nat) (first : Bool) (s : DbIntegrator) (details : Details),
      (first = true ∨
        s.currentRecon = column atoll ((DataResult.ofResult result).cur.get 0)) →
      initLoop o atoll (DataResult.ofResult result) fuel first s details = none
  | 0, _, _, _, _ => rfl
  | fuel + 1, first, s, details, h => by
    have hmatch : (!first && s.currentRecon !=
        column atoll ((DataResult.ofResult result).cur.get 0)) = false := by
      rcases h with h | h
      · rw [h]
        rfl
      · rw [h, bne_self_eq_false, Bool.and_false]
    rw [initLoop, DataResult.toBool_next, decide_eq_true hpos]
    simp only [Bool.not_true, Bool.false_eq_true, if_false, hmatch]
    apply initLoop_of_pos hpos fuel
    right
    rcases h with rfl | h
    · rfl
    · cases first
      · exact h
      · rfl

/-- **The loop of `init` does not end** on a table with rows. -/
theorem initLoop_never_ends {rows : List ImportedBlock} (h : rows ≠ []) (s : DbIntegrator)
    (details : Details) (fuel : Nat) :
    initLoop o atoll (DataResult.ofResult (selectResult rows)) fuel true s details = none :=
  initLoop_of_pos o atoll (List.length_pos_of_ne_nil h) fuel true s details (.inl rfl)

/-- The row that a genesis block leaves. -/
theorem initLoop_never_ends_oneRow :
    initLoop (der id id) (fun _ => 0)
        (DataResult.ofResult (selectResult [⟨0, 0, 0, List.replicate 65 1⟩])) 1000 true {} {} =
      none :=
  initLoop_never_ends (der id id) (fun _ => 0) (List.cons_ne_nil _ _) {} {} 1000

end DbIntegrator

end Fluffycoin
