import Fluffycoin.Ossl.Convert
import Fluffycoin.Utils.ByteOrder
import Mathlib.Tactic.NormNum

/-!
# Results of a query

Model of `src/db/priv/ResultImpl.cpp` and `src/db/result/DataResult.cpp`: the rows of a result, its
cursor and its integer columns.

* `PgResult` is what `libpq` says of a result: its size, the types of its columns and its values, in
  the binary format. The host is little-endian, so an integer that is copied from a value has its
  bytes in the other order (`ByteOrder`).
* An accessor is `none` where it copies more bytes than the value has. `boolean` and `null`, which
  nothing calls, are left out. So is `str`, which only they and `Int64` of a text column call: there
  `from_string` comes down to `atoll` of the C library, which is a parameter.
* `DataResult` holds a `ResultImpl`, and this a `ResultRow` with the position of the cursor. The
  cursor starts on row 0. It would be `ResultImpl::next` that moves it, which nothing calls:
  `DataResult::next` answers with the current row (`DataResult.cpp:55-58`).

`visitsAll_iff`: so the loop over the rows of a result ends only if there are none; otherwise every
iteration sees row 0 (`visit_of_pos`). With `ResultImpl::next` it would end but miss row 0, as the
cursor is moved before the row is used (`visitAdvancing_eq`). `readsBack_iff` says which integers
the accessors read back: `Int64` takes one byte of an `int2` and does not extend the sign of an
`int4`.
-/

namespace Fluffycoin.Db

open ByteOrder

/-! ## Columns -/

/-- The types of `pg_type_d.h` that `ResultCol` tells apart. -/
inductive Oid where
  | bool | char | int8 | int2 | int4 | text | varchar | other
  deriving DecidableEq, Repr

/-- A `PGresult`: `PQntuples`, `PQnfields`, `PQftype` and the values, `none` for a `NULL`. -/
structure PgResult where
  ntuples : Nat
  nfields : Nat
  ftype : Nat → Oid
  value : Nat → Nat → Option Bytes

/-- `ResultCol`. -/
structure ResultCol where
  result : Option PgResult
  row : Nat := 0
  col : Nat := 0

/-- `ntohll` (`ResultImpl.cpp:20-38`). -/
def ntohll (value : UInt64) : UInt64 :=
  ((value &&& 0xFF00000000000000) >>> 56) |||
    ((value &&& 0x00FF000000000000) >>> 40) |||
    ((value &&& 0x0000FF0000000000) >>> 24) |||
    ((value &&& 0x000000FF00000000) >>> 8) |||
    ((value &&& 0x00000000FF000000) <<< 8) |||
    ((value &&& 0x0000000000FF0000) <<< 24) |||
    ((value &&& 0x000000000000FF00) <<< 40) |||
    ((value &&& 0x00000000000000FF) <<< 56)

/-- `memcpy` of `n` bytes from a value, `none` if it has fewer. -/
def memcpy (n : Nat) (psz : Bytes) : Option Bytes :=
  if n ≤ psz.length then some (psz.take n) else none

namespace ResultCol

variable (atoll : Bytes → Int)

/-- The type and the value of the cell, `none` where every accessor returns its default: outside
the result, for a `NULL` and for an empty value. -/
def cell (c : ResultCol) : Option (Oid × Bytes) := do
  let result ← c.result
  if c.row ≥ result.ntuples ∨ c.col ≥ result.nfields then none
  else
    let psz ← result.value c.row c.col
    if psz.length = 0 then none else return (result.ftype c.col, psz)

/-- `ResultCol::data`. -/
def data (c : ResultCol) : Bytes :=
  match c.cell with
  | none => []
  | some (_, psz) => psz

/-- `ResultCol::Int64` (`ResultImpl.cpp:136-190`). -/
def int64 (c : ResultCol) : Option Int :=
  match c.cell with
  | none => some 0
  | some (type, psz) =>
    match type with
    | .int8 => (memcpy 8 psz).map fun val => (ntohll (UInt64.ofNat (value val))).toInt64.toInt
    | .char => (memcpy 8 psz).map fun val => (ntohll (UInt64.ofNat (value val))).toInt64.toInt
    -- one byte is copied, and `ntohs` swaps it with a zero byte
    | .int2 => (memcpy 1 psz).map fun val8 => (swap 2 (value val8) : Int)
    | .int4 => (memcpy 4 psz).map fun val32 => (swap 4 (value val32) : Int)
    | .bool => (memcpy 1 psz).map fun val8 => if value val8 = 0 then 0 else 1
    | .varchar => some (atoll psz)
    | .text => some (atoll psz)
    | .other => some 0

/-- `ResultCol::UInt32`. -/
def uInt32 (c : ResultCol) : Option Int :=
  (c.int64 atoll).map fun val =>
    if val < 0 then 0 else if val > 4294967295 then 4294967295 else val

/-- `ResultCol::UInt64`. -/
def uInt64 (c : ResultCol) : Option Int :=
  (c.int64 atoll).map fun val => if val < 0 then 0 else val

/-- `ResultCol::Int32`. -/
def int32 (c : ResultCol) : Option Int :=
  (c.int64 atoll).map fun val =>
    if val < -2147483648 then -2147483648 else if val > 2147483647 then 2147483647 else val

end ResultCol

/-! ## The cursor -/

/-- `ResultRow`. -/
structure ResultRow where
  result : Option PgResult
  curRow : Nat := 0

namespace ResultRow

/-- `ResultRow::operator bool`. -/
def toBool (r : ResultRow) : Bool :=
  match r.result with
  | none => false
  | some result => 0 < result.ntuples && r.curRow < result.ntuples

/-- `ResultRow::inc`. -/
def inc (r : ResultRow) : ResultRow := { r with curRow := r.curRow + 1 }

/-- `ResultRow::operator[]`. -/
def get (r : ResultRow) (pos : Nat) : ResultCol :=
  { result := r.result, row := r.curRow, col := pos }

end ResultRow

/-- `ResultImpl`. -/
structure ResultImpl where
  row : ResultRow

/-- `ResultImpl::next`. -/
def ResultImpl.next (r : ResultImpl) : ResultImpl × ResultRow :=
  let row := r.row.inc
  (⟨row⟩, row)

/-- `DataResult`. -/
structure DataResult where
  data : Option ResultImpl := none

namespace DataResult

/-- The result of a query as a session returns it. -/
def ofResult (result : PgResult) : DataResult := { data := some ⟨{ result := some result }⟩ }

/-- `DataResult::getNumResults`. -/
def getNumResults (d : DataResult) : Nat :=
  match d.data with
  | none => 0
  | some data =>
    match data.row.result with
    | none => 0
    | some result => result.ntuples

/-- `nullRow`, which is false and whose columns have the values of a row without a result. -/
def nullRow : ResultRow := { result := none }

/-- `DataResult::cur`. -/
def cur (d : DataResult) : ResultRow :=
  match d.data with
  | none => nullRow
  | some data => data.row

/-- `DataResult::next`, a `const` member. -/
def next (d : DataResult) : ResultRow :=
  match d.data with
  | none => nullRow
  | some data => data.row

/-- `while (result.next()) use(result.cur());` for at most `fuel` iterations: the rows used, and
whether the loop has ended. -/
def visit (d : DataResult) : Nat → List ResultRow × Bool
  | 0 => ([], false)
  | fuel + 1 =>
    if d.next.toBool then
      let (rows, ended) := d.visit fuel
      (d.cur :: rows, ended)
    else ([], true)

/-- The loop ends, having used every row once and in order. -/
def VisitsAll (d : DataResult) : Prop :=
  ∃ fuel, (d.visit fuel).2 = true ∧
    (d.visit fuel).1.map ResultRow.curRow = List.range d.getNumResults

variable {result : PgResult}

theorem toBool_next (result : PgResult) :
    (ofResult result).next.toBool = decide (0 < result.ntuples) :=
  Bool.and_self _

/-- With rows, every iteration uses row 0 and none is the last. -/
theorem visit_of_pos (h : 0 < result.ntuples) (fuel : Nat) :
    (ofResult result).visit fuel = (List.replicate fuel { result := some result }, false) := by
  induction fuel with
  | zero => rfl
  | succ fuel ih =>
    rw [visit, toBool_next, if_pos (decide_eq_true h), ih, List.replicate_succ]
    rfl

/-- **The loop over the rows of a result ends** exactly if there are none. -/
theorem visitsAll_iff (result : PgResult) :
    VisitsAll (ofResult result) ↔ result.ntuples = 0 := by
  constructor
  · rintro ⟨fuel, hended, -⟩
    by_contra hne
    rw [visit_of_pos (Nat.pos_of_ne_zero hne)] at hended
    cases hended
  · intro h
    have hvisit : (ofResult result).visit 1 = ([], true) := by
      simp [visit, toBool_next, h]
    have hnum : (ofResult result).getNumResults = 0 := h
    exact ⟨1, by rw [hvisit], by rw [hvisit, hnum]; rfl⟩

/-- The same loop by `ResultImpl::next`, for at most `fuel` iterations. -/
def visitAdvancing (r : ResultImpl) : Nat → List ResultRow × Bool
  | 0 => ([], false)
  | fuel + 1 =>
    let (r, row) := r.next
    if row.toBool then
      let (rows, ended) := visitAdvancing r fuel
      (r.row :: rows, ended)
    else ([], true)

/-- It ends, and uses the rows after the one it starts on. -/
theorem visitAdvancing_eq (result : PgResult) :
    ∀ (n k : Nat), k + n + 1 = result.ntuples →
      let r := visitAdvancing ⟨{ result := some result, curRow := k }⟩ (n + 1)
      r.2 = true ∧ r.1.map ResultRow.curRow = List.range' (k + 1) n
  | 0, k, hk => by
    have hlast : ¬ k + 1 < result.ntuples := by omega
    simp [visitAdvancing, ResultImpl.next, ResultRow.inc, ResultRow.toBool, hlast]
  | n + 1, k, hk => by
    have hmore : k + 1 < result.ntuples := by omega
    obtain ⟨hended, hrows⟩ := visitAdvancing_eq result n (k + 1) (by omega)
    have hpos : 0 < result.ntuples := by omega
    rw [visitAdvancing]
    simp only [ResultImpl.next, ResultRow.inc, ResultRow.toBool, hmore, hpos, decide_true,
      Bool.and_self, if_true, List.map_cons, hended, hrows, true_and]
    rw [List.range'_succ]

/-- The result of `SELECT 1`. -/
def selectOne : PgResult where
  ntuples := 1
  nfields := 1
  ftype _ := .int4
  value _ _ := some [0, 0, 0, 1]

/-- One row is visited three times in three iterations, and no number of iterations is enough. -/
theorem selectOne_never_ends :
    ((ofResult selectOne).visit 3).1.map ResultRow.curRow = [0, 0, 0] ∧
      (∀ fuel, ((ofResult selectOne).visit fuel).2 = false) ∧
      ¬ VisitsAll (ofResult selectOne) := by
  have hpos : 0 < selectOne.ntuples := Nat.one_pos
  refine ⟨rfl, fun fuel => ?_, ?_⟩
  · rw [visit_of_pos hpos]
  · rintro ⟨fuel, hended, -⟩
    rw [visit_of_pos hpos] at hended
    cases hended

end DataResult

/-! ## Integer columns -/

/-- The integer types of the server. -/
inductive IntType where
  | int2 | int4 | int8
  deriving DecidableEq, Repr

namespace IntType

/-- The type of the column. -/
def oid : IntType → Oid
  | .int2 => .int2
  | .int4 => .int4
  | .int8 => .int8

/-- The length of a value. -/
def width : IntType → Nat
  | .int2 => 2
  | .int4 => 4
  | .int8 => 8

/-- The number of values. -/
def card : IntType → Nat
  | .int2 => 65536
  | .int4 => 4294967296
  | .int8 => 18446744073709551616

theorem card_eq (ty : IntType) : ty.card = 256 ^ ty.width := by cases ty <;> rfl

/-- A value of the type. -/
def Fits (ty : IntType) (v : Int) : Prop := -(ty.card : Int) ≤ 2 * v ∧ 2 * v < ty.card

/-- Its binary format: two's complement, highest byte first. -/
def send (ty : IntType) (v : Int) : Bytes := wire ty.width (v % ty.card).toNat

/-- What `Int64` makes of a value. -/
def read : IntType → Int → Int
  | .int2, v => v % 65536 / 256 * 256
  | .int4, v => v % 4294967296
  | .int8, v => v

end IntType

/-- The column is at a cell that holds the integer `v`. -/
structure Holds (c : ResultCol) (ty : IntType) (v : Int) : Prop where
  fits : ty.Fits v
  cell : c.cell = some (ty.oid, ty.send v)

theorem toNat_ntohll (v : UInt64) : (ntohll v).toNat = swap 8 v.toNat := by
  unfold ntohll
  simp only [UInt64.toNat_or]
  -- each byte on its own, from bit `j` to bit `i`
  rw [toNat_byte_shiftRight v (j := 56) (i := 0) rfl (by decide) rfl,
    toNat_byte_shiftRight v (j := 48) (i := 8) rfl (by decide) rfl,
    toNat_byte_shiftRight v (j := 40) (i := 16) rfl (by decide) rfl,
    toNat_byte_shiftRight v (j := 32) (i := 24) rfl (by decide) rfl,
    toNat_byte_shiftLeft v (j := 24) (i := 32) rfl rfl (by decide),
    toNat_byte_shiftLeft v (j := 16) (i := 40) rfl rfl (by decide),
    toNat_byte_shiftLeft v (j := 8) (i := 48) rfl rfl (by decide),
    toNat_byte_shiftLeft v (j := 0) (i := 56) rfl rfl (by decide), swap, wire_eight]
  simp only [value_cons_or, Nat.shiftLeft_or_distrib, ← Nat.shiftLeft_add, Nat.or_assoc,
    Nat.shiftLeft_zero]
  simp [value]

theorem IntType.length_send (ty : IntType) (v : Int) : (ty.send v).length = ty.width :=
  length_wire _ _

theorem IntType.send_ne_nil (ty : IntType) (v : Int) : ty.send v ≠ [] := by
  intro hnil
  have hlen := ty.length_send v
  rw [hnil] at hlen
  cases ty <;> cases hlen

theorem memcpy_send (ty : IntType) (v : Int) :
    memcpy ty.width (ty.send v) = some (ty.send v) := by
  have hlen := ty.length_send v
  unfold memcpy
  rw [if_pos hlen.ge, List.take_of_length_le hlen.le]

/-- A value read from memory and swapped is the number that was written. -/
theorem swap_value_send (ty : IntType) (v : Int) :
    (swap ty.width (value (ty.send v)) : Int) = v % ty.card := by
  have hpos : (0 : Int) < ty.card := by cases ty <;> decide
  have hlt : (v % ty.card).toNat < ty.card := by
    have := Int.emod_lt_of_pos v hpos
    have := Int.emod_nonneg v hpos.ne'
    omega
  unfold IntType.send
  rw [swap_value_wire, ← ty.card_eq, Nat.mod_eq_of_lt hlt,
    Int.toNat_of_nonneg (Int.emod_nonneg v hpos.ne')]

/-- The one byte copied of an `int2` is its high byte. -/
theorem memcpy_send_int2 (v : Int) :
    memcpy 1 (IntType.int2.send v) = some [UInt8.ofNat ((v % 65536).toNat / 256)] := by
  simp [memcpy, IntType.send, IntType.width, IntType.card, wire, bytes]

/-- `ntohll` and the cast to a signed integer read an `int8`. -/
theorem toInt_ntohll_send {v : Int} (h : IntType.int8.Fits v) :
    (ntohll (UInt64.ofNat (value (IntType.int8.send v)))).toInt64.toInt = v := by
  have hlt : value (IntType.int8.send v) < 2 ^ 64 := by
    have hlt := value_lt (IntType.int8.send v)
    rwa [IntType.length_send] at hlt
  have hswap := swap_value_send .int8 v
  simp only [IntType.width, IntType.card] at hswap
  obtain ⟨hlow, hhigh⟩ := h
  simp only [IntType.card] at hlow hhigh
  calc (ntohll (UInt64.ofNat (value (IntType.int8.send v)))).toInt64.toInt
      = Int.bmod ((ntohll (UInt64.ofNat (value (IntType.int8.send v)))).toNat : Int) (2 ^ 64) :=
        BitVec.toInt_eq_toNat_bmod _
    _ = Int.bmod (v % 18446744073709551616) (2 ^ 64) := by
        rw [toNat_ntohll, UInt64.toNat_ofNat_of_lt' hlt, hswap]
        rfl
    _ = Int.bmod v (2 ^ 64) := Int.emod_bmod v (2 ^ 64)
    _ = v := Int.bmod_eq_of_le (by omega) (by omega)

/-- **What `Int64` reads** of an integer column. -/
theorem int64_of_holds (atoll : Bytes → Int) {c : ResultCol} {ty : IntType} {v : Int}
    (h : Holds c ty v) : c.int64 atoll = some (ty.read v) := by
  unfold ResultCol.int64
  rw [h.cell]
  cases ty with
  | int2 =>
    have hlt : (v % 65536).toNat / 256 < 256 := by omega
    have hbyte : value [UInt8.ofNat ((v % 65536).toNat / 256)] = (v % 65536).toNat / 256 := by
      simp [value, Nat.mod_eq_of_lt hlt]
    have hswap : swap 2 ((v % 65536).toNat / 256) = (v % 65536).toNat / 256 * 256 := by
      simp [swap, wire, bytes, value, Nat.div_div_eq_div_mul]
      omega
    simp only [IntType.oid, memcpy_send_int2, Option.map_some, Option.some.injEq, IntType.read,
      hbyte, hswap]
    omega
  | int4 =>
    have hcopy : memcpy 4 (IntType.int4.send v) = _ := memcpy_send .int4 v
    have hswap : (swap 4 (value (IntType.int4.send v)) : Int) = _ := swap_value_send .int4 v
    simp only [IntType.oid, hcopy, Option.map_some, hswap]
    rfl
  | int8 =>
    have hcopy : memcpy 8 (IntType.int8.send v) = _ := memcpy_send .int8 v
    simp only [IntType.oid, hcopy, Option.map_some, toInt_ntohll_send h.fits]
    rfl

/-! ### Which integers read back -/

/-- The accessors give the value of the column, clamped to their ranges, and copy no more bytes than
it has. -/
structure ReadsBack (atoll : Bytes → Int) (c : ResultCol) (v : Int) : Prop where
  int64 : c.int64 atoll = some v
  uInt64 : c.uInt64 atoll = some (max v 0)
  uInt32 : c.uInt32 atoll = some (max 0 (min v 4294967295))
  int32 : c.int32 atoll = some (max (-2147483648) (min v 2147483647))

/-- The other accessors clamp what `Int64` reads. -/
theorem readsBack_of_int64 {atoll : Bytes → Int} {c : ResultCol} {v : Int}
    (h : c.int64 atoll = some v) : ReadsBack atoll c v := by
  refine ⟨h, ?_, ?_, ?_⟩
  · simp only [ResultCol.uInt64, h, Option.map_some, Option.some.injEq]
    split_ifs <;> omega
  · simp only [ResultCol.uInt32, h, Option.map_some, Option.some.injEq]
    split_ifs <;> omega
  · simp only [ResultCol.int32, h, Option.map_some, Option.some.injEq]
    split_ifs <;> omega

/-- The values that read back: every `int8`, an `int4` without a sign, an `int2` without a sign
whose low byte is zero. -/
def IntType.ReadsRight : IntType → Int → Prop
  | .int2, v => 0 ≤ v ∧ v % 256 = 0
  | .int4, v => 0 ≤ v
  | .int8, _ => True

theorem read_eq_iff {ty : IntType} {v : Int} (h : ty.Fits v) :
    ty.read v = v ↔ ty.ReadsRight v := by
  obtain ⟨hlow, hhigh⟩ := h
  cases ty with
  | int2 =>
    simp only [IntType.card, IntType.read, IntType.ReadsRight] at hlow hhigh ⊢
    omega
  | int4 =>
    simp only [IntType.card, IntType.read, IntType.ReadsRight] at hlow hhigh ⊢
    omega
  | int8 => exact iff_of_true rfl trivial

/-- **Which integer columns read back their value.** -/
theorem readsBack_iff (atoll : Bytes → Int) (c : ResultCol) (ty : IntType) (v : Int)
    (h : Holds c ty v) : ReadsBack atoll c v ↔ ty.ReadsRight v := by
  rw [← read_eq_iff h.fits]
  have hread := int64_of_holds atoll h
  constructor
  · intro hback
    have hsome := hback.int64
    rw [hread] at hsome
    exact Option.some.inj hsome
  · intro heq
    rw [heq] at hread
    exact readsBack_of_int64 hread

/-- A result with one integer in it. -/
def oneInteger (ty : IntType) (v : Int) : ResultCol where
  result := some
    { ntuples := 1, nfields := 1, ftype := fun _ => ty.oid, value := fun _ _ => some (ty.send v) }

theorem holds_oneInteger (ty : IntType) (v : Int) (h : ty.Fits v) :
    Holds (oneInteger ty v) ty v :=
  ⟨h, by simp [ResultCol.cell, oneInteger, ty.send_ne_nil v]⟩

theorem readsBack_iff_int8 :
    Holds (oneInteger .int8 (-1)) .int8 (-1) ∧
      (ReadsBack (fun _ => 0) (oneInteger .int8 (-1)) (-1) ↔ IntType.int8.ReadsRight (-1)) :=
  have h : Holds (oneInteger .int8 (-1)) .int8 (-1) :=
    holds_oneInteger .int8 (-1) (by constructor <;> decide)
  ⟨h, readsBack_iff (fun _ => 0) _ .int8 (-1) h⟩

/-- An `int4` of -1 reads as the largest unsigned one, an `int2` of 1 as zero. -/
theorem minusOne_not_readsBack :
    (oneInteger .int4 (-1)).int64 (fun _ => 0) = some 4294967295 ∧
      (oneInteger .int2 1).int64 (fun _ => 0) = some 0 ∧
      ¬ ReadsBack (fun _ => 0) (oneInteger .int4 (-1)) (-1) ∧
      ¬ ReadsBack (fun _ => 0) (oneInteger .int2 1) 1 := by
  have h4 := int64_of_holds (fun _ => 0)
    (holds_oneInteger .int4 (-1) (by constructor <;> decide))
  have h2 := int64_of_holds (fun _ => 0)
    (holds_oneInteger .int2 1 (by constructor <;> decide))
  refine ⟨h4, h2, fun h => ?_, fun h => ?_⟩
  · have hsome := h.int64
    rw [h4] at hsome
    exact absurd hsome (by decide)
  · have hsome := h.int64
    rw [h2] at hsome
    exact absurd hsome (by decide)

end Fluffycoin.Db
