import Fluffycoin.Db.Binary
import Mathlib.Tactic.NormNum

/-!
# Tables and statements

The tables of `doc/schema.sql` the curator writes, the statements it sends, and the server:
`Statement.exec` is `none` when it rejects a statement, because a value does not fit its `INT` or
`BIGINT` column, a `bytea` literal is malformed or the primary key is taken. A statement holds the
values its SQL text is formatted from, byte strings as the literal written for them.

The `exec_*_iff` lemmas say of each statement when it is not rejected and what it then does.
-/

namespace Fluffycoin

/-! ## Tables -/

/-- A row of `imported_blocks`. -/
structure ImportedBlock where
  reconciliation : Int
  shard : Int
  block : Int
  hash : Bytes
  deriving DecidableEq, Repr

/-- A row of `validator_joins`. -/
structure ValidatorJoin where
  transactionId : List Char
  coins : Int
  fluffs : Int
  validatorAddress : List Char
  validatorPubkey : Bytes
  stakeWallet : Int
  deriving DecidableEq, Repr

/-- A row of `wallets`. -/
structure Wallet where
  id : Int
  coins : Int
  fluffs : Int
  stakedCoins : Int
  stakedFluffs : Int
  deriving DecidableEq, Repr

/-- A row of `wallet_addresses`. -/
structure WalletAddress where
  walletId : Int
  address : List Char
  pubkey : Option Bytes
  deriving DecidableEq, Repr

/-- The committed tables, or what a transaction sees of them. -/
structure Database where
  importedBlocks : List ImportedBlock := []
  validatorJoins : List ValidatorJoin := []
  wallets : List Wallet := []
  walletAddresses : List WalletAddress := []
  deriving DecidableEq, Repr

/-! ## Statements -/

/-- The statements the curator sends; `*Literal` is the text of a `bytea` literal. -/
inductive Statement where
  | insertValidatorJoin (transactionId : List Char) (coins fluffs : Int)
      (validatorAddress : List Char) (pubkeyLiteral : Bytes) (stakeWallet : Int)
  | insertWallet (id coins fluffs stakedCoins stakedFluffs : Int)
  | insertWalletAddress (walletId : Int) (address : List Char) (pubkey : Option Bytes)
  | insertImportedBlock (reconciliation shard block : Int) (hashLiteral : Bytes)
  | truncateImportedBlocks
  deriving DecidableEq, Repr

/-- A value of an `INT` column. -/
def isInt (v : Int) : Bool := -2 ^ 31 ≤ v && v < 2 ^ 31

/-- A value of a `BIGINT` column. -/
def isBigint (v : Int) : Bool := -2 ^ 63 ≤ v && v < 2 ^ 63

/-- Add a row to a table unless its primary key is taken. -/
def insertRow {ρ κ : Type} [DecidableEq κ] (key : ρ → κ) (row : ρ) (table : List ρ) :
    Option (List ρ) :=
  if table.any (key · = key row) then none else some (table ++ [row])

/-- What the server does with a statement. -/
def Statement.exec (db : Database) : Statement → Option Database
  | .insertValidatorJoin transactionId coins fluffs validatorAddress pubkeyLiteral stakeWallet =>
    if isBigint coins && isInt fluffs && isBigint stakeWallet then
      (Postgres.byteaLiteral pubkeyLiteral).bind fun validatorPubkey =>
        (insertRow ValidatorJoin.transactionId
          { transactionId, coins, fluffs, validatorAddress, validatorPubkey, stakeWallet }
          db.validatorJoins).map fun validatorJoins => { db with validatorJoins }
    else none
  | .insertWallet id coins fluffs stakedCoins stakedFluffs =>
    if isBigint id && isBigint coins && isInt fluffs && isBigint stakedCoins &&
        isInt stakedFluffs then
      (insertRow Wallet.id { id, coins, fluffs, stakedCoins, stakedFluffs } db.wallets).map
        fun wallets => { db with wallets }
    else none
  | .insertWalletAddress walletId address pubkey =>
    if isBigint walletId then
      (insertRow (fun r : WalletAddress => (r.walletId, r.address)) { walletId, address, pubkey }
        db.walletAddresses).map fun walletAddresses => { db with walletAddresses }
    else none
  | .insertImportedBlock reconciliation shard block hashLiteral =>
    if isInt reconciliation && isInt shard && isInt block then
      (Postgres.byteaLiteral hashLiteral).bind fun hash =>
        (insertRow (fun r : ImportedBlock => (r.reconciliation, r.shard))
          { reconciliation, shard, block, hash } db.importedBlocks).map
          fun importedBlocks => { db with importedBlocks }
    else none
  | .truncateImportedBlocks => some { db with importedBlocks := [] }

/-- One statement after the other, up to the first rejected. -/
def execAll : List Statement → Database → Option Database
  | [], db => some db
  | q :: qs, db => (q.exec db).bind (execAll qs)

theorem isInt_natCast (n : Nat) : isInt n = true ↔ n < 2 ^ 31 := by
  unfold isInt
  rw [Bool.and_eq_true, decide_eq_true_eq, decide_eq_true_eq]
  constructor
  · rintro ⟨_, h⟩
    exact_mod_cast h
  · intro h
    exact ⟨by omega, by exact_mod_cast h⟩

theorem isBigint_natCast (n : Nat) : isBigint n = true ↔ n < 2 ^ 63 := by
  unfold isBigint
  rw [Bool.and_eq_true, decide_eq_true_eq, decide_eq_true_eq]
  constructor
  · rintro ⟨_, h⟩
    exact_mod_cast h
  · intro h
    exact ⟨by omega, by exact_mod_cast h⟩

theorem insertRow_eq_some_iff {ρ κ : Type} [DecidableEq κ] {key : ρ → κ} {row : ρ}
    {table table' : List ρ} :
    insertRow key row table = some table' ↔
      (∀ r ∈ table, key r ≠ key row) ∧ table' = table ++ [row] := by
  unfold insertRow
  by_cases h : ∀ r ∈ table, key r ≠ key row
  · rw [if_neg (by simpa using h), Option.some.injEq]
    exact ⟨fun he => ⟨h, he.symm⟩, fun he => he.2.symm⟩
  · rw [if_pos (by simpa using h)]
    constructor
    · intro he
      cases he
    · rintro ⟨h', _⟩
      exact absurd h' h

/-! ### When a statement is not rejected, and what it does -/

section Exec

variable {db w : Database}

theorem exec_insertValidatorJoin_iff {transactionId : List Char} {coins fluffs : Int}
    {validatorAddress : List Char} {pubkeyLiteral validatorPubkey : Bytes} {stakeWallet : Int}
    (hlit : Postgres.byteaLiteral pubkeyLiteral = some validatorPubkey) :
    (Statement.insertValidatorJoin transactionId coins fluffs validatorAddress pubkeyLiteral
        stakeWallet).exec db = some w ↔
      (isBigint coins = true ∧ isInt fluffs = true ∧ isBigint stakeWallet = true) ∧
        (∀ r ∈ db.validatorJoins, r.transactionId ≠ transactionId) ∧
        w = { db with validatorJoins := db.validatorJoins ++
          [{ transactionId, coins, fluffs, validatorAddress, validatorPubkey, stakeWallet }] } := by
  simp only [Statement.exec, hlit, Option.bind_some, Option.ite_none_right_eq_some,
    Option.map_eq_some_iff, insertRow_eq_some_iff, Bool.and_eq_true, and_assoc]
  constructor
  · rintro ⟨h1, h2, h3, rows, hfree, rfl, rfl⟩
    exact ⟨h1, h2, h3, hfree, rfl⟩
  · rintro ⟨h1, h2, h3, hfree, rfl⟩
    exact ⟨h1, h2, h3, _, hfree, rfl, rfl⟩

theorem exec_insertWallet_iff {id coins fluffs stakedCoins stakedFluffs : Int} :
    (Statement.insertWallet id coins fluffs stakedCoins stakedFluffs).exec db = some w ↔
      (isBigint id = true ∧ isBigint coins = true ∧ isInt fluffs = true ∧
        isBigint stakedCoins = true ∧ isInt stakedFluffs = true) ∧
        (∀ r ∈ db.wallets, r.id ≠ id) ∧
        w = { db with wallets := db.wallets ++
          [{ id, coins, fluffs, stakedCoins, stakedFluffs }] } := by
  simp only [Statement.exec, Option.ite_none_right_eq_some, Option.map_eq_some_iff,
    insertRow_eq_some_iff, Bool.and_eq_true, and_assoc]
  constructor
  · rintro ⟨h1, h2, h3, h4, h5, rows, hfree, rfl, rfl⟩
    exact ⟨h1, h2, h3, h4, h5, hfree, rfl⟩
  · rintro ⟨h1, h2, h3, h4, h5, hfree, rfl⟩
    exact ⟨h1, h2, h3, h4, h5, _, hfree, rfl, rfl⟩

theorem exec_insertWalletAddress_iff {walletId : Int} {address : List Char}
    {pubkey : Option Bytes} :
    (Statement.insertWalletAddress walletId address pubkey).exec db = some w ↔
      isBigint walletId = true ∧
        (∀ r ∈ db.walletAddresses, (r.walletId, r.address) ≠ (walletId, address)) ∧
        w = { db with walletAddresses := db.walletAddresses ++
          [{ walletId, address, pubkey }] } := by
  simp only [Statement.exec, Option.ite_none_right_eq_some, Option.map_eq_some_iff,
    insertRow_eq_some_iff, and_assoc]
  constructor
  · rintro ⟨h1, rows, hfree, rfl, rfl⟩
    exact ⟨h1, hfree, rfl⟩
  · rintro ⟨h1, hfree, rfl⟩
    exact ⟨h1, _, hfree, rfl, rfl⟩

theorem exec_insertImportedBlock_iff {reconciliation shard block : Int} {hashLiteral hash : Bytes}
    (hlit : Postgres.byteaLiteral hashLiteral = some hash) :
    (Statement.insertImportedBlock reconciliation shard block hashLiteral).exec db = some w ↔
      (isInt reconciliation = true ∧ isInt shard = true ∧ isInt block = true) ∧
        (∀ r ∈ db.importedBlocks, (r.reconciliation, r.shard) ≠ (reconciliation, shard)) ∧
        w = { db with importedBlocks := db.importedBlocks ++
          [{ reconciliation, shard, block, hash }] } := by
  simp only [Statement.exec, hlit, Option.bind_some, Option.ite_none_right_eq_some,
    Option.map_eq_some_iff, insertRow_eq_some_iff, Bool.and_eq_true, and_assoc]
  constructor
  · rintro ⟨h1, h2, h3, rows, hfree, rfl, rfl⟩
    exact ⟨h1, h2, h3, hfree, rfl⟩
  · rintro ⟨h1, h2, h3, hfree, rfl⟩
    exact ⟨h1, h2, h3, _, hfree, rfl, rfl⟩

theorem execAll_cons_iff {q : Statement} {qs : List Statement} :
    execAll (q :: qs) db = some w ↔ ∃ w₁, q.exec db = some w₁ ∧ execAll qs w₁ = some w :=
  Option.bind_eq_some_iff

/-- If all statements go through, so do the first `n`. -/
theorem execAll_take {qs : List Statement} {n : Nat} (h : execAll qs db = some w) :
    ∃ w₁, execAll (qs.take n) db = some w₁ := by
  induction qs generalizing db n with
  | nil => exact ⟨w, by rwa [List.take_nil]⟩
  | cons q qs ih =>
    obtain ⟨w₁, hq, hqs⟩ := execAll_cons_iff.mp h
    cases n with
    | zero => exact ⟨db, rfl⟩
    | succ n =>
      obtain ⟨w₂, hw₂⟩ := ih (n := n) hqs
      exact ⟨w₂, execAll_cons_iff.mpr ⟨w₁, hq, hw₂⟩⟩

end Exec

end Fluffycoin
