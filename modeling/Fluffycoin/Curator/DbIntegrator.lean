import Fluffycoin.Alg.Address
import Fluffycoin.Block.Objects
import Fluffycoin.Db.Session
import Mathlib

/-!
# `DbIntegrator`

Model of `src/services/curator/core/DbIntegrator.cpp`: the cached import state and `integrate`, with
`init`, `integrateGenesis`, `integrateRecon` and `integrateNode`, their checks in source order, the
results they return and the errors they leave in the `Details`. Log lines are left out.

* One call runs in one session, given by an `Env`: its `Link`, and two things only `init` depends
  on, the rows its loop gets to see of the table (`visit`) and the value it returns. `init` ends
  without `co_return` when the table is not empty (`DbIntegrator.cpp:42-75`); `fallOff` is whatever
  the caller then reads. With the cursor the loop has, it does not even end on such a table
  (`Fluffycoin.Curator.InitLoop`).
* `Ret` is what a call leaves behind: result, cached state, committed tables, details, and whether
  the transaction was committed.
* `integrate` is `newSession` and `init`, then `dispatch` (`DbIntegrator.cpp:101-209`).
* `integrateGenesis` and `integrateRecon` both send their statements, commit and then set the
  cached state, without a look at how the commit went (`commitSteps`).
-/

namespace Fluffycoin

open Std (ExtTreeMap)
open Fluffycoin.Ossl

/-- `DbIntegrator::Result`. -/
inductive Result where
  | none | success | noDatabase | databaseError | invalidState | invalidIndex | duplicate
  | badBlock | noMatch | notReady | alreadyDone
  deriving DecidableEq, Repr

/-- `DbIntegrator::ShardInfo`. -/
structure ShardInfo where
  block : UInt32 := 0
  hash : Hash := {}
  deriving DecidableEq, Repr

/-- The members of `DbIntegrator`. -/
@[ext]
structure DbIntegrator where
  initialized : Bool := false
  currentRecon : UInt32 := 0
  lastImports : ExtTreeMap UInt32 ShardInfo := ∅

/-- The environment of one call. -/
structure Env extends Link where
  visit : List ImportedBlock → List ImportedBlock := id
  fallOff : Result := .none

/-- What a call leaves behind. -/
structure Ret where
  result : Result
  state : DbIntegrator
  db : Database
  details : Details
  committed : Bool := false

namespace DbIntegrator

/-! ## `init` -/

/-- `ResultCol::UInt32` of an `INT` column (`ResultImpl.cpp:110-117, 164-170`). -/
def columnUInt32 (v : Int) : UInt32 := UInt32.ofInt v

/-- The loop of `init` over the rows it sees; the flag is false when it stopped at a mismatch. -/
def readRows (o : OpenSsl) : Bool → DbIntegrator → List ImportedBlock → Details →
    DbIntegrator × Details × Bool
  | _, s, [], details => (s, details, true)
  | first, s, row :: rows, details =>
    let lastRecon := columnUInt32 row.reconciliation
    if !first && s.currentRecon != lastRecon then
      (s, details.setError .argumentInvalid "dbintegrate_init"
        (s!"Database state mismatches current reconciliation block " ++
          s!"({s.currentRecon} vs {lastRecon})."), false)
    else
      let s := if first then { s with currentRecon := lastRecon } else s
      let shard := columnUInt32 row.shard
      let info := (s.lastImports[shard]?).getD {}
      -- `block::decode` leaves the hash alone when it fails
      let info : ShardInfo :=
        { block := columnUInt32 row.block, hash := (decodeHash o row.hash).getD info.hash }
      readRows o false { s with lastImports := s.lastImports.insert shard info } rows details

/-- `DbIntegrator::init` (`DbIntegrator.cpp:20-75`). -/
def init (o : OpenSsl) (env : Env) (s : DbIntegrator) (dbsession : Session) (details : Details) :
    Result × DbIntegrator × Details :=
  let details := dbsession.select details
  if !details.isOk then
    (.databaseError, s,
      details.extendError "integrate_init" "Failed to select current import state.")
  else if dbsession.work.importedBlocks = [] then
    (.success, { s with initialized := true }, details)
  else
    let (s, details, ok) := readRows o true { s with currentRecon := 0, lastImports := ∅ }
      (env.visit dbsession.work.importedBlocks) details
    if !ok then (.invalidState, s, details)
    else
      let s :=
        if !s.lastImports.isEmpty && s.currentRecon == 0 then { s with currentRecon := 1 } else s
      -- no `co_return`, and `initialized` is not set
      (env.fallOff, s, details)

/-! ## The three kinds of block -/

/-- A call that writes nothing. -/
def stop (result : Result) (s : DbIntegrator) (db : Database) (details : Details) : Ret :=
  { result, state := s, db, details }

/-- Send the statements, commit, and set the cached state to `next` (`DbIntegrator.cpp:225-289,
353-392`). A failed commit leaves an error in the details and is not looked at. -/
def commitSteps (steps : List Session.Step) (next s : DbIntegrator) (db : Database)
    (dbsession : Session) (details : Details) : Ret :=
  match Session.queries steps dbsession details with
  | (_, details, false) => stop .databaseError s db details
  | (dbsession, details, true) =>
    let (committed, details) := dbsession.commit details
    { result := .success, state := next, db := if committed then dbsession.work else db,
      details, committed }

/-- The statements of `integrateGenesis`. -/
def genesisSteps (o : OpenSsl) (genesis : Genesis) : List Session.Step :=
  let hash := (Hash.ofData o (genesis.encode o)).encode o
  [⟨.insertValidatorJoin ['0'] 1 0 (Address.printable genesis.creator)
      (Binary.encode genesis.validatorKey) 1,
    "import_genesis", "Failed to add creator validator join."⟩,
   ⟨.insertWallet 1 (genesis.greed.coins - 1).toNat genesis.greed.fluffs.toNat 1 0,
    "import_genesis", "Failed to add creator wallet."⟩,
   ⟨.insertWalletAddress 1 (Address.printable genesis.stakeAddress) none,
    "import_genesis", "Failed to add creator wallet address."⟩,
   ⟨.insertImportedBlock 0 0 0 (Binary.encode hash),
    "import_genesis", "Failed to update import state."⟩]

/-- `DbIntegrator::integrateGenesis` (`DbIntegrator.cpp:211-290`). `emplace` keeps an entry that is
there. -/
def integrateGenesis (o : OpenSsl) (s : DbIntegrator) (db : Database) (genesis : Genesis)
    (dbsession : Session) (details : Details) : Ret :=
  let hash := Hash.ofData o (genesis.encode o)
  commitSteps (genesisSteps o genesis)
    { s with currentRecon := 1, lastImports := s.lastImports.insertIfNew 0 { hash } }
    s db dbsession details

/-- The loop of `integrateRecon` over the shards from `shardIndex` on; `none` if all match. -/
def matchShards (lastImports : ExtTreeMap UInt32 ShardInfo) :
    Nat → List ReconciliationShardInfo → Details → Option (Result × Details)
  | _, [], _ => none
  | shardIndex, shardInfo :: rest, details =>
    match lastImports[UInt32.ofNat shardIndex]? with
    | none => some (.noMatch, details.setError .argumentInvalid "import_reconciliation"
        s!"Missing import for shard {shardIndex}.")
    | some importedInfo =>
      if importedInfo.block ≠ shardInfo.blocks then
        some (.notReady, details.setError .argumentInvalid "import_reconciliation"
          (s!"Reconciliation shard {shardIndex} expects {shardInfo.blocks} blocks but " ++
            s!"{importedInfo.block} imported."))
      else if importedInfo.hash ≠ shardInfo.hash then
        some (.badBlock, details.setError .argumentInvalid "import_reconciliation"
          s!"Reconciliation block shard hash mismatch for shard {shardIndex}.")
      else matchShards lastImports (shardIndex + 1) rest details

/-- The statements of `integrateRecon`. -/
def reconSteps (o : OpenSsl) (currentRecon : UInt32) (recon : Reconciliation) :
    List Session.Step :=
  let hash := (Hash.ofData o (recon.toContent o)).encode o
  [⟨.truncateImportedBlocks,
    "truncate_imported_blocks", "Failed to clear imported_blocks table."⟩,
   ⟨.insertImportedBlock currentRecon.toNat 0 0 (Binary.encode hash),
    "import_reconciliation", "Failed to update import state."⟩]

/-- `DbIntegrator::integrateRecon` (`DbIntegrator.cpp:292-393`). -/
def integrateRecon (o : OpenSsl) (s : DbIntegrator) (db : Database) (recon : Reconciliation)
    (dbsession : Session) (details : Details) : Ret :=
  if recon.chainId ≠ s.currentRecon then
    stop .badBlock s db (details.setError .argumentInvalid "import_reconciliation"
      s!"Reconciliation chain ID {recon.chainId} does not match metadata {s.currentRecon}.")
  else if recon.shardInfo.length ≠ s.lastImports.size then
    stop .badBlock s db (details.setError .argumentInvalid "import_reconciliation"
      (s!"Reconciliation block shard hashes does not match " ++
        s!"({recon.shardInfo.length} vs {s.lastImports.size})."))
  else
    match matchShards s.lastImports 0 recon.shardInfo details with
    | some (result, details) => stop result s db details
    | none =>
      let hash := Hash.ofData o (recon.toContent o)
      commitSteps (reconSteps o s.currentRecon recon)
        { s with currentRecon := s.currentRecon + 1,
                 lastImports := (∅ : ExtTreeMap UInt32 ShardInfo).insertIfNew 0 { hash } }
        s db dbsession details

/-- `DbIntegrator::integrateNode` (`DbIntegrator.cpp:395-438`): a commit of nothing. -/
def integrateNode (s : DbIntegrator) (db : Database) (shard block : UInt32) (dbsession : Session)
    (details : Details) : Ret :=
  let lastBlock := ((s.lastImports[shard]?).map ShardInfo.block).getD 0
  if lastBlock ≥ block then
    stop .alreadyDone s db
      (details.setError .argumentInvalid "import_node" "Block already integrated.")
  else if lastBlock + 1 < block then stop .notReady s db details
  else
    let (committed, details) := dbsession.commit details
    { result := .success, state := s, db := if committed then dbsession.work else db,
      details, committed }

/-! ## `integrate` -/

/-- The loop of `integrate` over the shards from `ui` on (`DbIntegrator.cpp:151-193`); `none` if
none is objected to. -/
def checkShards (lastImports : ExtTreeMap UInt32 ShardInfo) (recon : UInt32) :
    Nat → List ReconciliationShardInfo → Details → Option (Result × Details)
  | _, [], _ => none
  | ui, shardInfo :: rest, details =>
    let iterImported := lastImports[UInt32.ofNat ui]?
    let blocksImported := (iterImported.map ShardInfo.block).getD 0
    if blocksImported < shardInfo.blocks then some (.notReady, details)
    else if blocksImported > shardInfo.blocks then
      some (.badBlock, details.setError .argumentInvalid "import_reconciliation"
        (s!"Reconciliation block {recon} expects {shardInfo.blocks} blocks in shard {ui} but " ++
          s!"{blocksImported} already imported."))
    else
      match iterImported with
      | none =>
        if shardInfo.hash ≠ {} then
          some (.badBlock, details.setError .argumentInvalid "import_reconciliation"
            s!"Reconciliation block {recon} null hash mismatch on shard {ui}.")
        else checkShards lastImports recon (ui + 1) rest details
      | some imported =>
        if shardInfo.hash ≠ imported.hash then
          some (.badBlock, details.setError .argumentInvalid "import_reconciliation"
            s!"Reconciliation block {recon} hash mismatch on shard {ui}.")
        else checkShards lastImports recon (ui + 1) rest details

/-- `integrate` after session and `init` (`DbIntegrator.cpp:101-209`). -/
def dispatch (o : OpenSsl) (s : DbIntegrator) (db : Database) (dbsession : Session) (data : Block)
    (recon shard block : UInt32) (details : Details) : Ret :=
  if recon > s.currentRecon then stop .notReady s db details
  else if recon < s.currentRecon then stop .alreadyDone s db details
  else if s.currentRecon = 0 then
    if shard ≠ 0 then
      stop .invalidIndex s db (details.setError .argumentInvalid "dbintegrate"
        s!"Invalid genesis block shard {shard}.")
    else if block ≠ 0 then
      stop .badBlock s db (details.setError .argumentInvalid "dbintegrate"
        s!"Invalid genesis block number {block}.")
    else
      match data with
      | .genesis genesis => integrateGenesis o s db genesis dbsession details
      | data =>
        stop .badBlock s db (details.setError .argumentInvalid "dbintegrate"
          s!"Invalid genesis block type '{data.getType.toString}'.")
  else
    match data with
    | .reconciliation reconObj =>
      match checkShards s.lastImports recon 0 reconObj.shardInfo details with
      | some (result, details) => stop result s db details
      | none => integrateRecon o s db reconObj dbsession details
    | .node _ => integrateNode s db shard block dbsession details
    | _ => stop .badBlock s db
        (details.setError .argumentInvalid "dbintegrate" "Invalid block type.")

/-- `DbIntegrator::integrate` (`DbIntegrator.cpp:77-209`). -/
def integrate (o : OpenSsl) (env : Env) (s : DbIntegrator) (db : Database) (data : Block)
    (recon shard block : UInt32) (details : Details) : Ret :=
  let (dbsession, details) := Session.newSession env.toLink db details
  if !details.isOk then
    stop .noDatabase s db (details.extendError "dbintegrate_init"
      "Failed to create database session for block integration.")
  else
    let (status, s, details) :=
      if s.initialized then (.success, s, details) else init o env s dbsession details
    if status ≠ .success then stop status s db details
    else dispatch o s db dbsession data recon shard block details

end DbIntegrator

end Fluffycoin
