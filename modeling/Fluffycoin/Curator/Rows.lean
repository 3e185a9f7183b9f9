import Fluffycoin.Block.Der
import Fluffycoin.Curator.Integrate

/-!
# The rows a block writes

When the statements of a genesis or reconciliation block are not rejected, and the tables after
them. A genesis block adds one row to each of four tables, at fixed keys; a reconciliation block
replaces the contents of `imported_blocks` by its own row, for which its number has to fit the `INT`
column (`currentRecon_lt_of_writes`).

`conserves_integrateGenesis`: the coins of a genesis block are split over two rows and nothing of
them is lost or made. The subtraction `coins - 1` is unsigned and unguarded
(`DbIntegrator.cpp:243-245`); what it wraps to for a block without coins does not fit the column.
-/

namespace Fluffycoin

open Fluffycoin.Ossl

namespace DbIntegrator

/-- The row `imported_blocks` gets for a block numbered `recon`. -/
def importedRow (o : OpenSsl) (recon : Nat) (data : Block) : ImportedBlock where
  reconciliation := recon
  shard := 0
  block := 0
  hash := Binary.stored ((Block.importHash o data).encode o)

/-- The tables after a genesis block. -/
def genesisRows (o : OpenSsl) (g : Genesis) (db : Database) : Database where
  importedBlocks := db.importedBlocks ++ [importedRow o 0 (.genesis g)]
  validatorJoins := db.validatorJoins ++
    [{ transactionId := ['0'], coins := 1, fluffs := 0,
       validatorAddress := Address.printable g.creator,
       validatorPubkey := Binary.stored g.validatorKey, stakeWallet := 1 }]
  wallets := db.wallets ++
    [{ id := 1, coins := (g.greed.coins - 1).toNat, fluffs := g.greed.fluffs.toNat,
       stakedCoins := 1, stakedFluffs := 0 }]
  walletAddresses := db.walletAddresses ++
    [{ walletId := 1, address := Address.printable g.stakeAddress, pubkey := none }]

/-- The keys of the genesis rows are free, and its numbers fit their columns. -/
structure GenesisFits (g : Genesis) (db : Database) : Prop where
  coins : (g.greed.coins - 1).toNat < 2 ^ 63
  fluffs : g.greed.fluffs.toNat < 2 ^ 31
  validatorJoins : ∀ r ∈ db.validatorJoins, r.transactionId ≠ ['0']
  wallets : ∀ r ∈ db.wallets, r.id ≠ 1
  walletAddresses : ∀ r ∈ db.walletAddresses,
    (r.walletId, r.address) ≠ (1, Address.printable g.stakeAddress)
  importedBlocks : ∀ r ∈ db.importedBlocks, (r.reconciliation, r.shard) ≠ (0, 0)

variable {o : OpenSsl} {env : Env} {s : DbIntegrator} {db w : Database}

theorem execAll_genesis_iff {g : Genesis} :
    execAll ((genesisSteps o g).map Session.Step.statement) db = some w ↔
      GenesisFits g db ∧ w = genesisRows o g db := by
  have hcoins : isBigint ((g.greed.coins - 1).toNat : Int) = true ↔ _ := isBigint_natCast _
  have hfluffs : isInt (g.greed.fluffs.toNat : Int) = true ↔ _ := isInt_natCast _
  simp only [genesisSteps, List.map_cons, List.map_nil, execAll_cons_iff,
    exec_insertValidatorJoin_iff (Binary.byteaLiteral_encode _), exec_insertWallet_iff,
    exec_insertWalletAddress_iff, exec_insertImportedBlock_iff (Binary.byteaLiteral_encode _),
    hcoins, hfluffs]
  constructor
  · rintro ⟨_, ⟨_, hjoins, rfl⟩, _, ⟨⟨_, hc, hf, _⟩, hwallets, rfl⟩, _, ⟨_, haddr, rfl⟩, _,
      ⟨_, himp, rfl⟩, hend⟩
    exact ⟨⟨hc, hf, hjoins, hwallets, haddr, himp⟩, (Option.some.inj hend).symm⟩
  · rintro ⟨hfit, rfl⟩
    exact ⟨_, ⟨⟨by decide, by decide, by decide⟩, hfit.validatorJoins, rfl⟩, _,
      ⟨⟨by decide, hfit.coins, hfit.fluffs, by decide, by decide⟩, hfit.wallets, rfl⟩, _,
      ⟨by decide, hfit.walletAddresses, rfl⟩, _,
      ⟨⟨by decide, by decide, by decide⟩, hfit.importedBlocks, rfl⟩, rfl⟩

/-- A genesis block of one coin, for fixed inputs further on. -/
def oneCoin : Genesis := { greed := { coins := 1 } }

theorem genesisFits_oneCoin : GenesisFits oneCoin {} where
  coins := by decide
  fluffs := by decide
  validatorJoins r hr := by cases hr
  wallets r hr := by cases hr
  walletAddresses r hr := by cases hr
  importedBlocks r hr := by cases hr

/-! ### Coins -/

/-- The rows of wallet and stake hold the coins a genesis block mints, each of them once. -/
structure Conserves (g : Genesis) (join : ValidatorJoin) (wallet : Wallet) : Prop where
  coins : ∃ free staked : Nat, wallet.coins = free ∧ wallet.stakedCoins = staked ∧
    free + staked = g.greed.coins.toNat
  fluffs : ∃ free staked : Nat, wallet.fluffs = free ∧ wallet.stakedFluffs = staked ∧
    free + staked = g.greed.fluffs.toNat
  stakedCoins : join.coins = wallet.stakedCoins
  stakedFluffs : join.fluffs = wallet.stakedFluffs

/-- Without coins `coins - 1` would not fit, so there is one to stake. -/
theorem GenesisFits.sub_one_add_one {g : Genesis} (h : GenesisFits g db) :
    (g.greed.coins - 1).toNat + 1 = g.greed.coins.toNat := by
  have hcoins := h.coins
  by_cases h0 : g.greed.coins = 0
  · rw [h0] at hcoins
    exact absurd hcoins (by decide)
  · have hpos : g.greed.coins.toNat ≠ 0 := fun h => h0 (UInt64.toNat_inj.mp h)
    have hle : (1 : UInt64) ≤ g.greed.coins := by
      rw [UInt64.le_iff_toNat_le]
      exact Nat.one_le_iff_ne_zero.mpr hpos
    rw [UInt64.toNat_sub_of_le _ _ hle]
    exact Nat.sub_add_cancel (Nat.one_le_iff_ne_zero.mpr hpos)

/-- **Integrating a genesis block conserves its coins**: what is committed holds the greed of the
block, split into a free and a staked part, and the stake is that of the validator. -/
theorem conserves_integrateGenesis {g : Genesis} {dbsession : Session} {details : Details}
    (h : (integrateGenesis o s db g dbsession details).committed = true) :
    ∃ join wallet,
      (integrateGenesis o s db g dbsession details).db.validatorJoins =
        dbsession.work.validatorJoins ++ [join] ∧
      (integrateGenesis o s db g dbsession details).db.wallets =
        dbsession.work.wallets ++ [wallet] ∧
      Conserves g join wallet := by
  unfold integrateGenesis at h ⊢
  obtain ⟨w, hw, hdb⟩ := db_of_committed (by simp [genesisSteps]) h
  obtain ⟨hfits, rfl⟩ := execAll_genesis_iff.mp hw.2
  rw [hdb]
  exact ⟨_, _, rfl, rfl, ⟨_, 1, rfl, rfl, hfits.sub_one_add_one⟩, ⟨_, 0, rfl, rfl, rfl⟩, rfl, rfl⟩

theorem committed_oneCoin (o : OpenSsl) :
    (integrateGenesis o {} {} oneCoin { link := {}, work := {} } {}).committed = true := by
  have hruns : Session.Runs { link := {}, work := {} }
      ((genesisSteps o oneCoin).map Session.Step.statement) (genesisRows o oneCoin {}) :=
    (Session.runs_iff_of_ok Link.ok_default).mpr
      (execAll_genesis_iff.mpr ⟨genesisFits_oneCoin, rfl⟩)
  exact (commitSteps_of_runs Details.isOk_default hruns).2.2.1

theorem conserves_integrateGenesis_oneCoin :
    (integrateGenesis (der id id) {} {} oneCoin { link := {}, work := {} } {}).committed = true ∧
      ∃ join wallet,
        (integrateGenesis (der id id) {} {} oneCoin
          { link := {}, work := {} } {}).db.validatorJoins = [] ++ [join] ∧
        (integrateGenesis (der id id) {} {} oneCoin
          { link := {}, work := {} } {}).db.wallets = [] ++ [wallet] ∧
        Conserves oneCoin join wallet :=
  have h := committed_oneCoin (der id id)
  ⟨h, conserves_integrateGenesis h⟩

/-! ### Reconciliation blocks -/

theorem execAll_recon_iff {recon : UInt32} {r : Reconciliation} :
    execAll ((reconSteps o recon r).map Session.Step.statement) db = some w ↔
      recon.toNat < 2 ^ 31 ∧
        w = { db with importedBlocks := [importedRow o recon.toNat (.reconciliation r)] } := by
  have hrecon : isInt (recon.toNat : Int) = true ↔ _ := isInt_natCast _
  simp only [reconSteps, List.map_cons, List.map_nil, execAll_cons_iff,
    exec_insertImportedBlock_iff (Binary.byteaLiteral_encode _), hrecon]
  constructor
  · rintro ⟨_, htruncate, _, ⟨⟨hlt, _⟩, _, rfl⟩, hend⟩
    obtain rfl := Option.some.inj htruncate
    exact ⟨hlt, (Option.some.inj hend).symm⟩
  · rintro ⟨hlt, rfl⟩
    exact ⟨_, rfl, _, ⟨⟨hlt, by decide, by decide⟩, by simp, rfl⟩, rfl⟩

/-- The `INT` column bounds the number of a reconciliation block that can be written. -/
theorem currentRecon_lt_of_writes {r : Reconciliation}
    (h : Writes o env s db (.reconciliation r) w) : s.currentRecon.toNat < 2 ^ 31 :=
  (execAll_recon_iff.mp h.2).1

end DbIntegrator

end Fluffycoin
