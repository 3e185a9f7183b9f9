import Fluffycoin.Curator.Atomicity

/-!
# Whom the genesis rows belong to

A genesis block names two addresses (`doc/asn1/core.asn1`, `src/cli/genesis.cpp:191-204`):
`creator`, the address of the wallet the coins go to, and `stakeAddress`, an address for
`validatorKey`. `integrateGenesis` writes two rows from them: the validator with its key, and the
address of wallet 1, which holds the coins (`GenesisOwners` says what they should hold).

It writes them the other way round: `creator` as the address of the validator, `stakeAddress` as
that of the wallet (`DbIntegrator.cpp:230-232, 256-257`). And the key goes through
`Binary::encode`, whose literal the server reads as another value as soon as a byte is escaped.
`genesis_owners_iff`: the rows are right exactly when the two addresses are the same and no byte of
the key is escaped.
-/

namespace Fluffycoin

open Fluffycoin.Ossl DbIntegrator

/-- The rows added from `before` to `after` name the right owners: the validator row pairs the key
with an address that verifies for it, and the row for wallet 1 has the printed `creator`. -/
def GenesisOwners (o : OpenSsl) (g : Genesis) (before after : Database) : Prop :=
  ∃ join addr, after.validatorJoins = before.validatorJoins ++ [join] ∧
    after.walletAddresses = before.walletAddresses ++ [addr] ∧
    join.validatorPubkey = g.validatorKey ∧
    Address.verify o (Address.unprintable join.validatorAddress) g.validatorKey = true ∧
    addr.walletId = 1 ∧ addr.address = Address.printable g.creator

/-- A call that answers `Success` for a genesis block and commits has added its rows. -/
theorem db_of_genesis_success {o : OpenSsl} {w : System} {c : Call} {g : Genesis}
    (hdata : c.data = .genesis g) (hres : (w.call o c).result = .success)
    (hcom : (w.call o c).committed = true) : (w.call o c).db = genesisRows o g w.db := by
  have hchain : isChain c.data = true := by
    rw [hdata]
    rfl
  by_cases hreach : ∃ db', w.ReachesCommit o c db'
  · obtain ⟨db', hreach⟩ := hreach
    obtain ⟨-, -, hcommitted, hdb⟩ := integrate_of_reachesCommit hreach
    have hnone : c.env.commit = none := by
      rw [← Option.isNone_iff_eq_none, ← hcommitted]
      exact hcom
    have hw := hreach.writes
    rw [hdata] at hw
    rw [System.call, hdb, if_pos hnone, (execAll_genesis_iff.mp hw.2).2]
  · by_cases hopen : Opens c.env w.integrator c.details
    · exact absurd hres ((quiet_of_not_reachesCommit hopen hreach).result hchain).1
    · exact absurd hres ((quiet_of_not_opens hopen).result hchain).1

/-- The rows as they are written. -/
theorem genesisOwners_genesisRows_iff {o : OpenSsl} {g : Genesis} {db : Database}
    (hstake : Address.verify o g.stakeAddress g.validatorKey = true) :
    GenesisOwners o g db (genesisRows o g db) ↔
      g.creator = g.stakeAddress ∧ ∀ b ∈ g.validatorKey, Binary.isBinary b = false := by
  rw [← Binary.stored_eq_iff]
  constructor
  · rintro ⟨join, addr, hjoin, haddr, hkey, _, _, haddress⟩
    obtain rfl := List.singleton_inj.mp (List.append_cancel_left hjoin)
    obtain rfl := List.singleton_inj.mp (List.append_cancel_left haddr)
    exact ⟨(Address.printable_injective haddress).symm, hkey⟩
  · rintro ⟨heq, hkey⟩
    refine ⟨_, _, rfl, rfl, hkey, ?_, rfl, ?_⟩
    · rw [Address.unprintable_printable, heq]
      exact hstake
    · rw [heq]

/-- **When the genesis rows name the right owners.** For every genesis block whose `stakeAddress`
verifies for its `validatorKey`, integrated and committed in any state: exactly when `creator` is
that same address and the key has no byte that is escaped in a literal. -/
theorem genesis_owners_iff (o : OpenSsl) (w : System) (c : Call) (g : Genesis)
    (hdata : c.data = .genesis g) (hres : (w.call o c).result = .success)
    (hcom : (w.call o c).committed = true)
    (hstake : Address.verify o g.stakeAddress g.validatorKey = true) :
    GenesisOwners o g w.db (w.call o c).db ↔
      g.creator = g.stakeAddress ∧ ∀ b ∈ g.validatorKey, Binary.isBinary b = false := by
  rw [db_of_genesis_success hdata hres hcom]
  exact genesisOwners_genesisRows_iff hstake

/-- DER with digests that are constant, so that addresses can be written down. -/
def flatOssl : OpenSsl := der (fun _ => List.replicate 32 0) fun _ => List.replicate 32 0

/-- The address `flatOssl` gives for a one-byte pattern of salt, whatever the key. -/
def flatAddress (b : UInt8) : Bytes := List.replicate 6 b ++ List.replicate 20 0

/-- A genesis block with a coin wallet and a validator, whose addresses differ in the salt. -/
def twoOwners : Genesis :=
  { creator := flatAddress 2, validatorKey := [0x41], stakeAddress := flatAddress 1
    greed := { coins := 1 } }

theorem verify_twoOwners :
    Address.verify flatOssl twoOwners.stakeAddress twoOwners.validatorKey = true := by
  decide

theorem genesisFits_twoOwners : GenesisFits twoOwners {} where
  coins := by decide
  fluffs := by decide
  validatorJoins r hr := by cases hr
  wallets r hr := by cases hr
  walletAddresses r hr := by cases hr
  importedBlocks r hr := by cases hr

/-- The call that integrates `twoOwners`. -/
def twoOwnersCall : Call := Call.genesis {} twoOwners

theorem twoOwnersCall_success (o : OpenSsl) :
    ((System.fresh {}).call o twoOwnersCall).result = .success ∧
      ((System.fresh {}).call o twoOwnersCall).committed = true := by
  have ht : Taken o (System.fresh {}) twoOwnersCall (genesisRows o twoOwners {}) :=
    taken_genesis o genesisFits_twoOwners rfl rfl fun _ => rfl
  exact ⟨ht.result, ht.committed⟩

theorem genesis_owners_iff_twoOwners :
    GenesisOwners flatOssl twoOwners (System.fresh {}).db
        ((System.fresh {}).call flatOssl twoOwnersCall).db ↔
      twoOwners.creator = twoOwners.stakeAddress ∧
        ∀ b ∈ twoOwners.validatorKey, Binary.isBinary b = false :=
  genesis_owners_iff flatOssl (System.fresh {}) twoOwnersCall twoOwners rfl
    (twoOwnersCall_success flatOssl).1 (twoOwnersCall_success flatOssl).2 verify_twoOwners

/-- The validator gets the wallet's address, and the wallet the validator's. -/
theorem twoOwners_rows_swapped :
    ¬ GenesisOwners flatOssl twoOwners (System.fresh {}).db
      ((System.fresh {}).call flatOssl twoOwnersCall).db := by
  obtain ⟨hres, hcom⟩ := twoOwnersCall_success flatOssl
  rw [db_of_genesis_success rfl hres hcom,
    genesisOwners_genesisRows_iff verify_twoOwners]
  exact fun h => absurd h.1 (by decide)

end Fluffycoin
