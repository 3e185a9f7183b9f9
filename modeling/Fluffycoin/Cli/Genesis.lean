import Fluffycoin.Alg.WalletFile
import Fluffycoin.Curator.LoadOrder

/-!
# `fluffycoin-genesis`

Model of `src/cli/genesis.cpp`, from the parsed arguments on: the wallet is opened, a validator key
and a coin key are made, and the genesis block and the first reconciliation block are signed and
written. The text of the file names and of the messages is left out; a block is written under its
index.

* `Args`, `Surroundings`: the arguments, and what the run gets from the terminal, the file system,
  the clock and the generator.
* `openWallet`, `makeKeys`, `makeGenesis`, `makeReconciliation`: the steps of `main`.
* `prepare` is `main` up to the first file, `main` the whole run.

`makeNewKey` does not say whether it added the key. When it did not, `getLatestKey` may have nothing
to return and `main` dereferences it (`genesis.cpp:215`), which is the outcome `nullKey`.

The curator reads the two files back as other objects: it decodes them, copies them and encodes the
genesis block again to hash it. **`new_chain_boots`** says that nothing is lost on the way.
-/

namespace Fluffycoin.Cli

open Std (ExtTreeMap)
open Fluffycoin.Ossl DbIntegrator
open BlockIntegrator (Submission)

/-- `alg::PROTOCOL_VERSION`. -/
def protocolVersion : UInt32 := 0

/-- `alg::BLOCKCHAIN_NAME`. -/
def blockchainName : Bytes := "Fluffycoin".toList.map fun ch => ch.toNat.toUInt8

/-- `alg::BLOCKCHAIN_VERSION`. -/
def blockchainVersion : UInt32 := 0

/-- `GREED_MINIMUM`. -/
def greedMinimum : UInt64 := 2

/-- `FIRST_RECON`. -/
def firstRecon : UInt32 := 1

/-- The exit codes of `main`, and the null pointer. -/
inductive Code
  | success
  | argumentInvalid
  | readWallet
  | getPassword
  | decryptWallet
  | makeKey
  | createOutputDir
  | writeBlock
  | serializeWallet
  | writeWallet
  | nullKey
  deriving DecidableEq, Repr

/-- The arguments in use: the value of `greed`, if there is one, and whether there is a
`wallet-password`. -/
structure Args where
  greed : Option UInt64 := none
  seed : Bytes := []
  walletSalt : List Char := []
  walletPassword : Bool := false

/-- What the run gets from outside. -/
structure Surroundings (K T : Type) where
  /-- The wallet file, if it exists, with its contents, if it can be read. -/
  walletFile : Option (Option T)
  /-- What `readPassword` gave. -/
  prompt : Option Bytes
  validatorKey : Option K
  validatorDraws : Alg.Wallet.Draws
  specieKey : Option K
  specieDraws : Alg.Wallet.Draws
  now : UInt64
  outputDir : Bool
  writes : Nat → Bool
  wrap : Nat → Bytes

variable {K T : Type} (o : OpenSsl) (c : Keys K) (t : Json.Text T)

/-- How many coins to mint (`genesis.cpp:116, 136-137`). -/
def Args.coins (args : Args) : UInt64 := args.greed.getD 1000

/-- The password and the wallet (`genesis.cpp:146-177`). The password argument is looked up under a
name no argument has. -/
def openWallet [DecidableEq T] (args : Args) (env : Surroundings K T) :
    Except Code (Bytes × Alg.Wallet) := do
  let walletContents ←
    match env.walletFile with
    | none => .ok t.empty
    | some none => .error .readWallet
    | some (some contents) => .ok contents
  let password ←
    if args.walletPassword then .ok []
    else
      match env.prompt with
      | none => .error .getPassword
      | some password => .ok password
  if walletContents = t.empty then .ok (password, {})
  else
    match Alg.Wallet.setString c t {} walletContents password with
    | (false, _) => .error .decryptWallet
    | (true, wallet) => .ok (password, wallet)

/-- The two new keys (`genesis.cpp:179-189`). -/
def makeKeys (args : Args) (env : Surroundings K T) (wallet : Alg.Wallet) :
    Except Code Alg.Wallet :=
  match wallet.makeNewKey o c env.validatorDraws env.validatorKey .validator args.walletSalt with
  | (none, _) => .error .makeKey
  | (some _, wallet) =>
    match wallet.makeNewKey o c env.specieDraws env.specieKey .specie args.walletSalt with
    | (none, _) => .error .makeKey
    | (some _, wallet) => .ok wallet

/-- The genesis block (`genesis.cpp:191-204`). -/
def makeGenesis (args : Args) (now : UInt64) (wallet : Alg.Wallet) : Genesis where
  protocol := protocolVersion
  name := blockchainName
  version := blockchainVersion
  creation := now
  creator := wallet.getLatestAddressBin .specie
  validatorKey := wallet.getLatestPublicKey c .validator
  stakeAddress := wallet.getLatestAddressBin .validator
  seed := args.seed
  greed := { coins := args.coins }

/-- The first reconciliation block, with a vote of its own (`genesis.cpp:209-222`). -/
def makeReconciliation (wallet : Alg.Wallet) (key : K) (gen : Genesis) : Reconciliation :=
  let rec' : Reconciliation :=
    { protocol := protocolVersion
      chainId := firstRecon
      shardInfo := [{ hash := Hash.ofData o (gen.encode o), blocks := 0 }]
      leader := wallet.getLatestAddressBin .validator }
  let signature := c.sign key (rec'.toContent o)
  { rec' with
    signature
    votes := [{ verified := true, address := wallet.getLatestAddressBin .validator, signature }] }

/-- What `main` has before it writes. -/
structure Prepared where
  password : Bytes
  wallet : Alg.Wallet
  gen : Genesis
  recon : Reconciliation

/-- `main` up to the output directory. -/
def prepare [DecidableEq T] (args : Args) (env : Surroundings K T) : Except Code Prepared := do
  if args.coins < greedMinimum then .error .argumentInvalid
  else
    let (password, wallet) ← openWallet c t args env
    let wallet ← makeKeys o c args env wallet
    let gen := makeGenesis c args env.now wallet
    match wallet.getLatestKey c .validator with
    | none => .error .nullKey
    | some key => .ok ⟨password, wallet, gen, makeReconciliation o c wallet key gen⟩

/-- How a run ended, and what it wrote. -/
structure Output (T : Type) where
  code : Code
  blocks : List (Index × Bytes) := []
  wallet : Option T := none

/-- The files of the two blocks. -/
def Prepared.files (p : Prepared) : List (Index × Bytes) :=
  [(⟨0, 0, 0⟩, Block.encode o (.genesis p.gen)),
    (⟨firstRecon, 0, 0⟩, Block.encode o (.reconciliation p.recon))]

/-- `main`. -/
def main [DecidableEq T] (args : Args) (env : Surroundings K T) : Output T :=
  match prepare o c t args env with
  | .error code => { code }
  | .ok p =>
    let blocks := p.files o
    if !env.outputDir then { code := .createOutputDir }
    else if !env.writes 0 then { code := .writeBlock }
    else if !env.writes 1 then { code := .writeBlock, blocks := blocks.take 1 }
    else
      let walletData := p.wallet.getString c t env.wrap p.password
      if walletData = t.empty then { code := .serializeWallet, blocks }
      else if !env.writes 2 then { code := .writeWallet, blocks }
      else { code := .success, blocks, wallet := some walletData }

variable {o c t} {args : Args} {env : Surroundings K T}

/-! ## The blocks as they are read back -/

/-- The digests of `SHA2-256` and `SHA3-256`. -/
structure Digests (o : OpenSsl) : Prop where
  sha2 : ∀ data, (o.sha2_256 data).length = 32
  sha3 : ∀ data, (o.sha3_256 data).length = 32

theorem Digests.fits (hd : Digests o) (data : Bytes) : (Hash.ofData o data).Fits := by
  constructor
  · show (o.sha2_256 data).length < 2 ^ 31 - 1
    rw [hd.sha2]
    decide
  · show (o.sha3_256 data).length < 2 ^ 31 - 1
    rw [hd.sha3]
    decide

theorem Digests.truncated (hd : Digests o) (data : Bytes) :
    Address.truncatedHashLen ≤ (o.sha2_256 data).length := by
  rw [hd.sha2]
  decide

/-- What the arguments and the clock have to be like for the blocks to keep them. -/
structure InRange (args : Args) (env : Surroundings K T) : Prop where
  coins : args.coins.toNat < 2 ^ 63
  now : env.now.toNat < 2 ^ 63

/-- A seed or an address too long for ASN.1 is lost in the file, but the hash of the genesis block
is that of its encoding, which is the same before and after. -/
theorem encode_readBack (hr : InRange args env) (w : Alg.Wallet) :
    (Genesis.fromAsn1 ((makeGenesis c args env.now w).toAsn1 default)).encode o =
      (makeGenesis c args env.now w).encode o :=
  congrArg o.genesis.i2d
    (Genesis.toAsn1_fromAsn1_toAsn1 (toUInt64_fromUInt64 hr.now) (toUInt64_fromUInt64 hr.coins) _)

/-- Less than all coins are staked, so they fit the column. -/
theorem genesisFits_readBack (hmin : ¬ args.coins < greedMinimum) (hr : InRange args env)
    (w : Alg.Wallet) :
    GenesisFits (Genesis.fromAsn1 ((makeGenesis c args env.now w).toAsn1 default)) {} where
  coins := by
    have hle : greedMinimum ≤ args.coins := UInt64.not_lt.mp hmin
    have hone : (1 : UInt64) ≤ args.coins := UInt64.le_trans (by decide) hle
    have hcoins := hr.coins
    show (toUInt64 (fromUInt64 args.coins) - 1).toNat < 2 ^ 63
    rw [toUInt64_fromUInt64 hcoins, UInt64.toNat_sub_of_le _ _ hone]
    omega
  fluffs := by
    show (toUInt32 (fromUInt32 0)).toNat < 2 ^ 31
    rw [toUInt32_fromUInt32]
    decide
  validatorJoins _ h := by cases h
  wallets _ h := by cases h
  walletAddresses _ h := by cases h
  importedBlocks _ h := by cases h

/-- The reconciliation block follows the genesis block, as they are read back. -/
theorem succeeds_readBack (hd : Digests o) (hr : InRange args env) (w : Alg.Wallet) (key : K) :
    Succeeds o (Genesis.fromAsn1 ((makeGenesis c args env.now w).toAsn1 default))
      (Reconciliation.fromAsn1
        ((makeReconciliation o c w key (makeGenesis c args env.now w)).toAsn1 default)) where
  chainId := by
    simp only [Reconciliation.fromAsn1, Reconciliation.toAsn1, toUInt32_fromUInt32]
    rfl
  shardInfo := by
    have hfits : ReconciliationShardInfo.Fits
        { hash := Hash.ofData o ((makeGenesis c args env.now w).encode o), blocks := 0 } :=
      hd.fits _
    simp only [Reconciliation.fromAsn1, Reconciliation.toAsn1, makeReconciliation, fromStack,
      toStack, List.map_cons, List.map_nil, id_eq, Block.importHash, encode_readBack hr,
      ReconciliationShardInfo.fromAsn1_toAsn1 hfits]

/-! ## What is written -/

/-- The keys can be generated and the files written. -/
structure Surroundings.Ok (env : Surroundings K T) : Prop where
  validatorKey : env.validatorKey.isSome
  specieKey : env.specieKey.isSome
  outputDir : env.outputDir = true
  writes : ∀ n, env.writes n = true

/-- The validator key is found again behind the coin key. -/
theorem exists_makeKeys (args : Args) (hc : c.Laws) (hd : Digests o) (henv : env.Ok)
    {w : Alg.Wallet} (hiters : KdfIters w.kdfIters) :
    ∃ w' key, makeKeys o c args env w = .ok w' ∧ w'.getLatestKey c .validator = some key := by
  obtain ⟨kv, hkv⟩ := Option.isSome_iff_exists.mp henv.validatorKey
  obtain ⟨ks, hks⟩ := Option.isSome_iff_exists.mp henv.specieKey
  obtain ⟨w₁, e₁, hmake₁, hkeys₁, hpassword₁, hiters₁, h₁⟩ := Alg.Wallet.makeNewKey_adds hc
    hd.truncated hiters env.validatorDraws kv .validator args.walletSalt
  obtain ⟨w₂, e₂, hmake₂, hkeys₂, hpassword₂, _, h₂⟩ := Alg.Wallet.makeNewKey_adds hc
    hd.truncated (by rwa [hiters₁]) env.specieDraws ks .specie args.walletSalt
  have hsame : w₂.password = w₁.password := by
    have hne : w₁.password ≠ [] := by
      rw [hpassword₁]
      exact Alg.Wallet.password_opened_ne_nil w env.validatorDraws
    rw [hpassword₂, Alg.Wallet.opened_of_ne_nil hne]
  refine ⟨w₂, kv, ?_, ?_⟩
  · unfold makeKeys
    simp only [hkv, hmake₁, hks, hmake₂]
  · unfold Alg.Wallet.getLatestKey Alg.Wallet.getTopKey
    rw [hkeys₂, hkeys₁, List.find?_cons_of_neg (by simp [h₂.usage]),
      List.find?_cons_of_pos (by simp [h₁.usage]), hsame]
    exact h₁.key

section Main

variable [DecidableEq T]

/-- What `prepare` prepares. -/
structure Made (o : OpenSsl) (c : Keys K) (t : Json.Text T) (args : Args) (env : Surroundings K T)
    (p : Prepared) (w : Alg.Wallet) (key : K) : Prop where
  min : ¬ args.coins < greedMinimum
  opened : openWallet c t args env = .ok (p.password, w)
  keys : makeKeys o c args env w = .ok p.wallet
  latest : p.wallet.getLatestKey c .validator = some key
  gen : p.gen = makeGenesis c args env.now p.wallet
  recon : p.recon = makeReconciliation o c p.wallet key p.gen

theorem prepare_eq_ok_iff {p : Prepared} :
    prepare o c t args env = .ok p ↔ ∃ w key, Made o c t args env p w key := by
  unfold prepare
  constructor
  · intro h
    split at h
    · cases h
    · rename_i hmin
      cases hopen : openWallet c t args env with
      | error code =>
        rw [hopen] at h
        cases h
      | ok r =>
        obtain ⟨password, w⟩ := r
        rw [hopen] at h
        cases hkeys : makeKeys o c args env w with
        | error code =>
          simp only [bind, Except.bind, hkeys] at h
          cases h
        | ok w' =>
          simp only [bind, Except.bind, hkeys] at h
          cases hkey : w'.getLatestKey c .validator with
          | none =>
            rw [hkey] at h
            cases h
          | some key =>
            rw [hkey] at h
            cases h
            exact ⟨w, key, hmin, hopen, hkeys, hkey, rfl, rfl⟩
  · rintro ⟨w, key, hmin, hopen, hkeys, hkey, hgen, hrecon⟩
    rw [if_neg hmin, hopen]
    simp only [bind, Except.bind, hkeys, hkey]
    rw [← hgen, ← hrecon]

/-- Two blocks are only written when both were prepared. -/
theorem exists_prepared {a b : Index × Bytes} (h : (main o c t args env).blocks = [a, b]) :
    ∃ p, prepare o c t args env = .ok p ∧ [a, b] = p.files o := by
  unfold main at h
  cases hp : prepare o c t args env with
  | error code =>
    rw [hp] at h
    cases h
  | ok p =>
    rw [hp] at h
    refine ⟨p, rfl, ?_⟩
    simp only at h
    split at h
    · cases h
    · split at h
      · cases h
      · split at h
        · cases h
        · split at h
          · exact h.symm
          · split at h
            · exact h.symm
            · exact h.symm

/-- Both blocks are written. -/
theorem length_blocks (hc : c.Laws) (hd : Digests o) (henv : env.Ok)
    (hmin : ¬ args.coins < greedMinimum) {password : Bytes} {w : Alg.Wallet}
    (hopen : openWallet c t args env = .ok (password, w)) (hiters : KdfIters w.kdfIters) :
    (main o c t args env).blocks.length = 2 := by
  obtain ⟨w', key, hkeys, hkey⟩ := exists_makeKeys args hc hd henv hiters
  have hp : prepare o c t args env = .ok ⟨password, w', makeGenesis c args env.now w',
      makeReconciliation o c w' key (makeGenesis c args env.now w')⟩ :=
    prepare_eq_ok_iff.mpr ⟨w, key, hmin, hopen, hkeys, hkey, rfl, rfl⟩
  unfold main
  rw [hp]
  simp only [henv.outputDir, henv.writes, Bool.not_true, Bool.false_eq_true, if_false]
  split
  · rfl
  · rfl

/-! ## What the curator makes of it -/

/-- The files, as calls of `addBlock`. -/
def submission (file : Index × Bytes) : Submission := ⟨file.2, file.1⟩

/-- Both blocks have been integrated and nothing is pending. -/
structure Booted (o : OpenSsl) (g : Genesis) (r : Reconciliation) (q : BlockIntegrator Host) :
    Prop where
  integrated : q.dbIntegrator.integrated =
    [(⟨0, 0, 0⟩, .genesis g), (⟨1, 0, 0⟩, .reconciliation r)]
  currentRecon : q.dbIntegrator.system.integrator.currentRecon = 2
  pending : q.pendingRecons = ∅
  lastImports : ∀ shard : UInt32, q.dbIntegrator.system.integrator.lastImports[shard]? =
    if shard = 0 then some { block := 0, hash := Hash.ofData o (r.toContent o) } else none

/-- Once the two blocks of a chain have been loaded, in any order. -/
theorem booted_of_loaded {g : Genesis} {r : Reconciliation}
    (hl : Loads o {} [.genesis g, .reconciliation r]) {order : List Nat}
    (horder : ∀ n ∈ order, n < 2) {q : BlockIntegrator Host}
    (h : Loaded o {} [.genesis g, .reconciliation r] order 2 q) : Booted o g r q where
  integrated := h.integrated
  currentRecon := UInt32.toNat_inj.mp h.currentRecon
  pending := by
    refine h.clean.ext PendingRecons.clean_empty fun i => ?_
    rw [PendingRecons.lookup_empty]
    refine Option.eq_none_iff_forall_ne_some.mpr fun d hd => ?_
    obtain ⟨n, hn, hlt, _⟩ := (h.pending i d).mp hd
    exact absurd (horder n hn) (by omega)
  lastImports := by
    intro shard
    have himports := importsOf_some (o := o) (l := [.genesis g, .reconciliation r]) rfl
    rw [h.lastImports hl (Nat.le_refl 2), List.take_of_length_le (Nat.le_refl 2)]
    rw [himports, ExtTreeMap.getElem?_insertIfNew]
    by_cases hshard : shard = 0
    · subst hshard
      simp [Block.importHash]
    · have hne : compare 0 shard ≠ .eq := fun he =>
        hshard (Std.LawfulEqCmp.eq_of_compare he).symm
      simp [hshard, hne]

/-- The two blocks, written and read, are integrated in either order. -/
theorem Made.boots (ho : o.RoundTrips) (hd : Digests o) (hr : InRange args env) {p : Prepared}
    {w : Alg.Wallet} {key : K} (h : Made o c t args env p w key) {envs : Nat → Env}
    (hok : ∀ n, (envs n).toLink.Ok) :
    ∃ g r, decodeBlock o (Block.encode o (.genesis p.gen)) = some (.genesis g) ∧
      decodeBlock o (Block.encode o (.reconciliation p.recon)) = some (.reconciliation r) ∧
      ∀ order : List Nat, order.Perm [0, 1] → Booted o g r (BlockIntegrator.run o envs {}
        (loadCalls (fun n => Block.encode o
          ([.genesis p.gen, .reconciliation p.recon][n]?.getD .none)) order)) := by
  have hgenesis := decodeBlock_encode_genesis_copy ho p.gen
  have hrecon := decodeBlock_encode_reconciliation_copy ho p.recon
    (by rw [h.recon]; exact Nat.le_refl 1)
  have hl : Loads o {} [Block.copyAssign (.genesis p.gen),
      Block.copyAssign (.reconciliation p.recon)] := by
    rw [h.recon, h.gen]
    exact loads_of_succeeds (genesisFits_readBack h.min hr p.wallet)
      (succeeds_readBack hd hr p.wallet key)
  refine ⟨_, _, hgenesis, hrecon, fun order hperm => booted_of_loaded hl (fun n hn => ?_)
    (loaded_run hl hok (fun n b hn => ?_) (hperm.nodup_iff.mpr (by decide)) (fun n hn => ?_)
      (fun hn => ?_) fun n hn => ?_)⟩
  · have := hperm.mem_iff.mp hn
    simp only [List.mem_cons, List.not_mem_nil, or_false] at this
    omega
  · match n, hn with
    | 0, hn =>
      obtain rfl := Option.some.inj hn
      exact hgenesis
    | 1, hn =>
      obtain rfl := Option.some.inj hn
      exact hrecon
  · have := hperm.mem_iff.mp hn
    simp only [List.mem_cons, List.not_mem_nil, or_false] at this
    simp only [List.length_cons, List.length_nil]
    omega
  · have := hperm.mem_iff.mp hn
    simp at this
  · refine hperm.mem_iff.mpr ?_
    simp only [List.mem_cons, List.not_mem_nil, or_false]
    omega

/-- **A new chain boots.** Let `fluffycoin-genesis` run with at least two and less than `2^63`
coins, any seed and a clock below `2^63`. Whenever it writes two blocks, the files are decoded to a
genesis and a reconciliation block, and a `BlockIntegrator` on an empty database, given the two
files in either order with no statement failing, integrates both. It does write them, whichever keys
were generated, when the wallet's number of iterations is one the wrapping takes. -/
theorem new_chain_boots (o : OpenSsl) (ho : o.RoundTrips) (hd : Digests o) (c : Keys K)
    (hc : c.Laws) (t : Json.Text T) (args : Args) (env : Surroundings K T)
    (hr : InRange args env) (hmin : greedMinimum ≤ args.coins) (henv : env.Ok) (password : Bytes)
    (w : Alg.Wallet) (hopen : openWallet c t args env = .ok (password, w))
    (envs : Nat → Env) (hok : ∀ n, (envs n).toLink.Ok) :
    (∀ a b, (main o c t args env).blocks = [a, b] →
      a.1 = ⟨0, 0, 0⟩ ∧ b.1 = ⟨1, 0, 0⟩ ∧
      ∃ g r, decodeBlock o a.2 = some (.genesis g) ∧
        decodeBlock o b.2 = some (.reconciliation r) ∧
        Booted o g r (BlockIntegrator.run o envs {} [submission a, submission b]) ∧
        Booted o g r (BlockIntegrator.run o envs {} [submission b, submission a])) ∧
    (KdfIters w.kdfIters → (main o c t args env).blocks.length = 2) := by
  refine ⟨fun a b hblocks => ?_,
    length_blocks hc hd henv (UInt64.not_lt.mpr hmin) hopen⟩
  obtain ⟨p, hp, hfiles⟩ := exists_prepared hblocks
  obtain ⟨w', key, h⟩ := prepare_eq_ok_iff.mp hp
  obtain ⟨rfl, htail⟩ := List.cons.inj hfiles
  obtain ⟨rfl, _⟩ := List.cons.inj htail
  obtain ⟨g, r, hgenesis, hrecon, hboots⟩ := h.boots ho hd hr hok
  exact ⟨rfl, rfl, g, r, hgenesis, hrecon, hboots [0, 1] (List.Perm.refl _),
    hboots [1, 0] (List.Perm.swap 0 1 [])⟩

end Main

/-- A first run on a machine without a wallet. -/
def firstRun : Surroundings { point : Bytes // point.length = Curve25519.pointLen } Bool where
  walletFile := none
  prompt := some [1]
  validatorKey := some Alg.Wallet.zeroKey
  validatorDraws := Alg.Wallet.zeroDraws
  specieKey := some Alg.Wallet.zeroKey
  specieDraws := Alg.Wallet.zeroDraws
  now := 0
  outputDir := true
  writes _ := true
  wrap _ := []

/-- Documents of which only the empty one can be told apart. -/
def blankText : Json.Text Bool := ⟨false, fun _ => true, fun _ => none⟩

theorem new_chain_boots_firstRun :
    ∃ a b g r, (main Alg.Wallet.zeroDigest plainKeys blankText {} firstRun).blocks = [a, b] ∧
      Booted Alg.Wallet.zeroDigest g r (BlockIntegrator.run Alg.Wallet.zeroDigest (fun _ => {}) {}
        [submission b, submission a]) := by
  have hdigests : Digests Alg.Wallet.zeroDigest :=
    ⟨fun _ => List.length_replicate, fun _ => List.length_replicate⟩
  obtain ⟨hboots, hlength⟩ := new_chain_boots Alg.Wallet.zeroDigest (der_roundTrips _ _) hdigests
    plainKeys plainKeys_laws blankText {} firstRun ⟨by decide, by decide⟩ (by decide)
    ⟨rfl, rfl, rfl, fun _ => rfl⟩ [1] {} rfl (fun _ => {}) fun _ => Link.ok_default
  obtain ⟨a, b, hblocks⟩ := List.length_eq_two.mp (hlength (by decide))
  obtain ⟨_, _, g, r, _, _, _, hbooted⟩ := hboots a b hblocks
  exact ⟨a, b, g, r, hblocks, hbooted⟩

end Fluffycoin.Cli
