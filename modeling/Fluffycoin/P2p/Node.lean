import Fluffycoin.Alg.WalletLoad
import Fluffycoin.Svc.Service
import Fluffycoin.Utils.ArgParser
import Fluffycoin.Utils.FileTools

/-!
# A p2p service

Model of `p2p::P2pServiceParams` (`src/services/p2p/core/P2pServiceParams.cpp`) and `p2p::StakeKey`
(`src/services/p2p/auth/StakeKey.cpp`), in the service that runs them. `setCmdLineArgs` takes the
password of the wallet from the command line or from the environment, which it overwrites;
`preInit` reads the wallet and sets the stake key; `startService` opens the ports with it.

A `Node` is a `Svc.Service` together with its parameters, the environment variable, and the keys
its ports were opened with. It goes through the stages of `Service::init` like the service does
(`service_run`), and what is left open there is computed: how the arguments and `preInit` come out.
Each round of the main loop finds the file system in a state of its own. A text is its bytes.

`setCmdLineArgs` masks the argument `wallet-address`, which no option is called, so that nothing is
masked; this is left out. A `std::string` that has been moved is empty, as with libstdc++.

`run_induction` is the rule for invariants: it is enough to look at the stages, of which `preInit`
comes after the arguments and `startService` after `preInit`.
-/

namespace Fluffycoin

namespace P2p

open Fluffycoin.Alg Fluffycoin.Ossl
open Fluffycoin.Svc (Service ServiceParams Stage Round)

/-- `p2p::StakeKey`. -/
structure StakeKey (K : Type) where
  address : List Char := []
  key : Option K := none
  pub : Bytes := []
  priv : Bytes := []

/-- The wallet file, if the arguments do not name one. -/
def defaultWalletFile : List Char := "~/.fluffycoin/wallet.json".toList

/-- `P2pServiceParams`, as its constructor leaves it. -/
structure P2pServiceParams (K : Type) where
  stakeKey : StakeKey K := {}
  walletFile : List Char := defaultWalletFile
  walletPassword : Bytes := []
  stakeAddress : List Char := []

variable {K : Type} (c : Keys K) (t : Json.Text Bytes)

/-- `StakeKey::setKey`, which sets all members. -/
def StakeKey.setKey (address : List Char) (key : Option K) : StakeKey K :=
  match key with
  | some k => { address, key, pub := c.toPublic k, priv := Curve25519.toPrivate c k }
  | none => { address, key, pub := [], priv := [] }

namespace P2pServiceParams

/-- `P2pServiceParams::setCmdLineArgs`, with the environment variable before and after. -/
def setCmdLineArgs (p : P2pServiceParams K) (args : Args) (env : Option Bytes) :
    P2pServiceParams K × Option Bytes :=
  let p :=
    if args.hasArg "wallet".toList then { p with walletFile := args.getArg "wallet".toList } else p
  let p :=
    if args.hasArg "stake-address".toList then
      { p with stakeAddress := args.getArg "stake-address".toList }
    else p
  if args.hasArg "wallet-password".toList then
    ({ p with walletPassword := (args.getArg "wallet-password".toList).map Char.toUInt8 }, env)
  else
    match env with
    | some pw => ({ p with walletPassword := pw }, some [])
    | none => (p, none)

/-- `P2pServiceParams::getServerKey`. -/
def getServerKey (p : P2pServiceParams K) : Bytes := p.stakeKey.priv

/-- The key that `preInit` takes out of a wallet, and its address. -/
def findKey (p : P2pServiceParams K) (stakeWallet : Alg.Wallet) : Option K × List Char :=
  if p.stakeAddress ≠ [] then (stakeWallet.getKey c p.stakeAddress, p.stakeAddress)
  else (stakeWallet.getLatestKey c .validator, stakeWallet.getLatestAddress .validator)

/-- `P2pServiceParams::preInit`. -/
def preInit (p : P2pServiceParams K) (paused : Bool) (fs : FileSystem) :
    Bool × P2pServiceParams K :=
  if paused then (true, p)
  else
    -- Read in wallet data
    match FileTools.read fs p.walletFile with
    | none => (false, p)
    | some walletContents =>
      -- Parse wallet
      let (ok, stakeWallet) := ({} : Alg.Wallet).setString c t walletContents p.walletPassword
      if !ok then (false, p)
      else
        -- Find stake key
        let (key, stakeAddress) := p.findKey c stakeWallet
        if stakeAddress = [] ∨ key.isNone then (false, { p with stakeAddress })
        else (true, { p with stakeAddress := [], stakeKey := .setKey c stakeAddress key })

end P2pServiceParams

/-- What `Service` asks of the parameters. -/
def serviceParams (paused : Bool) : ServiceParams := ⟨0x4663, 0x4643, paused⟩

/-- A p2p service. -/
structure Node (K : Type) where
  service : Service := {}
  params : P2pServiceParams K := {}
  /-- The environment variable `FLUFFYCOIN_WALLET_PASSWORD`. -/
  env : Option Bytes
  /-- The server keys `startService` was called with. -/
  ports : List Bytes := []

namespace Node

section Machine

variable (args : Option Args) (paused : Bool)

/-- One stage. -/
def call (n : Node K) (o : Round) (fs : FileSystem) : Stage → Bool × Node K
  | .args =>
    match args with
    | none => (true, n)
    | some args =>
      let r := n.service.call (serviceParams paused) { o with args := !args.bError } .args
      let (params, env) := n.params.setCmdLineArgs args n.env
      (r.1, { n with service := r.2, params, env })
  | .preInit =>
    let r := n.params.preInit c t paused fs
    (r.1, { n with params := r.2 })
  | .start =>
    let r := n.service.call (serviceParams paused) o .start
    (r.1, { n with service := r.2, ports := n.ports ++ [n.params.getServerKey] })
  | stage =>
    let r := n.service.call (serviceParams paused) o stage
    (r.1, { n with service := r.2 })

def record (n : Node K) (stage : Stage) (ok : Bool) : Node K :=
  { n with service := n.service.record stage ok }

/-- The `&&` of the stages of `Service::init`. -/
def initFrom (o : Round) (fs : FileSystem) : List Stage → Node K → Bool × Node K
  | [], n => (true, n)
  | stage :: stages, n =>
    if n.service.done stage then initFrom o fs stages n
    else
      let (ok, n) := n.call c t args paused o fs stage
      let n := n.record stage ok
      if ok then initFrom o fs stages n else (false, n)

/-- An event of the service, and the file system it finds. -/
abbrev Event := Service.Act × FileSystem

def step (n : Node K) : Event → Node K
  | (.turn o, fs) =>
    if n.service.phase = .looping ∧ n.service.status = .running then
      (n.initFrom c t args paused o fs Stage.order).2
    else { n with service := n.service.step (serviceParams paused) (.turn o) }
  | (a, _) => { n with service := n.service.step (serviceParams paused) a }

/-- A service started in an environment, after some events. -/
def run (env : Option Bytes) (events : List Event) : Node K :=
  Trace.final (step c t args paused) id { env } events

end Machine

/-! ## The service in it -/

/-- A round in which a stage comes out like this. -/
def settle (o : Round) (ok : Bool) : Stage → Round
  | .args => { o with args := ok }
  | .preInit => { o with preInit := ok }
  | _ => o

section Service

variable {params : ServiceParams}

theorem call_settle {stage stage' : Stage} (h : stage' ≠ stage) (s : Service) (o : Round)
    (ok : Bool) : s.call params (settle o ok stage) stage' = s.call params o stage' := by
  cases stage with
  | args =>
    cases stage' with
    | args => exact absurd rfl h
    | _ => rfl
  | preInit =>
    cases stage' with
    | preInit => exact absurd rfl h
    | _ => rfl
  | _ => rfl

theorem initFrom_settle {stage : Stage} {stages : List Stage} (h : stage ∉ stages) (s : Service)
    (o : Round) (ok : Bool) :
    Service.initFrom params (settle o ok stage) stages s = Service.initFrom params o stages s := by
  induction stages generalizing s with
  | nil => rfl
  | cons stage' stages ih =>
    obtain ⟨hne, hstages⟩ := not_or.mp (mt List.mem_cons.mpr h)
    simp only [Service.initFrom, call_settle (Ne.symm hne), ih hstages]

end Service

variable {c t} {args : Option Args} {paused : Bool} {n : Node K} {o : Round} {fs : FileSystem}

/-- What a stage is for the service. -/
theorem service_call (stage : Stage) {o' : Round} (hstart : o'.start = o.start)
    (hpostInit : o'.postInit = o.postInit) :
    n.service.call (serviceParams paused)
        (settle o' (n.call c t args paused o fs stage).1 stage) stage =
      ((n.call c t args paused o fs stage).1, (n.call c t args paused o fs stage).2.service) := by
  cases stage with
  | args => cases args <;> rfl
  | start => simp only [Service.call, call, settle, hstart]
  | postInit => simp only [Service.call, call, settle, hpostInit]
  | _ => rfl

variable (c t args paused o fs) in
/-- A round of the node is a round of its service. -/
theorem service_initFrom (n : Node K) {stages : List Stage} (hnodup : stages.Nodup) :
    ∃ o' : Round, o'.start = o.start ∧ o'.postInit = o.postInit ∧
      Service.initFrom (serviceParams paused) o' stages n.service =
        ((n.initFrom c t args paused o fs stages).1,
          (n.initFrom c t args paused o fs stages).2.service) := by
  induction stages generalizing n with
  | nil => exact ⟨o, rfl, rfl, rfl⟩
  | cons stage stages ih =>
    obtain ⟨hmem, hnodup⟩ := List.nodup_cons.mp hnodup
    cases hdone : n.service.done stage with
    | true =>
      obtain ⟨o', hstart, hpostInit, heq⟩ := ih n hnodup
      refine ⟨o', hstart, hpostInit, ?_⟩
      rw [Service.initFrom, initFrom, if_pos hdone, if_pos hdone]
      exact heq
    | false =>
      obtain ⟨o', hstart, hpostInit, heq⟩ := ih
        ((n.call c t args paused o fs stage).2.record stage (n.call c t args paused o fs stage).1)
        hnodup
      refine ⟨settle o' (n.call c t args paused o fs stage).1 stage, ?_, ?_, ?_⟩
      · cases stage <;> exact hstart
      · cases stage <;> exact hpostInit
      · rw [Service.initFrom, initFrom, if_neg (Bool.eq_false_iff.mp hdone),
          if_neg (Bool.eq_false_iff.mp hdone), service_call stage hstart hpostInit]
        simp only [initFrom_settle hmem]
        split
        · exact heq
        · rfl

/-- **The node is a service.** -/
theorem service_run (env : Option Bytes) (events : List Event) :
    ∃ acts, (run c t args paused env events).service = Service.run (serviceParams paused) acts := by
  refine Trace.invariant_prefix (step c t args paused) id
    (fun n _ => ∃ acts, n.service = Service.run (serviceParams paused) acts) (fun _ _ => True)
    (fun n _ e hn _ => ?_) ⟨[], rfl⟩ (fun _ _ _ => trivial) (List.prefix_refl events)
  obtain ⟨acts, hacts⟩ := hn
  have hstep (a : Service.Act) :
      n.service.step (serviceParams paused) a =
        Service.run (serviceParams paused) (acts ++ [a]) := by
    rw [hacts, Service.run, Service.run, Trace.final_append]
    rfl
  obtain ⟨a, fs⟩ := e
  cases a with
  | turn o =>
    by_cases hloop : n.service.phase = .looping ∧ n.service.status = .running
    · obtain ⟨o', -, -, heq⟩ := service_initFrom c t args paused o fs n
        (by decide : Stage.order.Nodup)
      refine ⟨acts ++ [.turn o'], ?_⟩
      rw [← hstep]
      simp only [step, hloop, and_self, if_true, id, Service.step, Service.init, heq]
    · refine ⟨acts ++ [.turn o], ?_⟩
      rw [← hstep]
      simp only [step, hloop, if_false, id]
  | setStatus code => exact ⟨_, hstep (.setStatus code)⟩
  | sigint => exact ⟨_, hstep .sigint⟩
  | sigterm => exact ⟨_, hstep .sigterm⟩

/-! ## Rules for runs -/

theorem done_call (stage : Stage) :
    (n.call c t args paused o fs stage).2.service.done = n.service.done := by
  have hservice : (n.service.call (serviceParams paused)
      (settle o (n.call c t args paused o fs stage).1 stage) stage).2 =
        (n.call c t args paused o fs stage).2.service :=
    congrArg Prod.snd (service_call stage rfl rfl)
  rw [← hservice]
  exact (Service.call_frame ..).1

/-- The flags after a stage. -/
theorem done_record (stage stage' : Stage) :
    ((n.call c t args paused o fs stage).2.record stage
        (n.call c t args paused o fs stage).1).service.done stage' =
      if stage' = stage then (n.call c t args paused o fs stage).1 else n.service.done stage' := by
  show Function.update (n.call c t args paused o fs stage).2.service.done stage
    (n.call c t args paused o fs stage).1 stage' = _
  rw [Function.update_apply, done_call]

/-- What the order of the stages has before `preInit` and before `startService`. -/
theorem order_suffix {stages : List Stage} (h : stages <:+ Stage.order) :
    (stages.head? = some .preInit → .args ∉ stages) ∧
      (stages.head? = some .start → .preInit ∉ stages) := by
  have hall : ∀ stages ∈ Stage.order.tails, (stages.head? = some .preInit → .args ∉ stages) ∧
      (stages.head? = some .start → .preInit ∉ stages) := by decide
  exact hall stages ((List.mem_tails _ _).mpr h)

/-- What the stages keep, a round keeps. Arguments come before `preInit`, and that before the ports.
-/
theorem initFrom_induction {P : Node K → Prop}
    (hcall : ∀ n stage, P n → n.service.done stage = false →
      (stage = .preInit → n.service.done .args = true) →
      (stage = .start → n.service.done .preInit = true) →
      P ((n.call c t args paused o fs stage).2.record stage
        (n.call c t args paused o fs stage).1))
    {stages : List Stage} (hstages : stages <:+ Stage.order)
    (hdone : ∀ stage ∈ Stage.order, stage ∉ stages → n.service.done stage = true) (h : P n) :
    P (n.initFrom c t args paused o fs stages).2 := by
  induction stages generalizing n with
  | nil => exact h
  | cons stage stages ih =>
    have hrest : stages <:+ Stage.order := (List.suffix_cons stage stages).trans hstages
    rw [initFrom]
    cases hstage : n.service.done stage with
    | true =>
      refine ih hrest (fun stage' hmem hnot => ?_) h
      by_cases heq : stage' = stage
      · rw [heq]
        exact hstage
      · exact hdone stage' hmem fun hcons => (List.mem_cons.mp hcons).elim heq hnot
    | false =>
      have hnext := hcall n stage h hstage
        (fun heq => hdone .args (by decide) ((order_suffix hstages).1 (congrArg some heq)))
        (fun heq => hdone .preInit (by decide) ((order_suffix hstages).2 (congrArg some heq)))
      simp only [Bool.false_eq_true, if_false]
      split
      · rename_i hok
        refine ih hrest (fun stage' hmem hnot => ?_) hnext
        rw [done_record]
        split
        · exact hok
        · rename_i heq
          exact hdone stage' hmem fun hcons => (List.mem_cons.mp hcons).elim heq hnot
      · exact hnext

/-- Only a round of the main loop calls stages. -/
theorem step_frame {params : ServiceParams} {s : Service} {a : Service.Act}
    (h : ∀ o, a = .turn o → ¬ (s.phase = .looping ∧ s.status = .running)) :
    (s.step params a).done = s.done ∧ (s.step params a).starts = s.starts := by
  have hterminate : s.terminate.done = s.done ∧ s.terminate.starts = s.starts := by
    obtain ⟨phase, heq, -⟩ := s.terminate_eq
    rw [heq]
    exact ⟨rfl, rfl⟩
  cases a with
  | turn o =>
    simp only [Service.step]
    split
    · rename_i hphase
      rw [if_neg fun hstatus => h o rfl ⟨hphase, hstatus⟩]
      exact ⟨rfl, rfl⟩
    · exact ⟨rfl, rfl⟩
    · exact ⟨rfl, rfl⟩
  | setStatus code => exact ⟨rfl, rfl⟩
  | sigint =>
    simp only [Service.step]
    split_ifs
    · exact ⟨rfl, rfl⟩
    · exact ⟨rfl, rfl⟩
    · exact ⟨rfl, rfl⟩
    · exact hterminate
  | sigterm =>
    simp only [Service.step]
    split_ifs
    · exact ⟨rfl, rfl⟩
    · exact hterminate

/-- **What the stages keep, a run keeps**, if it does not depend on the rest of the service. -/
theorem run_induction {P : Node K → Prop} {env : Option Bytes} {events : List Event}
    (hinitial : P { env })
    (hservice : ∀ n s, P n → s.done = n.service.done → s.starts = n.service.starts →
      P { n with service := s })
    (hcall : ∀ n o e stage, e ∈ events → P n → n.service.done stage = false →
      (stage = .preInit → n.service.done .args = true) →
      (stage = .start → n.service.done .preInit = true) →
      P ((n.call c t args paused o e.2 stage).2.record stage
        (n.call c t args paused o e.2 stage).1)) :
    P (run c t args paused env events) := by
  refine Trace.invariant_along P (fun n e hn he => ?_) hinitial
    (Trace.along_of_forall (C := fun _ e => e ∈ events) fun e he _ => he)
    (List.prefix_refl events)
  obtain ⟨a, fs⟩ := e
  have hframe (h : ∀ o, a = .turn o →
      ¬ (n.service.phase = .looping ∧ n.service.status = .running)) :
      P { n with service := n.service.step (serviceParams paused) a } :=
    hservice n _ hn (step_frame h).1 (step_frame h).2
  cases a with
  | turn o =>
    simp only [step, id]
    split
    · exact initFrom_induction (fun n stage hn => hcall n o _ stage he hn) (List.suffix_refl _)
        (fun stage hmem hnot => absurd hmem hnot) hn
    · rename_i hnot
      exact hframe fun _ _ => hnot
  | setStatus code => exact hframe fun o h => by cases h
  | sigint => exact hframe fun o h => by cases h
  | sigterm => exact hframe fun o h => by cases h

end Node

end P2p

end Fluffycoin
