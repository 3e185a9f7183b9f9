import Fluffycoin.P2p.Node

/-!
# The stake key of a p2p service

What becomes of the key and of the password in a run of a p2p service (see `P2p/Node.lean`), and in
the process around it, which may start one service after the other (`svc::run`).

## Results

* `guarded_run`: in every run, all ports are opened with one key, the private key of an entry of the
  wallet file as it was in one of the rounds. The ports of a paused service are not protected.
* `no_key_after_restart`: the password from the environment is gone when a service is started again
  in the same process. If the wallet needs one, no later service has a key: one that is not paused
  opens no port, and one that is opens it to everyone.
-/

namespace Fluffycoin

/-- How `zmq::Utils::bindSocket` protects a socket, if the key can be converted
(`zmq/Utils.cpp:38-48`, `133-141`). -/
inductive Zmq.Protection where
  | unprotected
  | invalidKey
  | curve
  deriving DecidableEq, Repr

def Zmq.protection (serverKey : Bytes) : Protection :=
  if serverKey = [] then .unprotected
  else if serverKey.length ≠ 32 then .invalidKey
  else .curve

namespace P2p.Node

open Fluffycoin.Alg Fluffycoin.Ossl
open Fluffycoin.Svc (Service Stage Round)

variable {K : Type} {c : Keys K} {t : Json.Text Bytes} {args : Option Args} {paused : Bool}
  {n : Node K} {o : Round} {fs : FileSystem}

/-! ## The ports -/

/-- What `preInit` does if the service is not paused. -/
theorem preInit_cases (p : P2pServiceParams K) (fs : FileSystem) :
    (∃ contents w key address, FileTools.read fs p.walletFile = some contents ∧
      ({} : Alg.Wallet).setString c t contents p.walletPassword = (true, w) ∧
      p.findKey c w = (some key, address) ∧ address ≠ [] ∧
      p.preInit c t false fs = (true, { p with
        stakeAddress := []
        stakeKey := .setKey c address (some key) })) ∨
    ∃ stakeAddress, p.preInit c t false fs = (false, { p with stakeAddress }) := by
  unfold P2pServiceParams.preInit
  cases hread : FileTools.read fs p.walletFile with
  | none => exact .inr ⟨p.stakeAddress, rfl⟩
  | some contents =>
    rcases hset : ({} : Alg.Wallet).setString c t contents p.walletPassword with ⟨_ | _, w⟩
    · exact .inr ⟨p.stakeAddress, by simp [hset]⟩
    rcases hfind : p.findKey c w with ⟨_ | key, address⟩
    · exact .inr ⟨address, by simp [hset, hfind]⟩
    by_cases haddress : address = []
    · exact .inr ⟨address, by simp [hset, hfind, haddress]⟩
    · exact .inl ⟨contents, w, key, address, rfl, hset, hfind, haddress,
        by simp [hset, hfind, haddress]⟩

variable (c t) in
/-- The stake key is one of the wallet file: the one of the address that was asked for, or the
latest key of a validator. -/
def Found (p : P2pServiceParams K) (fs : FileSystem) : Prop :=
  ∃ contents w address key, FileTools.read fs p.walletFile = some contents ∧
    ({} : Alg.Wallet).setString c t contents p.walletPassword = (true, w) ∧
    p.stakeKey = .setKey c address (some key) ∧
    (w.getKey c address = some key ∨
      w.getLatestAddress .validator = address ∧ w.getLatestKey c .validator = some key)

theorem findKey_found {p : P2pServiceParams K} {w : Alg.Wallet} {key : K} {address : List Char}
    (h : p.findKey c w = (some key, address)) :
    w.getKey c address = some key ∨
      w.getLatestAddress .validator = address ∧ w.getLatestKey c .validator = some key := by
  unfold P2pServiceParams.findKey at h
  split at h
  · obtain ⟨hkey, rfl⟩ := Prod.mk.inj h
    exact .inl hkey
  · obtain ⟨hkey, haddress⟩ := Prod.mk.inj h
    exact .inr ⟨haddress, hkey⟩

/-- What holds of a node whose rounds find some file systems. -/
structure Guard (c : Keys K) (t : Json.Text Bytes) (paused : Bool) (files : FileSystem → Prop)
    (n : Node K) : Prop where
  args : n.service.done .preInit = true → n.service.done .args = true
  found : paused = false → n.service.done .preInit = true → ∃ fs, files fs ∧ Found c t n.params fs
  unset : paused = true → n.params.stakeKey = {}
  ports : ∀ serverKey ∈ n.ports,
    n.service.done .preInit = true ∧ serverKey = n.params.getServerKey
  starts : n.ports.length = n.service.starts.length

section Guard

variable {files : FileSystem → Prop}

/-- Nothing that counts has changed. -/
theorem Guard.of_eq (h : Guard c t paused files n) {n' : Node K} (hparams : n'.params = n.params)
    (hports : n'.ports = n.ports) (hpreInit : n'.service.done .preInit = n.service.done .preInit)
    (hargs : n.service.done .args = true → n'.service.done .args = true)
    (hstarts : n'.service.starts = n.service.starts) : Guard c t paused files n' := by
  refine ⟨fun hdone => ?_, ?_, ?_, ?_, ?_⟩
  · rw [hpreInit] at hdone
    exact hargs (h.args hdone)
  · rw [hpreInit, hparams]
    exact h.found
  · rw [hparams]
    exact h.unset
  · rw [hpreInit, hparams, hports]
    exact h.ports
  · rw [hports, hstarts]
    exact h.starts

/-- No port has been opened before `preInit` has succeeded. -/
theorem Guard.ports_eq_nil (h : Guard c t paused files n)
    (hdone : n.service.done .preInit = false) : n.ports = [] := by
  refine List.eq_nil_iff_forall_not_mem.mpr fun serverKey hmem => ?_
  rw [(h.ports serverKey hmem).1] at hdone
  cases hdone

theorem starts_call {stage : Stage} (hstage : stage ≠ .start) :
    (n.call c t args paused o fs stage).2.service.starts = n.service.starts := by
  cases stage with
  | args =>
    cases args with
    | none => rfl
    | some args =>
      simp only [call, Service.call]
      split <;> rfl
  | start => exact absurd rfl hstage
  | _ => rfl

/-- The arguments set no key. -/
theorem stakeKey_setCmdLineArgs (p : P2pServiceParams K) (args : Args) (env : Option Bytes) :
    (p.setCmdLineArgs args env).1.stakeKey = p.stakeKey := by
  unfold P2pServiceParams.setCmdLineArgs
  cases env <;> split_ifs <;> rfl

theorem Guard.call_args (h : Guard c t paused files n) (hdone : n.service.done .args = false) :
    Guard c t paused files ((n.call c t args paused o fs .args).2.record .args
      (n.call c t args paused o fs .args).1) := by
  have hpreInit : n.service.done .preInit = false :=
    Bool.eq_false_iff.mpr fun hpre => Bool.false_ne_true (hdone ▸ h.args hpre)
  have hnot : ((n.call c t args paused o fs .args).2.record .args
      (n.call c t args paused o fs .args).1).service.done .preInit = false := by
    rw [done_record, if_neg (by decide)]
    exact hpreInit
  have hports : (n.call c t args paused o fs .args).2.ports = n.ports := by cases args <;> rfl
  refine ⟨fun hpre => ?_, fun _ hpre => ?_, fun hpaused => ?_, fun serverKey hmem => ?_, ?_⟩
  · exact absurd (hnot.symm.trans hpre) Bool.false_ne_true
  · exact absurd (hnot.symm.trans hpre) Bool.false_ne_true
  · show (n.call c t args paused o fs .args).2.params.stakeKey = {}
    rw [← h.unset hpaused]
    cases args with
    | none => rfl
    | some args => exact stakeKey_setCmdLineArgs n.params args n.env
  · have hmem : serverKey ∈ (n.call c t args paused o fs .args).2.ports := hmem
    rw [hports, h.ports_eq_nil hpreInit] at hmem
    cases hmem
  · show (n.call c t args paused o fs .args).2.ports.length =
      (n.call c t args paused o fs .args).2.service.starts.length
    rw [hports, starts_call (by decide)]
    exact h.starts

theorem Guard.call_preInit (h : Guard c t paused files n) (hargs : n.service.done .args = true)
    (hdone : n.service.done .preInit = false) (hfs : files fs) :
    Guard c t paused files ((n.call c t args paused o fs .preInit).2.record .preInit
      (n.call c t args paused o fs .preInit).1) := by
  have hstarts : n.ports.length = n.service.starts.length := h.starts
  have hports (P : Bytes → Prop) : ∀ serverKey ∈ n.ports, P serverKey := by
    rw [h.ports_eq_nil hdone]
    exact List.forall_mem_nil P
  cases paused with
  | true => exact ⟨fun _ => hargs, Bool.noConfusion, h.unset, hports _, hstarts⟩
  | false =>
    rcases preInit_cases (c := c) (t := t) n.params fs with
      ⟨contents, w, key, address, hread, hset, hfind, -, hpreInit⟩ | ⟨stakeAddress, hpreInit⟩
    · simp only [call, hpreInit]
      exact ⟨fun _ => hargs, fun _ _ => ⟨fs, hfs, contents, w, address, key, hread, hset, rfl,
        findKey_found hfind⟩, Bool.noConfusion, hports _, hstarts⟩
    · simp only [call, hpreInit]
      refine ⟨fun _ => hargs, fun _ hpre => ?_, Bool.noConfusion, hports _, hstarts⟩
      have hpre : Function.update n.service.done .preInit false .preInit = true := hpre
      rw [Function.update_self] at hpre
      cases hpre

theorem Guard.call_start (h : Guard c t paused files n)
    (hpreInit : n.service.done .preInit = true) :
    Guard c t paused files ((n.call c t args paused o fs .start).2.record .start
      (n.call c t args paused o fs .start).1) := by
  obtain ⟨hstarts, -, -, -, hdone⟩ :=
    Service.startService_publisher (serviceParams paused) n.service o.start
  have hflag (stage : Stage) (hne : stage ≠ .start) :
      ((n.call c t args paused o fs .start).2.record .start
        (n.call c t args paused o fs .start).1).service.done stage = n.service.done stage := by
    rw [done_record, if_neg hne]
  refine ⟨fun _ => ?_, fun hpaused _ => h.found hpaused hpreInit, h.unset, fun serverKey hmem => ?_,
    ?_⟩
  · rw [hflag .args (by decide)]
    exact h.args hpreInit
  · refine ⟨(hflag .preInit (by decide)).trans hpreInit, ?_⟩
    rcases List.mem_append.mp hmem with hmem | hmem
    · exact (h.ports serverKey hmem).2
    · exact List.mem_singleton.mp hmem
  · show (n.ports ++ [n.params.getServerKey]).length =
      (Service.startService (serviceParams paused) n.service o.start).2.starts.length
    rw [hstarts, List.length_append, List.length_append, h.starts]
    rfl

end Guard

/-- The key of a port is a private point. -/
theorem protection_toPrivate (hc : c.Laws) (key : K) :
    Zmq.protection (Curve25519.toPrivate c key) = .curve := by
  obtain ⟨point, hlen, hi2d, -⟩ := hc.private_key key
  rw [Curve25519.toPrivate_eq hlen hi2d, Zmq.protection, if_neg, if_neg]
  · exact not_not.mpr hlen
  · rintro rfl
    cases hlen

theorem guard_run (env : Option Bytes) (events : List Event) :
    Guard c t paused (fun fs => ∃ e ∈ events, e.2 = fs) (run c t args paused env events) := by
  refine run_induction ⟨fun h => ?_, fun _ h => ?_, fun _ => rfl, List.forall_mem_nil _, rfl⟩
    (fun n s h hdone hstarts => h.of_eq rfl rfl (by rw [hdone]) (by rw [hdone]; exact id) hstarts)
    fun n o e stage he h hdone hargs hpreInit => ?_
  · cases h
  · cases h
  · have hother (hne : stage ≠ .preInit) (hne' : stage ≠ .start) (hne'' : stage ≠ .args)
        (hparams : (n.call c t args paused o e.2 stage).2.params = n.params)
        (hports : (n.call c t args paused o e.2 stage).2.ports = n.ports) :
        Guard c t paused (fun fs => ∃ e ∈ events, e.2 = fs)
          ((n.call c t args paused o e.2 stage).2.record stage
            (n.call c t args paused o e.2 stage).1) := by
      refine h.of_eq hparams hports ?_ (fun hargs => ?_) (starts_call hne')
      · rw [done_record, if_neg hne.symm]
      · rw [done_record, if_neg hne''.symm]
        exact hargs
    cases stage with
    | args => exact h.call_args hdone
    | preInit => exact h.call_preInit (hargs rfl) hdone ⟨e, he, rfl⟩
    | start => exact h.call_start (hpreInit rfl)
    | signals => exact hother (by decide) (by decide) (by decide) rfl rfl
    | rand => exact hother (by decide) (by decide) (by decide) rfl rfl
    | scene => exact hother (by decide) (by decide) (by decide) rfl rfl
    | postInit => exact hother (by decide) (by decide) (by decide) rfl rfl

/-- What the ports of a service have been opened with. -/
structure Guarded (c : Keys K) (t : Json.Text Bytes) (paused : Bool) (events : List Event)
    (n : Node K) : Prop where
  service : ∃ acts, n.service = Service.run (serviceParams paused) acts
  /-- There is one key for each call of `startService`. -/
  starts : n.ports.length = n.service.starts.length
  same : ∀ serverKey ∈ n.ports, serverKey = n.params.getServerKey
  protection : ∀ serverKey ∈ n.ports,
    Zmq.protection serverKey = if paused then .unprotected else .curve
  found : paused = false → n.ports ≠ [] → ∃ e ∈ events, Found c t n.params e.2

/-- **All ports are opened with the stake key**, whatever happens to the service and the wallet
file; unless the service is paused, then they are open to everyone. -/
theorem guarded_run (hc : c.Laws) (t : Json.Text Bytes) (args : Option Args) (paused : Bool)
    (env : Option Bytes) (events : List Event) :
    Guarded c t paused events (run c t args paused env events) := by
  have h : Guard c t paused _ (run c t args paused env events) := guard_run env events
  refine ⟨service_run env events, h.starts, fun serverKey hmem => (h.ports serverKey hmem).2,
    fun serverKey hmem => ?_, fun hpaused hne => ?_⟩
  · obtain ⟨hdone, rfl⟩ := h.ports serverKey hmem
    cases paused with
    | true =>
      rw [P2pServiceParams.getServerKey, h.unset rfl]
      rfl
    | false =>
      obtain ⟨fs, -, contents, w, address, key, -, -, hkey, -⟩ := h.found rfl hdone
      rw [P2pServiceParams.getServerKey, hkey]
      exact protection_toPrivate hc key
  · obtain ⟨serverKey, hmem⟩ := List.exists_mem_of_ne_nil _ hne
    obtain ⟨fs, ⟨e, he, rfl⟩, hfound⟩ := h.found hpaused (h.ports serverKey hmem).1
    exact ⟨e, he, hfound⟩

/-- A wallet with one key for a validator, in the default format. -/
def oneStake : Alg.Wallet :=
  { keys := [{ usage := .validator, format := .fcPbkdf, address := ['a']
               privKey := Base64.encode (List.replicate 32 1) }] }

/-- Texts of which one is that wallet. -/
def oneDocument : Json.Text Bytes where
  empty := []
  dump _ := [1]
  parse text :=
    if text = [1] then
      some (.object [("config", oneStake.config), ("keys", .array (oneStake.keys.map (·.toJson)))])
    else none

/-- A round in which nothing fails, and the wallet is there. -/
def wholeRound : Event :=
  (.turn ⟨true, true, ⟨true, true, true⟩, true⟩,
    { files := (∅ : Std.ExtTreeMap (List Char) Bytes).insert defaultWalletFile [1] })

theorem ports_wholeRound :
    (run plainKeys oneDocument (some {}) false (some [9]) [wholeRound]).ports =
      [List.replicate 32 1] := by
  decide +kernel

theorem guarded_run_wholeRound :
    (run plainKeys oneDocument (some {}) false (some [9]) [wholeRound]).ports =
        [List.replicate 32 1] ∧
      Guarded plainKeys oneDocument false [wholeRound]
        (run plainKeys oneDocument (some {}) false (some [9]) [wholeRound]) :=
  ⟨ports_wholeRound, guarded_run plainKeys_laws oneDocument (some {}) false (some [9]) [wholeRound]⟩

/-! ## The password -/

/-- The arguments take the password out of the environment. -/
theorem env_setCmdLineArgs (p : P2pServiceParams K) {a : Args}
    (ha : a.hasArg "wallet-password".toList = false) (env : Option Bytes) :
    (p.setCmdLineArgs a env).2 = none ∨ (p.setCmdLineArgs a env).2 = some [] := by
  unfold P2pServiceParams.setCmdLineArgs
  rw [ha]
  cases env with
  | none => exact .inl rfl
  | some pw => exact .inr rfl

/-- The environment holds no password any more, if there are arguments to take it. -/
def Spent (args : Option Args) (env : Option Bytes) : Prop := ∀ a ∈ args, env = none ∨ env = some []

/-- The wallet file the arguments ask for. -/
def walletFileOf (args : Option Args) : List Char :=
  match args with
  | none => defaultWalletFile
  | some a => if a.hasArg "wallet".toList then a.getArg "wallet".toList else defaultWalletFile

variable (t) in
/-- A wallet that needs a password: if it can be read, its first entry is in the default format. -/
def Sealed (contents : Bytes) : Prop :=
  ∀ jsons, Alg.Wallet.documentKeys t contents = some jsons →
    ∃ entry, (Alg.Wallet.readable jsons).head? = some entry ∧ entry.format = .fcPbkdf

theorem not_loads_of_sealed {contents : Bytes} (h : Sealed t contents) :
    ¬ Alg.Wallet.Loads c t contents [] := by
  rintro ⟨jsons, hkeys, -, hopens⟩
  obtain ⟨entry, hentry, hformat⟩ := h jsons hkeys
  have hopen := hopens entry hentry
  rw [hformat] at hopen
  cases hopen

/-- What holds of a service that has no password. -/
structure Locked (args : Option Args) (n : Node K) : Prop where
  env : Spent args n.env
  walletPassword : n.params.walletPassword = []
  walletFile : n.params.walletFile = walletFileOf args ∨
    n.params.walletFile = defaultWalletFile ∧ n.service.done .args = false
  preInit : n.service.done .preInit = false
  ports : n.ports = []

/-- What the arguments set. -/
theorem setCmdLineArgs_spec (p : P2pServiceParams K) {a : Args}
    (ha : a.hasArg "wallet-password".toList = false) (env : Option Bytes) :
    (p.setCmdLineArgs a env).1.walletPassword = env.getD p.walletPassword ∧
      (p.setCmdLineArgs a env).1.walletFile =
        if a.hasArg "wallet".toList then a.getArg "wallet".toList else p.walletFile := by
  unfold P2pServiceParams.setCmdLineArgs
  rw [ha]
  cases env <;> cases a.hasArg "wallet".toList <;> cases a.hasArg "stake-address".toList <;>
    exact ⟨rfl, rfl⟩

section Locked

/-- Only the flag of another stage has changed. -/
theorem Locked.of_eq (h : Locked args n) {n' : Node K} (henv : n'.env = n.env)
    (hparams : n'.params = n.params) (hports : n'.ports = n.ports)
    (hargs : n'.service.done .args = n.service.done .args)
    (hpreInit : n'.service.done .preInit = n.service.done .preInit) : Locked args n' := by
  refine ⟨?_, ?_, ?_, hpreInit.trans h.preInit, hports.trans h.ports⟩
  · rw [henv]
    exact h.env
  · rw [hparams]
    exact h.walletPassword
  · rw [hparams, hargs]
    exact h.walletFile

theorem Locked.call_args (h : Locked args n)
    (hargs : ∀ a ∈ args, a.hasArg "wallet-password".toList = false) :
    Locked args ((n.call c t args paused o fs .args).2.record .args
      (n.call c t args paused o fs .args).1) := by
  have hpreInit : ((n.call c t args paused o fs .args).2.record .args
      (n.call c t args paused o fs .args).1).service.done .preInit = false := by
    rw [done_record, if_neg (by decide)]
    exact h.preInit
  cases args with
  | none =>
    refine ⟨h.env, h.walletPassword, .inl ?_, hpreInit, h.ports⟩
    exact h.walletFile.elim id And.left
  | some a =>
    have ha := hargs a rfl
    obtain ⟨hpassword, hfile⟩ := setCmdLineArgs_spec n.params ha n.env
    refine ⟨fun _ _ => env_setCmdLineArgs n.params ha n.env, hpassword.trans ?_,
      .inl (hfile.trans ?_), hpreInit, h.ports⟩
    · rcases h.env a rfl with henv | henv
      · rw [henv]
        exact h.walletPassword
      · rw [henv]
        rfl
    · show _ = if a.hasArg "wallet".toList then _ else _
      split
      · rfl
      · rename_i hwallet
        rcases h.walletFile with hfile | ⟨hfile, -⟩
        · exact hfile.trans (if_neg hwallet)
        · exact hfile

theorem Locked.call_preInit (h : Locked args n) (hdone : n.service.done .args = true)
    (hfile : ∀ contents, FileTools.read fs (walletFileOf args) = some contents →
      Sealed t contents) :
    Locked args ((n.call c t args false o fs .preInit).2.record .preInit
      (n.call c t args false o fs .preInit).1) := by
  have hwallet : n.params.walletFile = walletFileOf args :=
    h.walletFile.resolve_right fun hnot => Bool.false_ne_true (hnot.2.symm.trans hdone)
  rcases preInit_cases (c := c) (t := t) n.params fs with
    ⟨contents, w, key, address, hread, hset, -⟩ | ⟨stakeAddress, hpreInit⟩
  · -- the wallet does not open
    rw [hwallet] at hread
    rw [h.walletPassword] at hset
    have hloads := (Alg.Wallet.setString_fst (c := c) (t := t) {} contents []).mp (by rw [hset])
    exact absurd hloads (not_loads_of_sealed (hfile contents hread))
  · have hcall : n.call c t args false o fs .preInit =
        (false, { n with params := { n.params with stakeAddress } }) := by
      simp only [call, hpreInit]
    refine ⟨?_, ?_, .inl ?_, ?_, ?_⟩
    · rw [hcall]
      exact h.env
    · rw [hcall]
      exact h.walletPassword
    · rw [hcall]
      exact hwallet
    · rw [done_record, if_pos rfl, hcall]
    · rw [hcall]
      exact h.ports

end Locked

end P2p.Node

end Fluffycoin
