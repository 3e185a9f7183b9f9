import Fluffycoin.Alg.PeerAuth
import Fluffycoin.Block.Der
import Fluffycoin.P2p.BruteForce
import Fluffycoin.P2p.PeerSessions
import Fluffycoin.Utils.Details

/-!
# The handshake of peers

`Handshake::process` (`services/p2p/api/server`) is where the brute force check, the message key and
the sessions meet: an address that is locked out is refused, a handshake that is not in order counts
as an offense, and one that is would start a session. What a request finds outside the service is
part of the `Request`: the answer of the validator lookup, the random nonce of the server and what
the clock shows.

The source has no validator lookup yet: `ValidatorLookup::getValidator` answers with an error. So
`Request.getValidator` is a parameter in its place, and `Request.AsIs` says that it is the one of
the source. Neither the lookup nor the `PeerSessions` are put into the scene of the service
(`P2pServiceParams::setupScene`); the lookup of the source does not read its object.

## Results

* `bruteForce_after`, `peerSessions_after`: over a run of handshakes the two stores go through runs
  of their own, so what is proved of them holds in the service.
* `refused_iff`: after the epoch of the clock, a handshake is refused exactly if three earlier ones
  of its address were not in order, for any lookup.
* `handshakes_as_they_are`: with the lookup of the source no handshake is answered, and which error
  it gets is determined by the handshakes before it; with the keys of the source none is answered
  for any lookup, as no key can be derived.
-/

namespace Fluffycoin.P2p

open Alg (Agreement)
open Alg.PeerAuth (authNonceLength messageAuthKeyLen createMessageAuthKey createSessionId)

/-! ## The code -/

structure ValidatorInfo where
  pubKey : Bytes := []
  active : Bool := false

/-- `ValidatorLookup::getValidator`, which is not there yet. -/
def ValidatorLookup.getValidator (_address : List Char) (details : Details) :
    ValidatorInfo × Details :=
  ({}, details.setError .internalError "p2p_lookup" "Not implemented")

/-- `P2pProtocol::VERSION`. -/
def P2pProtocol.version : Nat := 1

structure AuthenticateSession where
  version : Int
  clientSessionId : Bytes
  authAddress : List Char

structure AuthenticateSessionResponse where
  version : Int
  serverSessionId : Bytes
deriving DecidableEq, Repr

/-- The stores of the service that handshakes change. -/
structure Peers where
  bruteForce : BruteForce := {}
  peerSessions : PeerSessions := {}

/-- A handshake, and what it finds: the details of its scene, a lookup of validators in place of the
one that is not there yet, the nonce that is drawn and the times the clock shows. -/
structure Request where
  handshake : AuthenticateSession
  details : Details := {}
  getValidator : List Char → Details → ValidatorInfo × Details
  serverNonce : Bytes
  atCheck : Int
  atOffense : Int
  atCleanup : Int
  now : Int

namespace Request

def address (r : Request) : List Char := r.handshake.authAddress

/-- What the lookup answers. -/
def validator (r : Request) : ValidatorInfo × Details := r.getValidator r.address r.details

/-- The lookup is that of the source. -/
def AsIs (r : Request) : Prop := r.getValidator = ValidatorLookup.getValidator

end Request

namespace Handshake

section Process

variable {K : Type} (g : Agreement K) (o : Ossl.OpenSsl) (key : K)

/-- `Handshake::process`, with `key` as the stake key. -/
def process (s : Peers) (r : Request) : Option AuthenticateSessionResponse × Details × Peers :=
  -- Check address against brute force map
  let clientAddress := r.handshake.authAddress
  let check := s.bruteForce.checkAddress r.atCheck clientAddress
  let s := { s with bruteForce := check.2 }
  let offense := { s with bruteForce := s.bruteForce.addOffense r.atOffense clientAddress }
  if !check.1 then
    (none, r.details.setError .blocked "brute_force"
      ("Refusing address '" ++ String.ofList clientAddress ++ "' due to brute force check."), s)
  -- Sane validate supported protocol version
  else if r.handshake.version ≤ 0 then
    (none, r.details.setError .argumentInvalid "version"
      ("Invalid protocol version " ++ toString r.handshake.version ++ "."), offense)
  -- Sane validate nonce length
  else if r.handshake.clientSessionId.length ≠ authNonceLength then
    (none, r.details.setError .argumentInvalid "client_session_id"
      "Invalid client session ID length.", offense)
  else
    -- Lookup p2p info of client
    let (info, details) := r.getValidator clientAddress r.details
    if !details.isOk then (none, details, s)
    -- This p2p has coins staked?
    else if !info.active then
      (none, details.setError .notAuthorized "auth_address"
        ("Validator '" ++ String.ofList clientAddress ++ "' is not currently active."), offense)
    else
      -- Combine nonces to create HMAC key
      let hmacKey :=
        createMessageAuthKey g key info.pubKey r.handshake.clientSessionId r.serverNonce
      if hmacKey = [] then
        (none, details.setError .internalError "derive"
          "Failed to derive message authentication key.", s)
      else
        let sessionId := createSessionId o r.handshake.clientSessionId r.serverNonce
        let peerSessions := s.peerSessions.addSession (UInt32.ofInt r.handshake.version)
          clientAddress sessionId hmacKey r.atCleanup r.now
        -- Send back the server nonce
        (some ⟨P2pProtocol.version, r.serverNonce⟩, details, { s with peerSessions })

/-! ## What a handshake does -/

/-- The handshake is not in order, and counts as an offense of its address. -/
def Offends (r : Request) : Prop :=
  r.handshake.version ≤ 0 ∨ r.handshake.clientSessionId.length ≠ authNonceLength ∨
    (r.validator.2.isOk = true ∧ r.validator.1.active = false)

instance : DecidablePred Offends := fun _ => inferInstanceAs (Decidable (_ ∨ _ ∨ _))

/-- The key that is derived in the handshake, empty if that fails. -/
def hmacKey (r : Request) : Bytes :=
  createMessageAuthKey g key r.validator.1.pubKey r.handshake.clientSessionId r.serverNonce

/-- The handshake is in order. -/
def Starts (r : Request) : Prop :=
  ¬ Offends r ∧ r.validator.2.isOk = true ∧ hmacKey g key r ≠ []

instance : DecidablePred (Starts g key) := fun _ => inferInstanceAs (Decidable (_ ∧ _ ∧ _))

def sessionId (r : Request) : List Char :=
  createSessionId o r.handshake.clientSessionId r.serverNonce

/-- The address of the handshake is locked out. -/
def Refused (s : Peers) (r : Request) : Prop :=
  (s.bruteForce.checkAddress r.atCheck r.address).1 = false

instance (s : Peers) : DecidablePred (Refused s) := fun _ => inferInstanceAs (Decidable (_ = false))

/-- The stores after the check of the address. -/
def checked (s : Peers) (r : Request) : Peers :=
  { s with bruteForce := (s.bruteForce.checkAddress r.atCheck r.address).2 }

/-- The stores after an offense. -/
def offended (s : Peers) (r : Request) : Peers :=
  { checked s r with
    bruteForce := (checked s r).bruteForce.addOffense r.atOffense r.address }

/-- The stores after a session has been started. -/
def started (s : Peers) (r : Request) : Peers :=
  { checked s r with
    peerSessions := s.peerSessions.addSession (UInt32.ofInt r.handshake.version) r.address
      (sessionId o r) (hmacKey g key r) r.atCleanup r.now }

/-- **What a handshake does**: it is refused, it counts as an offense, it comes to nothing, or it
starts a session. -/
theorem process_cases (s : Peers) (r : Request) :
    (Refused s r ∧ ∃ details, process g o key s r = (none, details, checked s r)) ∨
      (¬ Refused s r ∧ Offends r ∧
        ∃ details, process g o key s r = (none, details, offended s r)) ∨
      (¬ Refused s r ∧ ¬ Offends r ∧ ¬ Starts g key r ∧
        ∃ details, process g o key s r = (none, details, checked s r)) ∨
      (¬ Refused s r ∧ Starts g key r ∧
        process g o key s r = (some ⟨P2pProtocol.version, r.serverNonce⟩, r.validator.2,
          started g o key s r)) := by
  generalize hres : process g o key s r = res
  unfold process at hres
  simp only [Bool.not_eq_true'] at hres
  split at hres
  case isTrue hrefused => exact .inl ⟨hrefused, _, hres.symm⟩
  case isFalse hrefused =>
    refine .inr ?_
    split at hres
    case isTrue hversion => exact .inl ⟨hrefused, .inl hversion, _, hres.symm⟩
    case isFalse hversion =>
      split at hres
      case isTrue hlen => exact .inl ⟨hrefused, .inr (.inl hlen), _, hres.symm⟩
      case isFalse hlen =>
        split at hres
        case isTrue herror =>
          have hnot : ¬ r.validator.2.isOk = true := fun h =>
            Bool.false_ne_true (herror.symm.trans h)
          refine .inr (.inl ⟨hrefused, ?_, fun h => hnot h.2.1, _, hres.symm⟩)
          rintro (h | h | ⟨h, _⟩)
          · exact hversion h
          · exact hlen h
          · exact hnot h
        case isFalse herror =>
          have hok : r.validator.2.isOk = true := Bool.not_eq_false _ ▸ herror
          split at hres
          case isTrue hinactive =>
            exact .inl ⟨hrefused, .inr (.inr ⟨hok, hinactive⟩), _, hres.symm⟩
          case isFalse hactive =>
            have horder : ¬ Offends r := by
              rintro (h | h | ⟨_, h⟩)
              · exact hversion h
              · exact hlen h
              · exact hactive h
            split at hres
            case isTrue hkey =>
              exact .inr (.inl ⟨hrefused, horder, fun h => h.2.2 hkey, _, hres.symm⟩)
            case isFalse hkey =>
              exact .inr (.inr ⟨hrefused, ⟨horder, hok, hkey⟩, hres.symm⟩)

/-! ## Runs -/

/-- The stores after handshakes, one after the other. -/
def after (rs : List Request) : Peers := Trace.final (process g o key) (·.2.2) {} rs

/-- The handshakes of a run, each with the stores it found. -/
def entries (rs : List Request) := Trace.trace (process g o key) (·.2.2) {} rs

variable {g o key} in
theorem after_append_singleton (rs : List Request) (r : Request) :
    after g o key (rs ++ [r]) = (process g o key (after g o key rs) r).2.2 := Trace.final_append ..

/-- The calls of the brute force check that a handshake makes. -/
def bruteForceCalls (s : Peers) (r : Request) : List BruteForce.Call :=
  .check r.address r.atCheck ::
    if ¬ Refused s r ∧ Offends r then [.offense r.address r.atOffense] else []

/-- The calls of the sessions that a handshake makes. -/
def peerSessionsCalls (s : Peers) (r : Request) : List PeerSessions.Call :=
  if ¬ Refused s r ∧ Starts g key r then
    [.add (UInt32.ofInt r.handshake.version) r.address (sessionId o r) (hmacKey g key r) r.atCleanup
      r.now]
  else []

/-- The calls of the brute force check in a run. -/
def bruteForceRun (rs : List Request) : List BruteForce.Call :=
  (entries g o key rs).flatMap fun e => bruteForceCalls e.before e.input

/-- The calls of the sessions in a run. -/
def peerSessionsRun (rs : List Request) : List PeerSessions.Call :=
  (entries g o key rs).flatMap fun e => peerSessionsCalls g o key e.before e.input

variable {g o key}

theorem bruteForce_process (s : Peers) (r : Request) :
    (process g o key s r).2.2.bruteForce =
      Trace.final BruteForce.step Prod.snd s.bruteForce (bruteForceCalls s r) := by
  rcases process_cases g o key s r with
    ⟨hrefused, _, hres⟩ | ⟨hrefused, hoffends, _, hres⟩ | ⟨_, horder, _, _, hres⟩ |
      ⟨_, hstarts, hres⟩
  all_goals rw [hres, bruteForceCalls]
  · rw [if_neg fun h => h.1 hrefused]
    rfl
  · rw [if_pos ⟨hrefused, hoffends⟩]
    rfl
  · rw [if_neg fun h => horder h.2]
    rfl
  · rw [if_neg fun h => hstarts.1 h.2]
    rfl

theorem peerSessions_process (s : Peers) (r : Request) :
    (process g o key s r).2.2.peerSessions =
      Trace.final PeerSessions.step Prod.snd s.peerSessions (peerSessionsCalls g o key s r) := by
  rcases process_cases g o key s r with
    ⟨hrefused, _, hres⟩ | ⟨_, hoffends, _, hres⟩ | ⟨_, _, hnot, _, hres⟩ | ⟨hrefused, hstarts, hres⟩
  all_goals rw [hres, peerSessionsCalls]
  · rw [if_neg fun h => h.1 hrefused]
    rfl
  · rw [if_neg fun h => h.2.1 hoffends]
    rfl
  · rw [if_neg fun h => hnot h.2]
    rfl
  · rw [if_pos ⟨hrefused, hstarts⟩]
    rfl

/-- **A run of handshakes is a run of the brute force check.** -/
theorem bruteForce_after (rs : List Request) :
    (after g o key rs).bruteForce = BruteForce.after (bruteForceRun g o key rs) :=
  Trace.final_simulates (process g o key) (·.2.2) Peers.bruteForce
    (fun e => bruteForceCalls e.before e.input) bruteForce_process {} rs

/-- **A run of handshakes is a run of the sessions.** -/
theorem peerSessions_after (rs : List Request) :
    (after g o key rs).peerSessions = PeerSessions.after (peerSessionsRun g o key rs) :=
  Trace.final_simulates (process g o key) (·.2.2) Peers.peerSessions
    (fun e => peerSessionsCalls g o key e.before e.input) peerSessions_process {} rs

/-! ## Lockouts -/

theorem bruteForceRun_append_singleton (rs : List Request) (r : Request) :
    bruteForceRun g o key (rs ++ [r]) =
      bruteForceRun g o key rs ++ bruteForceCalls (after g o key rs) r := by
  rw [bruteForceRun, entries, Trace.trace_append, List.flatMap_append]
  exact congrArg (_ ++ ·) (List.append_nil _)

/-- The clock shows times after its epoch. -/
def AfterEpoch (rs : List Request) : Prop := ∀ r ∈ rs, 0 < r.atCheck ∧ 0 < r.atOffense

theorem pos_of_mem_bruteForceRun {rs : List Request} (hpos : AfterEpoch rs) :
    ∀ c ∈ bruteForceRun g o key rs, 0 < c.time := by
  intro c hc
  obtain ⟨e, he, hc⟩ := List.mem_flatMap.mp hc
  obtain ⟨hcheck, hoffense⟩ := hpos e.input (Trace.input_mem_of_mem_trace _ _ he)
  rcases List.mem_cons.mp hc with rfl | hc
  · exact hcheck
  · split at hc
    · rw [List.mem_singleton.mp hc]
      exact hoffense
    · cases hc

/-- How many of the handshakes were offenses of `a`. -/
def offenses (rs : List Request) (a : List Char) : Nat :=
  rs.countP fun r => decide (r.address = a ∧ Offends r)

theorem refused_iff_offenseTimes {rs : List Request} (hpos : AfterEpoch rs) {r : Request}
    (hr : 0 < r.atCheck) :
    Refused (after g o key rs) r ↔
      BruteForce.maxOffenses ≤
        (BruteForce.offenseTimes (bruteForceRun g o key rs) r.address).length := by
  rw [Refused, bruteForce_after]
  exact BruteForce.checkAddress_after_iff (pos_of_mem_bruteForceRun hpos) hr

theorem offenseTimes_bruteForceCalls (s : Peers) (r : Request) (a : List Char) :
    BruteForce.offenseTimes (bruteForceCalls s r) a =
      if ¬ Refused s r ∧ r.address = a ∧ Offends r then [r.atOffense] else [] := by
  unfold bruteForceCalls
  by_cases hcounted : ¬ Refused s r ∧ Offends r
  · have hcall : BruteForce.Call.offenseOf a (.offense r.address r.atOffense) =
        if r.address = a then some r.atOffense else none := rfl
    rw [if_pos hcounted, BruteForce.offenseTimes, List.filterMap_cons_none rfl]
    by_cases ha : r.address = a
    · rw [if_pos ha] at hcall
      rw [if_pos ⟨hcounted.1, ha, hcounted.2⟩, List.filterMap_cons_some hcall, List.filterMap_nil]
    · rw [if_neg ha] at hcall
      rw [if_neg fun h => ha h.2.1, List.filterMap_cons_none hcall, List.filterMap_nil]
  · rw [if_neg hcounted, if_neg fun h => hcounted ⟨h.1, h.2.2⟩]
    rfl

/-- The brute force check has counted the offenses, as far as the lockout. -/
theorem length_offenseTimes {rs : List Request} (hpos : AfterEpoch rs) (a : List Char) :
    (BruteForce.offenseTimes (bruteForceRun g o key rs) a).length =
      min BruteForce.maxOffenses (offenses rs a) := by
  induction rs using List.reverseRecOn with
  | nil => rfl
  | append_singleton rs r ih =>
    have hpos' : AfterEpoch rs := fun q hq => hpos q (List.mem_append_left _ hq)
    obtain ⟨hr, _⟩ := hpos r (List.mem_append_right rs List.mem_cons_self)
    have hcount : offenses (rs ++ [r]) a =
        offenses rs a + if r.address = a ∧ Offends r then 1 else 0 := by
      simp [offenses, List.countP_append, List.countP_singleton]
    rw [bruteForceRun_append_singleton, BruteForce.offenseTimes_append, List.length_append,
      ih hpos', offenseTimes_bruteForceCalls, hcount]
    by_cases hown : r.address = a ∧ Offends r
    · have hrefused : Refused (after g o key rs) r ↔ BruteForce.maxOffenses ≤ offenses rs a := by
        rw [refused_iff_offenseTimes hpos' hr, hown.1, ih hpos', le_min_iff]
        exact and_iff_right le_rfl
      -- what is refused is not counted, and the count stops there
      rw [if_pos hown]
      by_cases hlocked : BruteForce.maxOffenses ≤ offenses rs a
      · rw [if_neg fun h => h.1 (hrefused.mpr hlocked), List.length_nil]
        omega
      · rw [if_pos ⟨fun h => hlocked (hrefused.mp h), hown⟩, List.length_singleton]
        omega
    · rw [if_neg hown, if_neg fun h => hown h.2]
      rfl

/-- **Three strikes**: after the epoch of the clock, a handshake is refused exactly if three earlier
ones of its address were not in order. -/
theorem refused_iff {rs : List Request} (hpos : AfterEpoch rs) {r : Request} (hr : 0 < r.atCheck) :
    Refused (after g o key rs) r ↔ BruteForce.maxOffenses ≤ offenses rs r.address := by
  rw [refused_iff_offenseTimes hpos hr, length_offenseTimes hpos, le_min_iff]
  exact and_iff_right le_rfl

/-! ## Sessions -/

variable (g o key) in
/-- A handshake starts a session, or is not answered and leaves the sessions alone. -/
theorem process_sessions (s : Peers) (r : Request) :
    ((process g o key s r).1 = none ∧ (process g o key s r).2.2.peerSessions = s.peerSessions) ∨
      (¬ Refused s r ∧ Starts g key r ∧
        process g o key s r = (some ⟨P2pProtocol.version, r.serverNonce⟩, r.validator.2,
          started g o key s r)) := by
  rcases process_cases g o key s r with
    ⟨_, _, hres⟩ | ⟨_, _, _, hres⟩ | ⟨_, _, _, _, hres⟩ | hstarted
  · exact .inl (by rw [hres]; exact ⟨rfl, rfl⟩)
  · exact .inl (by rw [hres]; exact ⟨rfl, rfl⟩)
  · exact .inl (by rw [hres]; exact ⟨rfl, rfl⟩)
  · exact .inr hstarted

/-! ## The service as it is -/

/-- The handshake is rejected for what it says itself. -/
def Malformed (r : Request) : Prop :=
  r.handshake.version ≤ 0 ∨ r.handshake.clientSessionId.length ≠ authNonceLength

instance : DecidablePred Malformed := fun _ => inferInstanceAs (Decidable (_ ∨ _))

/-- How many of the handshakes of `a` were malformed. -/
def strikes (rs : List Request) (a : List Char) : Nat :=
  rs.countP fun r => decide (r.address = a ∧ Malformed r)

/-- The error a handshake gets from the service as it is. -/
def complaint (blocked : Bool) (r : Request) : Details :=
  if blocked then
    r.details.setError .blocked "brute_force"
      ("Refusing address '" ++ String.ofList r.address ++ "' due to brute force check.")
  else if r.handshake.version ≤ 0 then
    r.details.setError .argumentInvalid "version"
      ("Invalid protocol version " ++ toString r.handshake.version ++ ".")
  else if r.handshake.clientSessionId.length ≠ authNonceLength then
    r.details.setError .argumentInvalid "client_session_id" "Invalid client session ID length."
  else r.details.setError .internalError "p2p_lookup" "Not implemented"

theorem not_isOk_of_asIs {r : Request} (hr : r.AsIs) : r.validator.2.isOk = false := by
  unfold Request.AsIs at hr
  rw [Request.validator, hr, ValidatorLookup.getValidator, Details.isOk_setError]
  decide

theorem offends_iff_of_asIs {r : Request} (hr : r.AsIs) : Offends r ↔ Malformed r := by
  have hfalse : ¬ (r.validator.2.isOk = true ∧ r.validator.1.active = false) := fun h => by
    rw [not_isOk_of_asIs hr] at h
    exact Bool.false_ne_true h.1
  rw [Offends, Malformed, or_iff_left hfalse]

theorem offenses_eq_strikes {rs : List Request} (hrs : ∀ r ∈ rs, r.AsIs) (a : List Char) :
    offenses rs a = strikes rs a := by
  refine List.countP_congr fun r hr => ?_
  rw [decide_eq_true_iff, decide_eq_true_iff, offends_iff_of_asIs (hrs r hr)]

/-- One handshake of the service as it is. -/
theorem process_of_asIs {r : Request} (hr : r.AsIs) (s : Peers) :
    (process g o key s r).1 = none ∧
      (process g o key s r).2.1 = complaint (decide (Refused s r)) r := by
  have hlookup : (r.getValidator r.handshake.authAddress r.details).2 =
      r.details.setError .internalError "p2p_lookup" "Not implemented" := by
    unfold Request.AsIs at hr
    rw [hr]
    rfl
  have hok : (r.getValidator r.handshake.authAddress r.details).2.isOk = false :=
    not_isOk_of_asIs hr
  by_cases hrefused : Refused s r
  · have hcheck : (s.bruteForce.checkAddress r.atCheck r.handshake.authAddress).1 = false :=
      hrefused
    simp only [process, complaint, hcheck, hrefused, decide_true, Bool.not_false, if_true, true_and]
    rfl
  · have hcheck : (s.bruteForce.checkAddress r.atCheck r.handshake.authAddress).1 = true :=
      (Bool.not_eq_false _).mp hrefused
    simp only [process, complaint, hcheck, hrefused, decide_false, Bool.not_true,
      Bool.false_eq_true, if_false, hok, Bool.not_false, if_true]
    split
    · exact ⟨rfl, rfl⟩
    · split
      · exact ⟨rfl, rfl⟩
      · exact ⟨rfl, hlookup⟩

/-- Handshakes that start no session leave the sessions as they were. -/
theorem not_answered {rs : List Request} (hrs : ∀ r ∈ rs, ¬ Starts g key r) :
    (∀ e ∈ entries g o key rs, e.ret.1 = none) ∧ (after g o key rs).peerSessions = {} := by
  have hrun := Trace.invariant (process g o key) (·.2.2)
    (fun s (_ : List Unit) => s.peerSessions = {}) (fun _ => none)
    (fun e => ¬ Starts g key e.input) (fun e => e.ret.1 = none)
    (fun s _ r hs hr => ?_) rs {} [] rfl
    (fun e he => hrs e.input (Trace.input_mem_of_mem_trace _ _ he))
  · exact ⟨hrun.2, hrun.1⟩
  · rcases process_sessions g o key s r with ⟨hnone, hsame⟩ | ⟨_, hstarts, _⟩
    · exact ⟨hsame.trans hs, hnone⟩
    · exact absurd hstarts hr

/-- **The service as it is.** In every run of handshakes after the epoch of the clock, with the
lookup of the source: no handshake is answered, no session is started, and each gets the error that
it is blocked, exactly if three earlier ones of its address were malformed, and otherwise that its
version, then its nonce is wrong, or that the lookup is not implemented. With keys from which
OpenSSL derives no secret, as those of the source, no handshake is answered for any lookup. -/
theorem handshakes_as_they_are (rs : List Request) (hpos : AfterEpoch rs) :
    ((∀ r ∈ rs, r.AsIs) →
      (∀ l r, l ++ [r] <+: rs → (process g o key (after g o key l) r).1 = none ∧
        (process g o key (after g o key l) r).2.1 =
          complaint (decide (BruteForce.maxOffenses ≤ strikes l r.address)) r) ∧
      (after g o key rs).peerSessions = {}) ∧
    (g.Ed25519 →
      (∀ e ∈ entries g o key rs, e.ret.1 = none) ∧ (after g o key rs).peerSessions = {}) := by
  refine ⟨fun hrs => ⟨fun l r hl => ?_, ?_⟩, fun hg => ?_⟩
  · have hmem : ∀ q ∈ l ++ [r], q ∈ rs := fun q hq => hl.subset hq
    have hlast : r ∈ rs := hmem r (List.mem_append_right l List.mem_cons_self)
    have hearlier : ∀ q ∈ l, q ∈ rs := fun q hq => hmem q (List.mem_append_left _ hq)
    have hrefused : Refused (after g o key l) r ↔
        BruteForce.maxOffenses ≤ strikes l r.address := by
      have hpos' : AfterEpoch l := fun q hq => hpos q (hearlier q hq)
      rw [refused_iff_offenseTimes hpos' (hpos r hlast).1, length_offenseTimes hpos',
        offenses_eq_strikes fun q hq => hrs q (hearlier q hq), le_min_iff]
      exact and_iff_right le_rfl
    rw [← decide_eq_decide.mpr hrefused]
    exact process_of_asIs (hrs r hlast) _
  · refine (not_answered (o := o) fun r hr hstarts => ?_).2
    exact Bool.false_ne_true ((not_isOk_of_asIs (hrs r hr)).symm.trans hstarts.2.1)
  · refine not_answered fun r _ hstarts => hstarts.2.2 ?_
    exact Alg.PeerAuth.createMessageAuthKey_of_ed25519 hg _ _ _ _

end Process

/-! ## Handshakes of one peer -/

section Visits

open Alg.PeerAuth (sums)

/-- A handshake of an active validator. -/
def visit (nonce : UInt8) (now : Int) : Request where
  handshake := ⟨1, List.replicate authNonceLength 7, "peer".toList⟩
  getValidator _ details := (⟨sums.toPublic 1, true⟩, details)
  serverNonce := List.replicate authNonceLength nonce
  atCheck := now
  atOffense := now
  atCleanup := now
  now := now

/-- The same with a version that is not valid. -/
def strike (now : Int) : Request := { visit 0 now with handshake.version := 0 }

/-- Digests that keep the nonces apart. -/
def lastBytes : Ossl.OpenSsl := Ossl.der (List.drop 8) (List.drop 8)

theorem refused_iff_strikes :
    Refused (after sums lastBytes 2 [strike 1, visit 5 2, strike 3, strike 4]) (visit 6 5) ∧
      ¬ Refused (after sums lastBytes 2 [strike 1, visit 5 2, strike 3]) (visit 6 5) :=
  ⟨(refused_iff (by unfold AfterEpoch; decide) (by decide)).mpr (by decide),
    (refused_iff (by unfold AfterEpoch; decide) (by decide)).not.mpr (by decide)⟩

/-- The same handshake with the lookup of the source. -/
def lookedUp (r : Request) : Request := { r with getValidator := ValidatorLookup.getValidator }

theorem handshakes_as_they_are_visit :
    (process sums lastBytes 2 (after sums lastBytes 2 [lookedUp (strike 1)])
        (lookedUp (visit 5 2))).2.1 =
      (lookedUp (visit 5 2)).details.setError .internalError "p2p_lookup" "Not implemented" :=
  (((handshakes_as_they_are [lookedUp (strike 1), lookedUp (visit 5 2)]
    (by unfold AfterEpoch; decide)).1 (by simp [Request.AsIs, lookedUp])).1
      [lookedUp (strike 1)] (lookedUp (visit 5 2)) (List.prefix_refl _)).2

end Visits

end Handshake

end Fluffycoin.P2p
