import Fluffycoin.Alg.Address
import Fluffycoin.Ossl.Keys
import Fluffycoin.Utils.Json
import Fluffycoin.Utils.Trace

/-!
# Wallets

Model of `src/alg/Wallet.{h,cpp}`: keys in the order newest first, each in an encryption format of
its own, a password that is drawn at random when the first key is added without one, and the two
functions that write a wallet to a JSON document and read it back.

* OpenSSL's keys are the parameter `c : Keys K`, the digests of addresses `o : OpenSsl`, the text of
  a document `t : Json.Text T`.
* `Draws` is what the clock and the generator give during one call. `getString` may wrap every key
  again; the `n`-th one uses `rand n`.
* `setString` throws from inside its loops. What it has set by then stays set: the model returns the
  wallet beside the answer on every path. Messages of the log are left out.

`Op` is a call of one of the operations that change a wallet, `Wallet.step` its effect together with
the key it added, if it added one. The run of a list of calls is the one of
`Fluffycoin.Utils.Trace`.
-/

namespace Fluffycoin.Alg

open Fluffycoin.Ossl

namespace Wallet

/-- `Wallet::EncFormat`. -/
inductive EncFormat where
  | none | clear | fcPbkdf | pkcs8
  deriving DecidableEq, Repr, Inhabited

/-- `to_string(Wallet::EncFormat)`. -/
def EncFormat.toString : EncFormat → List Char
  | .clear => "clear".toList
  | .fcPbkdf => "fcpbkdf".toList
  | .pkcs8 => "pkcs8".toList
  | .none => "none".toList

/-- `from_string(const std::string &, Wallet::EncFormat &)`. -/
def EncFormat.fromString (str : List Char) : EncFormat :=
  if str = "clear".toList then .clear
  else if str = "pkcs8".toList then .pkcs8
  else if str = "fcpbkdf".toList then .fcPbkdf
  else .none

/-- `Wallet::KeyUsage`. -/
inductive KeyUsage where
  | none | specie | validator
  deriving DecidableEq, Repr, Inhabited

/-- `to_string(Wallet::KeyUsage)`. -/
def KeyUsage.toString : KeyUsage → List Char
  | .specie => "specie".toList
  | .validator => "validator".toList
  | .none => "none".toList

/-- `from_string(const std::string &, Wallet::KeyUsage &)`. -/
def KeyUsage.fromString (str : List Char) : KeyUsage :=
  if str = "specie".toList then .specie
  else if str = "validator".toList then .validator
  else .none

/-- `Wallet::Entry`. -/
structure Entry where
  time : UInt64 := 0
  usage : KeyUsage := .none
  format : EncFormat := .none
  address : List Char := []
  privKey : List Char := []
  deriving DecidableEq, Repr

end Wallet

/-- `alg::Wallet`, as its constructor leaves it. -/
structure Wallet where
  keys : List Wallet.Entry := []
  password : Bytes := []
  defaultFormat : Wallet.EncFormat := .fcPbkdf
  kdfIters : UInt32 := PbkdfKey.kdfItersDefault
  deriving DecidableEq, Repr

namespace Wallet

/-- `VERSION`. -/
def version : UInt32 := 1

/-- What one call gets from the clock and the generator. `Prng::rand(n)` has `n` bytes, also when
the generator fails. -/
structure Draws where
  time : UInt64
  password : Bytes
  password_length : password.length = 16
  rand : Nat → Bytes
  rand_length : ∀ n, (rand n).length = n
  randInt : Nat → UInt8
  wrap : Bytes

variable {K T : Type} (o : OpenSsl) (c : Keys K) (t : Json.Text T)

/-- `decrypt` (`Wallet.cpp:22-49`). -/
def decrypt (format : EncFormat) (keyString : List Char) (password : Bytes) : Option K :=
  let originalBin := Base64.decode keyString
  match format with
  | .clear => Curve25519.fromPrivate c originalBin
  | .fcPbkdf => PbkdfKey.unwrap c originalBin password
  | .pkcs8 => Pkcs8Key.unwrap c originalBin password
  | .none => none

/-- `retranslate` (`Wallet.cpp:105-150`): the key string under the new password, if there is one. -/
def retranslate (format newFormat : EncFormat) (kdfIters : UInt32) (original : List Char)
    (password newPassword rand : Bytes) : Option (List Char) :=
  match decrypt c format original password with
  | none => none
  | some key =>
    let newEnc :=
      match newFormat with
      | .fcPbkdf => PbkdfKey.wrap c key newPassword kdfIters rand
      | .pkcs8 => Pkcs8Key.wrap c key newPassword kdfIters rand
      | _ => []
    if newEnc = [] then none
    else
      let translated := Base64.encode newEnc
      if translated = [] then none else some translated

/-! ## Reading a wallet -/

/-- `getTopKey`. -/
def getTopKey (keys : List Entry) (usage : KeyUsage) : Option Entry :=
  keys.find? fun entry => entry.usage = usage

/-- `Wallet::getLatestKey`. -/
def getLatestKey (w : Wallet) (usage : KeyUsage) : Option K :=
  match getTopKey w.keys usage with
  | none => none
  | some entry => decrypt c entry.format entry.privKey w.password

/-- `Wallet::getLatestAddress`. -/
def getLatestAddress (w : Wallet) (usage : KeyUsage) : List Char :=
  match getTopKey w.keys usage with
  | none => []
  | some entry => entry.address

/-- `Wallet::getLatestAddressBin`. -/
def getLatestAddressBin (w : Wallet) (usage : KeyUsage) : Bytes :=
  Address.unprintable (w.getLatestAddress usage)

/-- `Wallet::getLatestPublicKey`. -/
def getLatestPublicKey (w : Wallet) (usage : KeyUsage) : Bytes :=
  match w.getLatestKey c usage with
  | none => []
  | some key => c.toPublic key

/-- `Wallet::getKey` (`Wallet.cpp:219-233`). -/
def getKey (w : Wallet) (address : List Char) : Option K :=
  match w.keys.find? fun entry => entry.address = address with
  | none => none
  | some entry => decrypt c entry.format entry.privKey w.password

/-! ## Adding keys -/

/-- `Wallet::setEncFormat`. -/
def setEncFormat (w : Wallet) (format : EncFormat) (iters : UInt32) : Wallet :=
  { w with kdfIters := iters, defaultFormat := format }

/-- The format and key string `addKey` gives a key (`Wallet.cpp:405-421`). -/
def encrypt (w : Wallet) (key : K) (rand : Bytes) : EncFormat × List Char :=
  match w.defaultFormat with
  | .clear => (.clear, Base64.encode (Curve25519.toPrivate c key))
  | .pkcs8 => (.pkcs8, Base64.encode (Pkcs8Key.wrap c key w.password w.kdfIters rand))
  | _ => (.fcPbkdf, Base64.encode (PbkdfKey.wrap c key w.password w.kdfIters rand))

/-- `Wallet::addKey` (`Wallet.cpp:385-433`). -/
def addKey (w : Wallet) (d : Draws) (usage : KeyUsage) (key : K) (address : List Char) :
    Bool × Wallet :=
  if !Address.verifyString o address (c.toPublic key) then (false, w)
  else
    let w := if w.password = [] then { w with password := d.password } else w
    let (format, privKey) := w.encrypt c key d.wrap
    if privKey = [] then (false, w)
    else (true, { w with keys := { time := d.time, usage, format, address, privKey } :: w.keys })

/-- The address `makeNewKey` generates for a new key. -/
def newAddressBin (d : Draws) (key : K) (addressSalt : List Char) : Bytes :=
  if addressSalt = [] then Address.generateRandom o d.rand d.randInt (c.toPublic key)
  else Address.generatePrintable o d.rand d.randInt (c.toPublic key) addressSalt

/-- Its printed form, under which the key is added. -/
def newAddress (d : Draws) (key : K) (addressSalt : List Char) : List Char :=
  Address.printable (newAddressBin o c d key addressSalt)

/-- `Wallet::makeNewKey` (`Wallet.cpp:235-249`), with what `Curve25519::generate` gave. Whether the
key was added it does not say. -/
def makeNewKey (w : Wallet) (d : Draws) (generated : Option K) (usage : KeyUsage)
    (addressSalt : List Char) : Option K × Wallet :=
  match generated with
  | none => (none, w)
  | some key => (some key, (w.addKey o c d usage key (newAddress o c d key addressSalt)).2)

/-! ## Documents -/

/-- The object of an entry. The members of a `nlohmann::json` object are sorted. -/
def Entry.toJson (entry : Entry) : Json :=
  .object [("address", .string entry.address), ("format", .string entry.format.toString),
    ("priv", .string entry.privKey), ("time", .number entry.time.toNat),
    ("usage", .string entry.usage.toString)]

/-- The body of the loop of `setString` up to the check of the password. -/
def Entry.ofJson (json : Json) : Option Entry := do
  let address ← (← json.member "address").getString
  let privKey ← (← json.member "priv").getString
  let format := EncFormat.fromString (← (← json.member "format").getString)
  let usage := KeyUsage.fromString (← (← json.member "usage").getString)
  let time ← (← json.member "time").getUInt64
  if format = .none then none else some { time, usage, format, address, privKey }

/-- The object `getString` makes of an entry: in the same format, or retranslated. -/
def exportEntry (w : Wallet) (password rand : Bytes) (entry : Entry) : Option Json :=
  if password = [] ∨ password = w.password then some entry.toJson
  else
    match retranslate c entry.format w.defaultFormat w.kdfIters entry.privKey w.password password
        rand with
    | none => none
    | some translated =>
      some { entry with format := w.defaultFormat, privKey := translated : Entry }.toJson

/-- The loop of `getString`. -/
def exportEntries (w : Wallet) (password : Bytes) (rand : Nat → Bytes) :
    Nat → List Entry → Option (List Json)
  | _, [] => some []
  | n, entry :: entries =>
    match w.exportEntry c password (rand n) entry with
    | none => none
    | some json => (exportEntries w password rand (n + 1) entries).map (json :: ·)

/-- The configuration object. -/
def config (w : Wallet) : Json :=
  .object [("version", .number version.toNat), ("iters", .number w.kdfIters.toNat),
    ("defaultFormat", .string w.defaultFormat.toString)]

/-- `Wallet::getString` (`Wallet.cpp:330-383`): empty when a key could not be retranslated. -/
def getString (w : Wallet) (rand : Nat → Bytes) (password : Bytes) : T :=
  match w.exportEntries c password rand 0 w.keys with
  | none => t.empty
  | some entries => t.dump (.object [("config", w.config), ("keys", .array entries)])

/-- The loop of `setString`; the flag is `bPwVerify`. -/
def loadKeys (password : Bytes) : Bool → List Json → Wallet → Bool × Wallet
  | _, [], w => (true, w)
  | bPwVerify, json :: jsons, w =>
    match Entry.ofJson json with
    | none => (false, w)
    | some entry =>
      if !bPwVerify && (decrypt c entry.format entry.privKey password).isNone then (false, w)
      else loadKeys password true jsons { w with keys := w.keys ++ [entry] }

/-- `Wallet::setString` (`Wallet.cpp:256-328`). -/
def setString (w : Wallet) (value : T) (password : Bytes) : Bool × Wallet :=
  let w := { w with keys := [], password }
  match t.parse value with
  | none => (false, w)
  | some json =>
    match json.member "config" with
    | none => (false, w)
    | some config =>
      match (config.constMember "version").bind Json.getUInt32 with
      | none => (false, w)
      | some _ =>
        match (config.constMember "iters").bind Json.getUInt32 with
        | none => (false, w)
        | some kdfIters =>
          let w := { w with kdfIters }
          match (config.constMember "defaultFormat").bind Json.getString with
          | none => (false, w)
          | some str =>
            let w := { w with defaultFormat := EncFormat.fromString str }
            match json.member "keys" with
            | none => (false, w)
            | some keys => loadKeys c password false keys.elements w

/-! ## Runs -/

/-- A call that changes a wallet. `addKey` gets the printed form of a binary address. -/
inductive Op (K : Type) where
  | setEncFormat (format : EncFormat) (iters : UInt32)
  | makeNewKey (d : Draws) (generated : Option K) (usage : KeyUsage) (addressSalt : List Char)
  | addKey (d : Draws) (usage : KeyUsage) (key : K) (address : Bytes)

/-- A key that went into a wallet. -/
structure Added (K : Type) where
  usage : KeyUsage
  key : K
  address : List Char

/-- `addKey`, with the key it added. -/
def addStep (w : Wallet) (d : Draws) (usage : KeyUsage) (key : K) (address : List Char) :
    Wallet × Option (Added K) :=
  let r := w.addKey o c d usage key address
  (r.2, if r.1 then some ⟨usage, key, address⟩ else none)

/-- One call. -/
def step (w : Wallet) : Op K → Wallet × Option (Added K)
  | .setEncFormat format iters => (w.setEncFormat format iters, none)
  | .makeNewKey _ none _ _ => (w, none)
  | .makeNewKey d (some key) usage addressSalt =>
    w.addStep o c d usage key (newAddress o c d key addressSalt)
  | .addKey d usage key address => w.addStep o c d usage key (Address.printable address)

/-- The wallet after some calls, from a default-constructed one on. -/
def after (ops : List (Op K)) : Wallet := Trace.final (step o c) Prod.fst {} ops

/-- The keys added by these calls, oldest first. -/
def added (ops : List (Op K)) : List (Added K) :=
  (Trace.trace (step o c) Prod.fst {} ops).filterMap fun e => e.ret.2

/-- A generated key is returned, and added if it can be. -/
theorem makeNewKey_some (w : Wallet) (d : Draws) (key : K) (usage : KeyUsage)
    (addressSalt : List Char) :
    w.makeNewKey o c d (some key) usage addressSalt =
      (some key, (w.addStep o c d usage key (newAddress o c d key addressSalt)).1) := by
  simp only [makeNewKey, addStep]

end Wallet

end Fluffycoin.Alg
