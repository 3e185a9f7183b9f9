import Fluffycoin.Alg.WalletFile

/-!
# Loading a wallet

`Wallet::setString` (`Wallet.cpp:256-328`) clears the keys and sets the password before it looks at
the document, and overwrites the settings and appends keys as it reads on. Nothing puts them back
when it fails. This module says what a failed call leaves behind and when that is what was there.

* `documentIters`, `documentFormat` and `documentKeys` are what the document gives, as far as
  `setString` gets: each is `none` from the first unreadable member on. `readable` are the entries
  before the first malformed one.
* `setString_snd`: the wallet after the call. `setString_fst`: the call answers `true` exactly if
  the document `Loads`, and then the wallet holds its entries (`documentEntries_of_loads`).
* `allOrNothing_iff`: the call is all or nothing exactly if the document loads, or the wallet
  already held all that is overwritten before the failure.
-/

namespace Fluffycoin.Alg.Wallet

open Fluffycoin.Ossl

variable {K T : Type} (c : Keys K) (t : Json.Text T)

/-! ## What a document gives -/

/-- The configuration of a document, if it has one with a version. -/
def documentConfig (value : T) : Option Json := do
  let config ← (← t.parse value).member "config"
  let _ ← (config.constMember "version").bind Json.getUInt32
  return config

/-- The number of iterations `setString` gets to. -/
def documentIters (value : T) : Option UInt32 := do
  ((← documentConfig t value).constMember "iters").bind Json.getUInt32

/-- The default format it gets to after that. -/
def documentFormat (value : T) : Option EncFormat := do
  let _ ← documentIters t value
  let str ← ((← documentConfig t value).constMember "defaultFormat").bind Json.getString
  return EncFormat.fromString str

/-- The elements of the document that should be entries, as its loop sees them. -/
def documentElements (value : T) : Option (List Json) := do
  let keys ← (← t.parse value).member "keys"
  return keys.elements

/-- Those `setString` gets to. -/
def documentKeys (value : T) : Option (List Json) := do
  let _ ← documentFormat t value
  documentElements t value

/-- The entries of a document, if all of them are well-formed. -/
def documentEntries (value : T) : Option (List Entry) := do
  (← documentElements t value).mapM Entry.ofJson

/-- The entries before the first malformed one. -/
def readable : List Json → List Entry
  | [] => []
  | json :: jsons =>
    match Entry.ofJson json with
    | none => []
    | some entry => entry :: readable jsons

/-- The first entry, if there is one, decrypts under the password. -/
def Opens (password : Bytes) (entries : List Entry) : Prop :=
  ∀ entry ∈ entries.head?, (decrypt c entry.format entry.privKey password).isSome = true

instance (password : Bytes) (entries : List Entry) : Decidable (Opens c password entries) :=
  inferInstanceAs (Decidable (∀ entry ∈ entries.head?, _))

/-- The entries `setString` takes over: those before the first malformed one, if the first of them
decrypts. -/
def takenKeys (value : T) (password : Bytes) : List Entry :=
  match documentKeys t value with
  | none => []
  | some jsons => if Opens c password (readable jsons) then readable jsons else []

/-- The document is complete, and its first entry decrypts under the password. -/
def Loads (value : T) (password : Bytes) : Prop :=
  ∃ jsons, documentKeys t value = some jsons ∧
    (∀ json ∈ jsons, (Entry.ofJson json).isSome = true) ∧ Opens c password (readable jsons)

/-! ## The loop -/

theorem loadKeys_true (password : Bytes) :
    ∀ (jsons : List Json) (w : Wallet),
      loadKeys c password true jsons w =
        (jsons.all fun json => (Entry.ofJson json).isSome,
          { w with keys := w.keys ++ readable jsons })
  | [], w => by simp [loadKeys, readable]
  | json :: jsons, w => by
    rw [loadKeys, readable]
    cases h : Entry.ofJson json with
    | none => simp [h]
    | some entry =>
      simp only [Bool.not_true, Bool.false_and, Bool.false_eq_true, if_false]
      rw [loadKeys_true password jsons]
      simp [h]

/-- The loop takes the readable entries if the first of them decrypts, and none otherwise. -/
theorem loadKeys_false (password : Bytes) (jsons : List Json) (w : Wallet) :
    loadKeys c password false jsons w =
      if Opens c password (readable jsons) then
        (jsons.all fun json => (Entry.ofJson json).isSome,
          { w with keys := w.keys ++ readable jsons })
      else (false, w) := by
  cases jsons with
  | nil => simp [loadKeys, readable, Opens]
  | cons json jsons =>
    rw [loadKeys, readable]
    cases h : Entry.ofJson json with
    | none => simp [h, Opens]
    | some entry =>
      have hopens : Opens c password (entry :: readable jsons) ↔
          (decrypt c entry.format entry.privKey password).isSome = true := by
        simp [Opens]
      simp only [hopens, loadKeys_true]
      cases decrypt c entry.format entry.privKey password <;> simp [h]

/-- All well-formed entries together. -/
theorem mapM_ofJson :
    ∀ {jsons : List Json}, (∀ json ∈ jsons, (Entry.ofJson json).isSome = true) →
      jsons.mapM Entry.ofJson = some (readable jsons)
  | [], _ => rfl
  | json :: jsons, h => by
    rw [List.forall_mem_cons] at h
    obtain ⟨entry, hentry⟩ := Option.isSome_iff_exists.mp h.1
    rw [List.mapM_cons, hentry, mapM_ofJson h.2, readable, hentry]
    rfl

/-! ## The call -/

variable {c t}

/-- What `setString` does, by what the document gives. -/
theorem setString_eq (w : Wallet) (value : T) (password : Bytes) :
    w.setString c t value password =
      let w' : Wallet :=
        { keys := [], password, kdfIters := (documentIters t value).getD w.kdfIters,
          defaultFormat := (documentFormat t value).getD w.defaultFormat }
      match documentKeys t value with
      | none => (false, w')
      | some jsons => loadKeys c password false jsons w' := by
  unfold setString documentKeys documentFormat documentIters documentConfig documentElements
  -- one stage of the function after the other; from the first failure on the document gives nothing
  cases t.parse value with
  | none => rfl
  | some json =>
    cases hconfig : json.member "config" with
    | none => simp [hconfig]
    | some config =>
      cases hversion : (config.constMember "version").bind Json.getUInt32 with
      | none => simp [hconfig, hversion]
      | some version =>
        cases hiters : (config.constMember "iters").bind Json.getUInt32 with
        | none => simp [hconfig, hversion, hiters]
        | some iters =>
          cases hformat : (config.constMember "defaultFormat").bind Json.getString with
          | none => simp [hconfig, hversion, hiters, hformat]
          | some str =>
            cases hkeys : json.member "keys" with
            | none => simp [hconfig, hversion, hiters, hformat, hkeys]
            | some keys => simp [hconfig, hversion, hiters, hformat, hkeys]

theorem setString_snd (w : Wallet) (value : T) (password : Bytes) :
    (w.setString c t value password).2 =
      { keys := takenKeys c t value password, password
        kdfIters := (documentIters t value).getD w.kdfIters
        defaultFormat := (documentFormat t value).getD w.defaultFormat } := by
  rw [setString_eq]
  unfold takenKeys
  cases documentKeys t value with
  | none => rfl
  | some jsons =>
    simp only [loadKeys_false, List.nil_append]
    split_ifs <;> rfl

theorem setString_fst (w : Wallet) (value : T) (password : Bytes) :
    (w.setString c t value password).1 = true ↔ Loads c t value password := by
  rw [setString_eq]
  unfold Loads
  cases documentKeys t value with
  | none => simp
  | some jsons =>
    simp only [loadKeys_false, Option.some.injEq, exists_eq_left']
    split_ifs with hopens
    · simp [hopens]
    · simp [hopens]

/-- If the document loads, what is taken over are all its entries. -/
theorem documentEntries_of_loads {value : T} {password : Bytes} (h : Loads c t value password) :
    documentEntries t value = some (takenKeys c t value password) := by
  obtain ⟨jsons, hkeys, hall, hopens⟩ := h
  have helements : documentElements t value = some jsons := by
    obtain ⟨format, -, h⟩ := Option.bind_eq_some_iff.mp hkeys
    exact h
  unfold documentEntries takenKeys
  rw [helements, hkeys]
  simp only [if_pos hopens]
  exact mapM_ofJson hall

/-! ## All or nothing -/

/-- `setString` is all or nothing: the wallet as it was, or the entries of the document. -/
structure AllOrNothing (c : Keys K) (t : Json.Text T) (w : Wallet) (value : T)
    (password : Bytes) : Prop where
  nothing : (w.setString c t value password).1 = false → (w.setString c t value password).2 = w
  all : (w.setString c t value password).1 = true →
    documentEntries t value = some (w.setString c t value password).2.keys

/-- The wallet already holds all that is overwritten before `setString` fails. -/
structure HoldsAlready (c : Keys K) (t : Json.Text T) (w : Wallet) (value : T)
    (password : Bytes) : Prop where
  keys : w.keys = takenKeys c t value password
  password : w.password = password
  kdfIters : ∀ iters ∈ documentIters t value, w.kdfIters = iters
  defaultFormat : ∀ format ∈ documentFormat t value, w.defaultFormat = format

theorem getD_eq_iff {α : Type} {x : Option α} {a : α} : x.getD a = a ↔ ∀ b ∈ x, a = b := by
  cases x with
  | none => simp
  | some b => simp [eq_comm]

theorem holdsAlready_iff {w : Wallet} {value : T} {password : Bytes} :
    HoldsAlready c t w value password ↔ (w.setString c t value password).2 = w := by
  rw [setString_snd]
  constructor
  · intro h
    rw [getD_eq_iff.mpr h.kdfIters, getD_eq_iff.mpr h.defaultFormat, ← h.keys, ← h.password]
  · intro h
    exact ⟨(congrArg Wallet.keys h).symm, (congrArg Wallet.password h).symm,
      getD_eq_iff.mp (congrArg Wallet.kdfIters h),
      getD_eq_iff.mp (congrArg Wallet.defaultFormat h)⟩

/-- **When `setString` is all or nothing**: if the document loads, or the wallet already held all
that is overwritten before the failure. -/
theorem allOrNothing_iff (c : Keys K) (t : Json.Text T) (w : Wallet) (value : T)
    (password : Bytes) :
    AllOrNothing c t w value password ↔
      Loads c t value password ∨ HoldsAlready c t w value password := by
  by_cases hloads : Loads c t value password
  · have htrue := (setString_fst w value password).mpr hloads
    refine iff_of_true ⟨fun hfalse => ?_, fun _ => ?_⟩ (.inl hloads)
    · rw [htrue] at hfalse
      cases hfalse
    · rw [setString_snd]
      exact documentEntries_of_loads hloads
  · have hfalse : (w.setString c t value password).1 = false := by
      rw [← Bool.not_eq_true, setString_fst]
      exact hloads
    rw [or_iff_right hloads, holdsAlready_iff]
    constructor
    · intro h
      exact h.nothing hfalse
    · intro h
      refine ⟨fun _ => h, fun htrue => ?_⟩
      rw [hfalse] at htrue
      cases htrue

/-- A wallet with a key and a password. -/
def oneEntry : Wallet := { keys := [{ format := .fcPbkdf }], password := [1] }

/-- A text that is no document empties the wallet and leaves it with the password given. -/
theorem setString_empties_oneEntry :
    oneEntry.setString plainKeys Json.plainText none [2] =
        (false, { oneEntry with keys := [], password := [2] }) ∧
      ¬ AllOrNothing plainKeys Json.plainText oneEntry none [2] := by
  have hset : oneEntry.setString plainKeys Json.plainText none [2] =
      (false, { oneEntry with keys := [], password := [2] }) := rfl
  refine ⟨hset, fun h => ?_⟩
  have hsame := h.nothing (by rw [hset])
  rw [hset] at hsame
  exact absurd (congrArg Wallet.keys hsame) (by decide)

end Fluffycoin.Alg.Wallet
