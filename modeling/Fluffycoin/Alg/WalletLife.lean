import Fluffycoin.Alg.WalletFile

/-!
# A wallet over its life

Runs in which keys are added and settings changed (`Wallet.Op`) and in between the wallet is saved
and opened again, each time under a password of its own (`src/alg/Wallet.cpp`). A save for which
`getString` has no document leaves the wallet in memory as it is.

**`serves_life`**: whatever the order of all this, every key that was ever added is there, as long
as the wallet is saved without a password only while all its keys are in the clear. `getKey` finds
the newest one of an address, the getters for the latest key agree with each other, and what they
give belongs together: the address is one that `Address::verify` accepts for the key.

The condition is there because a wallet that is saved without a password is written out as it is,
under a password of its own that no function gives out (`Wallet.cpp:401-402`). If its newest key is
in the default format, nothing is left of it when it is opened again.
-/

namespace Fluffycoin.Alg.Wallet

open Fluffycoin.Ossl

variable {K T : Type} (o : OpenSsl) (c : Keys K) (t : Json.Text T)

/-- What happens to a wallet: a call, or it is saved and opened again. -/
inductive Act (K : Type) where
  | call (op : Op K)
  | reopen (password : Bytes) (rand : Nat → Bytes)

/-- A wallet is saved without a password only if that is how its keys can be read. -/
def Act.Readable (w : Wallet) : Act K → Prop
  | .call _ => True
  | .reopen password _ => password = [] → ∀ e ∈ w.keys, e.format = .clear

section Run

variable [DecidableEq T]

/-- `getString`, and then `setString` on a new wallet. -/
def reopen (w : Wallet) (password : Bytes) (rand : Nat → Bytes) : Wallet :=
  let document := w.getString c t rand password
  if document = t.empty then w else (({} : Wallet).setString c t document password).2

/-- What happens to the wallet, and the key that was added. -/
def live (w : Wallet) : Act K → Wallet × Option (Added K)
  | .call op => w.step o c op
  | .reopen password rand => (w.reopen c t password rand, none)

/-- The wallet after some acts, from a default-constructed one on. -/
def lifeAfter (acts : List (Act K)) : Wallet := Trace.final (live o c t) Prod.fst {} acts

/-- The keys added by these acts, oldest first. -/
def lifeAdded (acts : List (Act K)) : List (Added K) :=
  (Trace.trace (live o c t) Prod.fst {} acts).filterMap fun e => e.ret.2

end Run

/-! ## Saving and opening again -/

variable {o c t} {w : Wallet} {l : List (Added K)}

/-- What can be retranslated opens under the new password. -/
theorem decrypt_retranslate (hc : c.Laws) {format newFormat : EncFormat} {iters : UInt32}
    {original translated : List Char} {password newPassword rand : Bytes} {key : K}
    (hnew : newPassword ≠ []) (hkey : decrypt c format original password = some key)
    (h : retranslate c format newFormat iters original password newPassword rand =
      some translated) :
    newFormat ≠ .none ∧ decrypt c newFormat translated newPassword = some key := by
  have hcode {newEnc : Bytes} (h : (if newEnc = [] then none
      else if Base64.encode newEnc = [] then none else some (Base64.encode newEnc)) =
        some translated) : newEnc ≠ [] ∧ Base64.encode newEnc = translated := by
    split at h
    · cases h
    · split at h
      · cases h
      · exact ⟨‹_›, Option.some.inj h⟩
  unfold retranslate at h
  rw [hkey] at h
  cases newFormat with
  | fcPbkdf =>
    obtain ⟨hwrap, rfl⟩ := hcode h
    refine ⟨by decide, ?_⟩
    simp only [decrypt, Base64.decode_encode]
    exact hc.pbkdf key _ _ rand hnew (PbkdfKey.of_wrap_ne_nil hwrap).2
  | pkcs8 =>
    obtain ⟨hwrap, rfl⟩ := hcode h
    refine ⟨by decide, ?_⟩
    simp only [decrypt, Base64.decode_encode]
    exact hc.pkcs8 key _ _ rand hnew (Pkcs8Key.of_wrap_ne_nil hwrap)
  | clear => exact absurd rfl (hcode h).1
  | none => exact absurd rfl (hcode h).1

/-- What is exported under another password holds the same key under that one. -/
theorem exportEntry_eq_some (hc : c.Laws) {p rand : Bytes} (hp : p ≠ []) (hown : p ≠ w.password)
    {e : Entry} {a : Added K} (ha : Holds c w.password e a) {json : Json}
    (h : w.exportEntry c p rand e = some json) : ∃ e', json = e'.toJson ∧ Holds c p e' a := by
  unfold exportEntry at h
  rw [if_neg (not_or.mpr ⟨hp, hown⟩)] at h
  split at h
  · cases h
  · rename_i translated htrans
    obtain rfl := Option.some.inj h
    obtain ⟨hformat, hkey⟩ := decrypt_retranslate hc hp ha.key htrans
    exact ⟨_, rfl, ha.usage, ha.address, hformat, hkey⟩

theorem exportEntries_eq_some (hc : c.Laws) {p : Bytes} {rand : Nat → Bytes} (hp : p ≠ [])
    (hown : p ≠ w.password) {es : List Entry} (hes : List.Forall₂ (Holds c w.password) es l)
    {n : Nat} {jsons : List Json} (h : w.exportEntries c p rand n es = some jsons) :
    ∃ es', jsons = es'.map Entry.toJson ∧ List.Forall₂ (Holds c p) es' l := by
  induction hes generalizing n jsons with
  | nil =>
    obtain rfl := Option.some.inj h
    exact ⟨[], rfl, .nil⟩
  | cons ha _ ih =>
    unfold exportEntries at h
    split at h
    · cases h
    · rename_i json hjson
      obtain ⟨jsons, hjsons, rfl⟩ := Option.map_eq_some_iff.mp h
      obtain ⟨e', rfl, he'⟩ := exportEntry_eq_some hc hp hown ha hjson
      obtain ⟨es', rfl, hes'⟩ := ih hjsons
      exact ⟨e' :: es', rfl, .cons he' hes'⟩

section Reopen

variable [DecidableEq T]

/-- In the same format, under a password its keys are held under. -/
theorem Inv.reopen_same (ht : t.Laws) {p : Bytes} (hp : p = [] ∨ p = w.password)
    (hkeys : List.Forall₂ (Holds c p) w.keys l.reverse)
    (hclear : p = [] → ∀ e ∈ w.keys, e.format = .clear) (rand : Nat → Bytes) :
    Inv c (w.reopen c t p rand) l := by
  have hinv : Inv c { w with password := p } l := ⟨hkeys, hclear⟩
  obtain ⟨hne, hset⟩ := setString_getString_same (q := p) ht hp hinv.opens rand {}
  have hreopen : w.reopen c t p rand = { w with password := p } := by
    unfold Wallet.reopen
    dsimp only
    rw [if_neg hne, hset]
  rw [hreopen]
  exact hinv

/-- **Opening again keeps the keys.** -/
theorem Inv.reopen (hc : c.Laws) (ht : t.Laws) (h : Inv c w l) {p : Bytes}
    (hclear : p = [] → ∀ e ∈ w.keys, e.format = .clear) (rand : Nat → Bytes) :
    Inv c (w.reopen c t p rand) l := by
  by_cases hown : p = w.password
  · exact reopen_same ht (.inr hown) (hown ▸ h.keys) hclear rand
  by_cases hp : p = []
  · exact reopen_same ht (.inl hp) (forall₂_holds_of_clear h.keys (hclear hp) p) hclear rand
  cases hexport : w.exportEntries c p rand 0 w.keys with
  | none =>
    -- there is no document
    have hreopen : w.reopen c t p rand = w := if_pos (by simp only [getString, hexport])
    rw [hreopen]
    exact h
  | some jsons =>
    obtain ⟨es, rfl, hes⟩ := exportEntries_eq_some hc hp hown h.keys hexport
    have hinv : Inv c { w with keys := es, password := p } l := ⟨hes, fun hnil => absurd hnil hp⟩
    have hreopen : w.reopen c t p rand = { w with keys := es, password := p } := by
      simp only [Wallet.reopen, getString, hexport, if_neg (ht.dump_ne_empty _), setString_dump ht]
      rw [loadKeys_map _ (fun e he => (hinv.opens e he).1) (.inr fun e he => (hinv.opens e he).2),
        List.nil_append]
    rw [hreopen]
    exact hinv

/-- **Nothing is left** of a wallet whose newest key is in the default format, when it is saved
without a password. -/
theorem keys_reopen_nil (ht : t.Laws) {e : Entry} (he : w.keys.head? = some e)
    (hformat : e.format = .fcPbkdf) (rand : Nat → Bytes) : (w.reopen c t [] rand).keys = [] := by
  obtain ⟨es, hes⟩ := List.head?_eq_some_iff.mp he
  obtain ⟨hne, hset⟩ := setString_getString_nil (c := c) ht hes hformat rand {}
  unfold Wallet.reopen
  dsimp only
  rw [if_neg hne, hset]

end Reopen

/-! ## Runs -/

/-- What a wallet gives out for the keys that were added to it. -/
structure Serves (o : OpenSsl) (c : Keys K) (w : Wallet) (l : List (Added K)) : Prop where
  /-- The newest key of an address, and a key for every address under which one was added. -/
  getKey : ∀ address, w.getKey c address =
    (l.reverse.find? fun a => a.address = address).map Added.key
  getLatestKey : ∀ usage, w.getLatestKey c usage = (latest l usage).map Added.key
  getLatestAddress : ∀ usage, w.getLatestAddress usage =
    ((latest l usage).map Added.address).getD []
  /-- Every key is filed under an address of its own. -/
  verified : ∀ a ∈ l, Address.verifyString o a.address (c.toPublic a.key) = true
  /-- So the latest address is one of the latest public key. -/
  belongs : ∀ usage, (latest l usage).isSome →
    Address.verifyString o (w.getLatestAddress usage) (w.getLatestPublicKey c usage) = true

/-- The first entry of an address opens to the first of the added keys of that address. -/
theorem find?_holds {password : Bytes} {es : List Entry} {l : List (Added K)}
    (h : List.Forall₂ (Holds c password) es l) (address : List Char) :
    ((es.find? fun e => e.address = address).bind fun e =>
        decrypt c e.format e.privKey password) =
      (l.find? fun a => a.address = address).map Added.key := by
  induction h with
  | nil => rfl
  | @cons e a es l he _ ih =>
    by_cases haddress : a.address = address
    · simp [he.address, haddress, he.key]
    · simpa [he.address, haddress] using ih

theorem Inv.getKey (h : Inv c w l) (address : List Char) :
    w.getKey c address = (l.reverse.find? fun a => a.address = address).map Added.key := by
  rw [← find?_holds h.keys address, Wallet.getKey]
  cases w.keys.find? fun e => e.address = address <;> rfl

/-- What is added belongs to its address. -/
theorem verified_step {op : Op K} {a : Added K} (h : (w.step o c op).2 = some a) :
    Address.verifyString o a.address (c.toPublic a.key) = true := by
  have hadd {d : Draws} {usage : KeyUsage} {key : K} {address : List Char}
      (h : (w.addStep o c d usage key address).2 = some a) :
      Address.verifyString o a.address (c.toPublic a.key) = true := by
    unfold addStep addKey at h
    by_contra hverify
    cases hown : Address.verifyString o address (c.toPublic key) with
    | false => simp [hown] at h
    | true =>
      simp only [Option.ite_none_right_eq_some, Option.some.injEq] at h
      obtain ⟨-, rfl⟩ := h
      exact hverify hown
  cases op with
  | setEncFormat format iters => cases h
  | makeNewKey d generated usage addressSalt =>
    cases generated with
    | none => cases h
    | some key => exact hadd h
  | addKey d usage key address => exact hadd h

structure LifeInv (o : OpenSsl) (c : Keys K) (w : Wallet) (l : List (Added K)) : Prop where
  inv : Inv c w l
  verified : ∀ a ∈ l, Address.verifyString o a.address (c.toPublic a.key) = true

theorem LifeInv.serves (h : LifeInv o c w l) : Serves o c w l := by
  refine ⟨h.inv.getKey, fun usage => (h.inv.getLatest usage).1,
    fun usage => (h.inv.getLatest usage).2, h.verified, fun usage hsome => ?_⟩
  obtain ⟨a, ha⟩ := Option.isSome_iff_exists.mp hsome
  obtain ⟨hkey, haddress⟩ := h.inv.getLatest usage
  rw [ha] at hkey haddress
  rw [haddress, getLatestPublicKey, hkey]
  exact h.verified a (List.mem_reverse.mp (List.mem_of_find?_eq_some ha))

variable [DecidableEq T]

/-- **One act.** -/
theorem LifeInv.live (hc : c.Laws) (ht : t.Laws) (h : LifeInv o c w l) {act : Act K}
    (hact : act.Readable w) :
    LifeInv o c (w.live o c t act).1 (l ++ (w.live o c t act).2.toList) := by
  cases act with
  | call op =>
    refine ⟨inv_step hc h.inv op, ?_⟩
    rw [List.forall_mem_append]
    exact ⟨h.verified, fun a ha => verified_step (Option.mem_toList.mp ha)⟩
  | reopen password rand =>
    simp only [Wallet.live, Option.toList_none, List.append_nil]
    exact ⟨h.inv.reopen hc ht hact rand, h.verified⟩

/-- **No key is ever lost**, as long as the wallet is saved without a password only while all its
keys are in the clear. However calls, saves, new passwords and reopenings follow each other, it
gives out the keys that were added to it. If its newest key is in the default format, saving it
without a password leaves none. -/
theorem serves_life (o : OpenSsl) (c : Keys K) (hc : c.Laws) (t : Json.Text T) (ht : t.Laws)
    (acts : List (Act K))
    (hacts : Trace.Along (live o c t) Prod.fst (fun w act => act.Readable w) {} acts) :
    Serves o c (lifeAfter o c t acts) (lifeAdded o c t acts) ∧
      ∀ e ∈ (lifeAfter o c t acts).keys.head?, e.format = .fcPbkdf → ∀ rand,
        (lifeAfter o c t (acts ++ [.reopen [] rand])).keys = [] := by
  have hrun := Trace.invariant (Wallet.live o c t) Prod.fst (LifeInv o c) (fun e => e.ret.2)
    (fun e => e.input.Readable e.before) (fun _ => True)
    (fun w l act h hact => ⟨h.live hc ht hact, trivial⟩) acts {} []
    ⟨⟨.nil, fun _ => List.forall_mem_nil _⟩, List.forall_mem_nil _⟩
    (fun e he => hacts.of_mem_trace he)
  refine ⟨hrun.1.serves, fun e he hformat rand => ?_⟩
  rw [lifeAfter, Trace.final_append]
  exact keys_reopen_nil ht he hformat rand

/-- A key is made, the wallet is saved under a password and opened again, a second key is made. -/
def twoSittings : List (Act { point : Bytes // point.length = Curve25519.pointLen }) :=
  [.call (.makeNewKey zeroDraws (some zeroKey) .specie []), .reopen [1] fun _ => [],
    .call (.makeNewKey zeroDraws (some zeroKey) .validator [])]

open Classical in
theorem serves_life_twoSittings :
    Serves zeroDigest plainKeys (lifeAfter zeroDigest plainKeys Json.plainText twoSittings)
        (lifeAdded zeroDigest plainKeys Json.plainText twoSittings) ∧
      ∀ e ∈ (lifeAfter zeroDigest plainKeys Json.plainText twoSittings).keys.head?,
        e.format = .fcPbkdf → ∀ rand,
          (lifeAfter zeroDigest plainKeys Json.plainText
            (twoSittings ++ [.reopen [] rand])).keys = [] :=
  serves_life zeroDigest plainKeys plainKeys_laws Json.plainText Json.plainText_laws twoSittings
    ⟨trivial, nofun, trivial, trivial⟩

end Fluffycoin.Alg.Wallet
