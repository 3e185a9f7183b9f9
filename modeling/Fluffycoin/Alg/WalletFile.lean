import Fluffycoin.Alg.Wallet
import Fluffycoin.Block.Der

/-!
# Saving and opening wallets

What is left of a wallet that went through `getString` and `setString`.

A wallet made by `setEncFormat`, `makeNewKey` and `addKey` holds the keys that were added, newest
first, each readable under the wallet's password (`Wallet.Inv`, kept by every call). So a document
made in the same format (`getString` with the wallet's own password, or with none) opens under that
password, with the same entries: **`own_password_lossless`**.

With another password every key is decrypted and wrapped again in the default format. The new key
strings open under the new password, provided the default format is one that wraps: `retranslate`
has no case for `Clear`, nor for the `None` that `addKey` takes for `FcPbkdf`, and `getString`
answers with the empty string (`Wallet.cpp:125-137`). **`export_reopens`** collects which password
opens which document.
-/

namespace Fluffycoin.Alg.Wallet

open Fluffycoin.Ossl

variable {K T : Type} {o : OpenSsl} {c : Keys K} {t : Json.Text T}

/-! ## The keys of a wallet -/

/-- The entry is the one of an added key and opens under the password. -/
structure Holds (c : Keys K) (password : Bytes) (e : Entry) (a : Added K) : Prop where
  usage : e.usage = a.usage
  address : e.address = a.address
  format : e.format ≠ .none
  key : decrypt c e.format e.privKey password = some a.key

/-- A key in the clear opens under any password. -/
theorem Holds.of_clear {password : Bytes} {e : Entry} {a : Added K} (h : Holds c password e a)
    (hclear : e.format = .clear) (password' : Bytes) : Holds c password' e a := by
  refine ⟨h.usage, h.address, h.format, ?_⟩
  rw [← h.key, hclear]
  rfl

/-- The wallet holds the added keys, newest first. Without a password they are in the clear. -/
structure Inv (c : Keys K) (w : Wallet) (l : List (Added K)) : Prop where
  keys : List.Forall₂ (Holds c w.password) w.keys l.reverse
  password : w.password = [] → ∀ e ∈ w.keys, e.format = .clear

/-- Keys in the clear are held under any password. -/
theorem forall₂_holds_of_clear {password : Bytes} {es : List Entry} {l : List (Added K)}
    (h : List.Forall₂ (Holds c password) es l) (hclear : ∀ e ∈ es, e.format = .clear)
    (password' : Bytes) : List.Forall₂ (Holds c password') es l :=
  ((List.forall₂_and_left _ _).mpr ⟨hclear, h⟩).imp fun _ _ he => he.2.of_clear he.1 password'

/-- What `addKey` encrypts under a password opens under it. -/
theorem decrypt_encrypt (hc : c.Laws) {w : Wallet} (hp : w.password ≠ []) {key : K} {rand : Bytes}
    (h : (w.encrypt c key rand).2 ≠ []) :
    (w.encrypt c key rand).1 ≠ .none ∧
      decrypt c (w.encrypt c key rand).1 (w.encrypt c key rand).2 w.password = some key := by
  have hpbkdf : Base64.encode (PbkdfKey.wrap c key w.password w.kdfIters rand) ≠ [] →
      decrypt c .fcPbkdf (Base64.encode (PbkdfKey.wrap c key w.password w.kdfIters rand))
        w.password = some key := by
    intro hne
    have hwrap : PbkdfKey.wrap c key w.password w.kdfIters rand ≠ [] := by
      intro hnil
      rw [hnil] at hne
      exact hne rfl
    simp only [decrypt, Base64.decode_encode]
    exact hc.pbkdf key _ _ rand hp (PbkdfKey.of_wrap_ne_nil hwrap).2
  unfold encrypt at h ⊢
  cases hformat : w.defaultFormat with
  | none =>
    rw [hformat] at h
    exact ⟨by simp, hpbkdf h⟩
  | fcPbkdf =>
    rw [hformat] at h
    exact ⟨by simp, hpbkdf h⟩
  | clear =>
    refine ⟨by simp, ?_⟩
    simp only [decrypt, Base64.decode_encode]
    exact Curve25519.fromPrivate_toPrivate hc key
  | pkcs8 =>
    rw [hformat] at h
    have hwrap : Pkcs8Key.wrap c key w.password w.kdfIters rand ≠ [] := by
      intro hnil
      simp only [hnil] at h
      exact h rfl
    refine ⟨by simp, ?_⟩
    simp only [decrypt, Base64.decode_encode]
    exact hc.pkcs8 key _ _ rand hp (Pkcs8Key.of_wrap_ne_nil hwrap)

/-- The wallet `addKey` encrypts for: with a password, its own or the drawn one. -/
def opened (w : Wallet) (d : Draws) : Wallet :=
  if w.password = [] then { w with password := d.password } else w

theorem opened_of_ne_nil {w : Wallet} (h : w.password ≠ []) (d : Draws) : w.opened d = w :=
  if_neg h

theorem keys_opened (w : Wallet) (d : Draws) : (w.opened d).keys = w.keys := by
  unfold opened
  split <;> rfl

theorem settings_opened (w : Wallet) (d : Draws) :
    (w.opened d).defaultFormat = w.defaultFormat ∧ (w.opened d).kdfIters = w.kdfIters := by
  unfold opened
  split <;> exact ⟨rfl, rfl⟩

theorem password_opened_ne_nil (w : Wallet) (d : Draws) : (w.opened d).password ≠ [] := by
  unfold opened
  split
  · intro hnil
    have hlen := d.password_length
    rw [show d.password = [] from hnil] at hlen
    cases hlen
  · assumption

/-- A verified key that could be encrypted goes in front of the others. -/
theorem addStep_of_verify {w : Wallet} {d : Draws} {key : K} {address : List Char}
    (hverify : Address.verifyString o address (c.toPublic key) = true)
    (hpriv : ((w.opened d).encrypt c key d.wrap).2 ≠ []) (usage : KeyUsage) :
    w.addStep o c d usage key address =
      ({ w.opened d with keys :=
          ⟨d.time, usage, ((w.opened d).encrypt c key d.wrap).1, address,
            ((w.opened d).encrypt c key d.wrap).2⟩ :: w.keys },
        some ⟨usage, key, address⟩) := by
  unfold addStep addKey
  rw [hverify]
  simp only [Bool.not_true, Bool.false_eq_true, if_false]
  rw [show (if w.password = [] then { w with password := d.password } else w) = w.opened d from rfl,
    if_neg hpriv, keys_opened]
  rfl

/-- With a password and an admissible number of iterations every key can be encrypted. -/
theorem encrypt_ne_nil (hc : c.Laws) {w : Wallet} (hp : w.password ≠ [])
    (hiters : KdfIters w.kdfIters) (key : K) (rand : Bytes) : (w.encrypt c key rand).2 ≠ [] := by
  unfold encrypt
  cases w.defaultFormat with
  | none => exact Base64.encode_ne_nil (PbkdfKey.wrap_ne_nil hc key hp hiters rand)
  | fcPbkdf => exact Base64.encode_ne_nil (PbkdfKey.wrap_ne_nil hc key hp hiters rand)
  | pkcs8 => exact Base64.encode_ne_nil (Pkcs8Key.wrap_ne_nil hc key hp hiters rand)
  | clear =>
    refine Base64.encode_ne_nil fun hnil => ?_
    have hopen := Curve25519.fromPrivate_toPrivate hc key
    rw [hnil] at hopen
    cases hopen

/-- The address of a new key is one of its addresses. -/
theorem verify_newAddress (hsha : ∀ data, Address.truncatedHashLen ≤ (o.sha2_256 data).length)
    (d : Draws) (key : K) (addressSalt : List Char) :
    Address.verifyString o (newAddress o c d key addressSalt) (c.toPublic key) = true := by
  refine Address.verifyString_printable ?_
  unfold newAddressBin
  split
  · exact Address.verify_generate hsha d.rand_length _ _
  · exact Address.verify_generate hsha d.rand_length _ _

/-- **What `makeNewKey` does** when the number of iterations is admissible: the key goes in front,
under its address. -/
theorem makeNewKey_adds (hc : c.Laws)
    (hsha : ∀ data, Address.truncatedHashLen ≤ (o.sha2_256 data).length) {w : Wallet}
    (hiters : KdfIters w.kdfIters) (d : Draws) (key : K) (usage : KeyUsage)
    (addressSalt : List Char) :
    ∃ w' e, w.makeNewKey o c d (some key) usage addressSalt = (some key, w') ∧
      w'.keys = e :: w.keys ∧ w'.password = (w.opened d).password ∧ w'.kdfIters = w.kdfIters ∧
      Holds c w'.password e ⟨usage, key, newAddress o c d key addressSalt⟩ := by
  have hverify := verify_newAddress (c := c) hsha d key addressSalt
  have hpriv := encrypt_ne_nil hc (password_opened_ne_nil w d)
    (by rw [(settings_opened w d).2]; exact hiters) key d.wrap
  obtain ⟨hformat, hkey⟩ := decrypt_encrypt hc (password_opened_ne_nil w d) hpriv
  rw [makeNewKey_some, addStep_of_verify hverify hpriv usage]
  exact ⟨_, _, rfl, rfl, rfl, (settings_opened w d).2, rfl, rfl, hformat, hkey⟩

/-- **What `addKey` does**: nothing, or no more than draw the password, or an entry for the key in
front of the others. -/
theorem addStep_cases (hc : c.Laws) (w : Wallet) (d : Draws) (usage : KeyUsage) (key : K)
    (address : List Char) :
    w.addStep o c d usage key address = (w, none) ∨
    w.addStep o c d usage key address = (w.opened d, none) ∨
    ∃ e, Holds c (w.opened d).password e ⟨usage, key, address⟩ ∧
      w.addStep o c d usage key address =
        ({ w.opened d with keys := e :: w.keys }, some ⟨usage, key, address⟩) := by
  by_cases hverify : Address.verifyString o address (c.toPublic key) = true
  · by_cases hpriv : ((w.opened d).encrypt c key d.wrap).2 = []
    · refine .inr (.inl ?_)
      unfold addStep addKey
      rw [hverify]
      simp only [Bool.not_true, Bool.false_eq_true, if_false]
      rw [show (if w.password = [] then { w with password := d.password } else w) = w.opened d from
        rfl, if_pos hpriv]
      rfl
    · obtain ⟨hformat, hkey⟩ := decrypt_encrypt hc (password_opened_ne_nil w d) hpriv
      exact .inr (.inr ⟨⟨d.time, usage, _, address, _⟩, ⟨rfl, rfl, hformat, hkey⟩,
        addStep_of_verify hverify hpriv usage⟩)
  · refine .inl ?_
    rw [Bool.not_eq_true] at hverify
    unfold addStep addKey
    rw [hverify]
    rfl

theorem Inv.opened {w : Wallet} {l : List (Added K)} (h : Inv c w l) (d : Draws) :
    Inv c (w.opened d) l := by
  by_cases hp : w.password = []
  · refine ⟨?_, fun hnil => absurd hnil (password_opened_ne_nil w d)⟩
    rw [keys_opened]
    exact forall₂_holds_of_clear h.keys (h.password hp) _
  · rw [opened_of_ne_nil hp]
    exact h

theorem inv_addStep (hc : c.Laws) {w : Wallet} {l : List (Added K)} (h : Inv c w l) (d : Draws)
    (usage : KeyUsage) (key : K) (address : List Char) :
    Inv c (w.addStep o c d usage key address).1
      (l ++ (w.addStep o c d usage key address).2.toList) := by
  rcases addStep_cases (o := o) hc w d usage key address with he | he | ⟨e, hholds, he⟩
  · rw [he, Option.toList_none, List.append_nil]
    exact h
  · rw [he, Option.toList_none, List.append_nil]
    exact h.opened d
  · rw [he]
    refine ⟨?_, fun hnil => absurd hnil (password_opened_ne_nil w d)⟩
    have hkeys := (h.opened d).keys
    rw [keys_opened] at hkeys
    rw [Option.toList_some, List.reverse_append, List.reverse_singleton]
    exact .cons hholds hkeys

theorem inv_step (hc : c.Laws) {w : Wallet} {l : List (Added K)} (h : Inv c w l) (op : Op K) :
    Inv c (w.step o c op).1 (l ++ (w.step o c op).2.toList) := by
  cases op with
  | setEncFormat format iters =>
    refine ⟨?_, h.password⟩
    simp only [step, Option.toList_none, List.append_nil]
    exact h.keys
  | makeNewKey d generated usage addressSalt =>
    cases generated with
    | none =>
      simp only [step, Option.toList_none, List.append_nil]
      exact h
    | some key => exact inv_addStep hc h d usage key _
  | addKey d usage key address => exact inv_addStep hc h d usage key _

/-- **A wallet holds the keys that were added to it.** -/
theorem inv_after (hc : c.Laws) (ops : List (Op K)) : Inv c (after o c ops) (added o c ops) := by
  have hrun := Trace.invariant (step o c) Prod.fst (Inv c) (fun e => e.ret.2)
    (fun _ => True) (fun _ => True) (fun w l op h _ => ⟨inv_step hc h op, trivial⟩) ops {} []
    ⟨.nil, fun _ => List.forall_mem_nil _⟩ (fun _ _ => trivial)
  exact hrun.1

/-- The latest key of a usage, before any saving. -/
theorem find?_of_forall₂ {password : Bytes} {es : List Entry} {l : List (Added K)}
    (h : List.Forall₂ (Holds c password) es l) (usage : KeyUsage) :
    (getTopKey es usage = none ∧ l.find? (fun a => a.usage = usage) = none) ∨
      ∃ e a, getTopKey es usage = some e ∧ l.find? (fun a => a.usage = usage) = some a ∧
        Holds c password e a := by
  unfold getTopKey
  induction h with
  | nil => exact .inl ⟨rfl, rfl⟩
  | @cons e a es l he _ ih =>
    by_cases hu : e.usage = usage
    · have ha : a.usage = usage := he.usage.symm.trans hu
      exact .inr ⟨e, a, by simp [hu], by simp [ha], he⟩
    · have ha : a.usage ≠ usage := fun ha => hu (he.usage.trans ha)
      simpa [hu, ha] using ih

/-- The latest of the added keys with the given usage. -/
def latest (l : List (Added K)) (usage : KeyUsage) : Option (Added K) :=
  l.reverse.find? fun a => a.usage = usage

theorem Inv.getLatest {w : Wallet} {l : List (Added K)} (h : Inv c w l) (usage : KeyUsage) :
    w.getLatestKey c usage = (latest l usage).map Added.key ∧
      w.getLatestAddress usage = ((latest l usage).map Added.address).getD [] := by
  unfold getLatestKey getLatestAddress latest
  rcases find?_of_forall₂ h.keys usage with ⟨he, ha⟩ | ⟨e, a, he, ha, hholds⟩
  · rw [he, ha]
    exact ⟨rfl, rfl⟩
  · rw [he, ha]
    exact ⟨hholds.key, hholds.address⟩

/-! ## Documents -/

theorem EncFormat.fromString_toString (f : EncFormat) : fromString f.toString = f := by
  cases f <;> decide

theorem KeyUsage.fromString_toString (u : KeyUsage) : fromString u.toString = u := by
  cases u <;> decide

theorem Entry.ofJson_toJson {e : Entry} (h : e.format ≠ .none) : ofJson e.toJson = some e := by
  have htime := Json.getUInt64_number e.time
  simp [ofJson, toJson, Json.member, List.lookup_cons, Json.getString, htime,
    EncFormat.fromString_toString, KeyUsage.fromString_toString, h]

/-- Entries that are written out load in the same order, if the first one opens. -/
theorem loadKeys_map {password : Bytes} :
    ∀ {es : List Entry} {bPwVerify : Bool} (w : Wallet), (∀ e ∈ es, e.format ≠ .none) →
      (bPwVerify = true ∨ ∀ e ∈ es, (decrypt c e.format e.privKey password).isSome = true) →
        loadKeys c password bPwVerify (es.map Entry.toJson) w =
          (true, { w with keys := w.keys ++ es })
  | [], _, w, _, _ => by simp [loadKeys]
  | e :: es, bPwVerify, w, hformat, hopen => by
    have hload := Entry.ofJson_toJson (hformat e List.mem_cons_self)
    have hverify : (!bPwVerify && (decrypt c e.format e.privKey password).isNone) = false := by
      rcases hopen with rfl | hopen
      · rfl
      · have hsome := hopen e List.mem_cons_self
        rw [← Option.not_isSome, hsome]
        simp
    have ih := loadKeys_map { w with keys := w.keys ++ [e] }
      (fun e' he' => hformat e' (List.mem_cons_of_mem _ he'))
      (show true = true ∨ ∀ e' ∈ es, (decrypt c e'.format e'.privKey password).isSome = true from
        .inl rfl)
    rw [List.map_cons, loadKeys, hload]
    simp only [hverify, Bool.false_eq_true, if_false]
    rw [ih, List.append_assoc, List.singleton_append]

theorem setString_dump (ht : t.Laws) (v w : Wallet) (entries : List Json) (password : Bytes) :
    v.setString c t (t.dump (.object [("config", w.config), ("keys", .array entries)])) password =
      loadKeys c password false entries { w with keys := [], password } := by
  unfold setString
  simp [ht.parse_dump, Json.member, List.lookup_cons, config, Json.constMember,
    Json.getUInt32_number, Json.getString, EncFormat.fromString_toString, Json.elements]

/-- If every entry is written out, the whole document is, entry by entry. -/
theorem exportEntries_of {w : Wallet} {password : Bytes} {rand : Nat → Bytes}
    {r : Entry → Entry → Prop} :
    ∀ {es : List Entry}, (∀ e ∈ es, ∀ n, ∃ e', w.exportEntry c password (rand n) e =
        some e'.toJson ∧ r e e') → ∀ n, ∃ es', w.exportEntries c password rand n es =
          some (es'.map Entry.toJson) ∧ List.Forall₂ r es es'
  | [], _, _ => ⟨[], rfl, .nil⟩
  | e :: es, h, n => by
    obtain ⟨e', he', hr⟩ := h e List.mem_cons_self n
    obtain ⟨es', hes', hrs⟩ :=
      exportEntries_of (fun x hx => h x (List.mem_cons_of_mem _ hx)) (n + 1)
    refine ⟨e' :: es', ?_, .cons hr hrs⟩
    simp only [exportEntries, he', hes', Option.map_some, List.map_cons]

/-- **What opens**: if every entry is written out as one that has a format and opens under `q`, the
document opens under `q`, with these entries. -/
theorem setString_getString (ht : t.Laws) {w : Wallet} {p q : Bytes} {rand : Nat → Bytes}
    {r : Entry → Entry → Prop}
    (h : ∀ e ∈ w.keys, ∀ n, ∃ e', w.exportEntry c p (rand n) e = some e'.toJson ∧ r e e')
    (hr : ∀ e e', r e e' →
      e'.format ≠ .none ∧ (decrypt c e'.format e'.privKey q).isSome = true) (v : Wallet) :
    w.getString c t rand p ≠ t.empty ∧
      ∃ es', v.setString c t (w.getString c t rand p) q =
        (true, { w with keys := es', password := q }) ∧ List.Forall₂ r w.keys es' := by
  obtain ⟨es', hes', hrs⟩ := exportEntries_of h 0
  have hgood : ∀ e' ∈ es',
      e'.format ≠ .none ∧ (decrypt c e'.format e'.privKey q).isSome = true := by
    exact ((List.forall₂_and_left _ _).mp (hrs.flip.imp fun e' e he => ⟨hr e e' he, he⟩)).1
  unfold getString
  rw [hes']
  refine ⟨ht.dump_ne_empty _, es', ?_, hrs⟩
  rw [setString_dump ht, loadKeys_map _ (fun e he => (hgood e he).1)
    (.inr fun e he => (hgood e he).2), List.nil_append]

/-! ## In the same format -/

theorem exportEntry_of_same {w : Wallet} {p : Bytes} (hp : p = [] ∨ p = w.password) (rand : Bytes)
    (e : Entry) : w.exportEntry c p rand e = some e.toJson :=
  if_pos hp

/-- A wallet written out in the same format opens under every password its entries open under. -/
theorem setString_getString_same (ht : t.Laws) {w : Wallet} {p q : Bytes}
    (hp : p = [] ∨ p = w.password)
    (hq : ∀ e ∈ w.keys, e.format ≠ .none ∧ (decrypt c e.format e.privKey q).isSome = true)
    (rand : Nat → Bytes) (v : Wallet) :
    w.getString c t rand p ≠ t.empty ∧
      v.setString c t (w.getString c t rand p) q = (true, { w with password := q }) := by
  obtain ⟨hne, es', hset, hsame⟩ := setString_getString (c := c) (p := p) (q := q)
    (r := fun e e' => e' = e ∧ e ∈ w.keys) ht
    (fun e he n => ⟨e, exportEntry_of_same hp (rand n) e, rfl, he⟩)
    (by
      rintro e e' ⟨rfl, he⟩
      exact hq e' he) v
  have hkeys : w.keys = es' := by
    rw [← List.forall₂_eq_eq_eq]
    exact hsame.imp fun e e' h => h.1.symm
  rw [hset, ← hkeys]
  exact ⟨hne, rfl⟩

theorem Inv.opens {w : Wallet} {l : List (Added K)} (h : Inv c w l) :
    ∀ e ∈ w.keys,
      e.format ≠ .none ∧ (decrypt c e.format e.privKey w.password).isSome = true := by
  refine ((List.forall₂_and_left _ _).mp (h.keys.imp fun e a he => ⟨?_, he⟩)).1
  exact ⟨he.format, by rw [he.key]; rfl⟩

/-- **Saving under the own password is lossless.** The document opens under the password and gives
the wallet that was saved. Both hold the keys that were added, newest first. -/
theorem own_password_lossless (o : OpenSsl) (c : Keys K) (hc : c.Laws) (t : Json.Text T)
    (ht : t.Laws) (ops : List (Op K)) (rand : Nat → Bytes) :
    let w := after o c ops
    let r := ({} : Wallet).setString c t (w.getString c t rand w.password) w.password
    r = (true, w) ∧
      ∀ v ∈ [w, r.2],
        List.Forall₂ (Holds c v.password) v.keys (added o c ops).reverse ∧
        ∀ usage, v.getLatestKey c usage = (latest (added o c ops) usage).map Added.key ∧
          v.getLatestAddress usage =
            ((latest (added o c ops) usage).map Added.address).getD [] := by
  intro w r
  have hinv : Inv c w (added o c ops) := inv_after hc ops
  have hr : r = (true, w) := (setString_getString_same ht (.inr rfl) hinv.opens rand {}).2
  refine ⟨hr, fun v hv => ?_⟩
  have hvw : v = w := by
    rw [hr] at hv
    simpa using hv
  rw [hvw]
  exact ⟨hinv.keys, hinv.getLatest⟩

/-! ## Under another password -/

/-- A call whose number of iterations `wrap` admits. -/
def Op.Admissible : Op K → Prop
  | .setEncFormat _ iters => KdfIters iters
  | _ => True

theorem kdfIters_addStep (hc : c.Laws) (w : Wallet) (d : Draws) (usage : KeyUsage) (key : K)
    (address : List Char) : (w.addStep o c d usage key address).1.kdfIters = w.kdfIters := by
  rcases addStep_cases (o := o) hc w d usage key address with he | he | ⟨e, -, he⟩
  · rw [he]
  · rw [he]
    exact (settings_opened w d).2
  · rw [he]
    exact (settings_opened w d).2

theorem kdfIters_step (hc : c.Laws) {w : Wallet} (h : KdfIters w.kdfIters) {op : Op K}
    (hop : op.Admissible) : KdfIters (w.step o c op).1.kdfIters := by
  cases op with
  | setEncFormat format iters => exact hop
  | makeNewKey d generated usage addressSalt =>
    cases generated with
    | none => exact h
    | some key =>
      simp only [step, kdfIters_addStep hc]
      exact h
  | addKey d usage key address =>
    simp only [step, kdfIters_addStep hc]
    exact h

theorem kdfIters_after (hc : c.Laws) {ops : List (Op K)} (hops : ∀ op ∈ ops, op.Admissible) :
    KdfIters (after o c ops).kdfIters := by
  have hrun := Trace.invariant (step o c) Prod.fst
    (fun w (_ : List Unit) => KdfIters w.kdfIters) (fun _ => none) (fun e => e.input.Admissible)
    (fun _ => True) (fun w l op h hop => ⟨kdfIters_step hc h hop, trivial⟩) ops {} []
    (by decide) (fun e he => hops _ (Trace.input_mem_of_mem_trace _ _ he))
  exact hrun.1

/-- What is retranslated to a format that wraps opens under the new password. -/
theorem retranslate_opens (hc : c.Laws) {format newFormat : EncFormat} {iters : UInt32}
    {original : List Char} {password newPassword : Bytes} {key : K}
    (hformat : newFormat = .fcPbkdf ∨ newFormat = .pkcs8) (hiters : KdfIters iters)
    (hnew : newPassword ≠ []) (hkey : decrypt c format original password = some key)
    (rand : Bytes) :
    ∃ translated, retranslate c format newFormat iters original password newPassword rand =
        some translated ∧ decrypt c newFormat translated newPassword = some key := by
  unfold retranslate
  rw [hkey]
  rcases hformat with rfl | rfl
  · have hne := PbkdfKey.wrap_ne_nil hc key hnew hiters rand
    refine ⟨Base64.encode (PbkdfKey.wrap c key newPassword iters rand), ?_, ?_⟩
    · simp only [if_neg hne, if_neg (Base64.encode_ne_nil hne)]
    · simp only [decrypt, Base64.decode_encode]
      exact hc.pbkdf key newPassword iters rand hnew hiters
  · have hne := Pkcs8Key.wrap_ne_nil hc key hnew hiters rand
    refine ⟨Base64.encode (Pkcs8Key.wrap c key newPassword iters rand), ?_, ?_⟩
    · simp only [if_neg hne, if_neg (Base64.encode_ne_nil hne)]
    · simp only [decrypt, Base64.decode_encode]
      exact hc.pkcs8 key newPassword iters rand hnew hiters

/-- The two entries have one address and open, each under its password, to one key. -/
def SameKey (c : Keys K) (password password' : Bytes) (e e' : Entry) : Prop :=
  e'.address = e.address ∧ ∃ key, decrypt c e.format e.privKey password = some key ∧
    decrypt c e'.format e'.privKey password' = some key

/-- The document was opened, and the keys of `w` are there, in their order. -/
structure Recovers (c : Keys K) (w : Wallet) (r : Bool × Wallet) : Prop where
  success : r.1 = true
  keys : List.Forall₂ (SameKey c w.password r.2.password) w.keys r.2.keys

/-- In the same format the keys come back under every password they open under. -/
theorem recovers_same (ht : t.Laws) {w : Wallet} {p q : Bytes} (hp : p = [] ∨ p = w.password)
    (hq : ∀ e ∈ w.keys, e.format ≠ .none ∧ ∃ key, decrypt c e.format e.privKey w.password =
      some key ∧ decrypt c e.format e.privKey q = some key) (rand : Nat → Bytes) (v : Wallet) :
    w.getString c t rand p ≠ t.empty ∧
      Recovers c w (v.setString c t (w.getString c t rand p) q) := by
  obtain ⟨hne, hset⟩ := setString_getString_same (q := q) ht hp (fun e he => by
    obtain ⟨hformat, key, -, hkey⟩ := hq e he
    exact ⟨hformat, by rw [hkey]; rfl⟩) rand v
  refine ⟨hne, ?_⟩
  rw [hset]
  refine ⟨rfl, List.forall₂_same.mpr fun e he => ?_⟩
  obtain ⟨-, hkey⟩ := hq e he
  exact ⟨rfl, hkey⟩

/-- In a default format that wraps, the keys come back under the new password. -/
theorem recovers_retranslated (hc : c.Laws) (ht : t.Laws) {w : Wallet} {l : List (Added K)}
    (h : Inv c w l) (hiters : KdfIters w.kdfIters) {p : Bytes} (hp : p ≠ [])
    (hformat : w.keys = [] ∨ w.defaultFormat = .fcPbkdf ∨ w.defaultFormat = .pkcs8)
    (rand : Nat → Bytes) (v : Wallet) :
    w.getString c t rand p ≠ t.empty ∧
      Recovers c w (v.setString c t (w.getString c t rand p) p) := by
  by_cases hown : p = w.password
  · refine recovers_same ht (.inr hown) (fun e he => ?_) rand v
    obtain ⟨hf, hsome⟩ := h.opens e he
    obtain ⟨key, hkey⟩ := Option.isSome_iff_exists.mp hsome
    exact ⟨hf, key, hkey, by rw [hown]; exact hkey⟩
  have hexport : ∀ e ∈ w.keys, ∀ n, ∃ e', w.exportEntry c p (rand n) e = some e'.toJson ∧
      (e'.format ≠ .none ∧ SameKey c w.password p e e') := by
    intro e he n
    have hformat' : w.defaultFormat = .fcPbkdf ∨ w.defaultFormat = .pkcs8 := by
      refine hformat.resolve_left fun hnil => ?_
      rw [hnil] at he
      cases he
    obtain ⟨-, hsome⟩ := h.opens e he
    obtain ⟨key, hkey⟩ := Option.isSome_iff_exists.mp hsome
    obtain ⟨translated, htrans, hopen⟩ := retranslate_opens hc hformat' hiters hp hkey (rand n)
    refine ⟨{ e with format := w.defaultFormat, privKey := translated }, ?_, ?_, rfl, key, hkey,
      hopen⟩
    · unfold exportEntry
      rw [if_neg (not_or.mpr ⟨hp, hown⟩), htrans]
    · rcases hformat' with hf | hf <;> simp [hf]
  obtain ⟨hne, es', hset, hes'⟩ := setString_getString (q := p) ht hexport (by
    rintro e e' ⟨hf, -, key, -, hkey⟩
    exact ⟨hf, by rw [hkey]; rfl⟩) v
  refine ⟨hne, ?_⟩
  rw [hset]
  exact ⟨rfl, hes'.imp fun e e' he => he.2⟩

/-- **Which password opens an exported wallet.** Without a password, and under its own, a wallet is
written out as it is: the document opens under the wallet's password, and without one if no key is
encrypted. Under another password it opens with that one, if the default format is one that
wraps. -/
theorem export_reopens (o : OpenSsl) (c : Keys K) (hc : c.Laws) (t : Json.Text T) (ht : t.Laws)
    (ops : List (Op K)) (hops : ∀ op ∈ ops, op.Admissible) (p : Bytes) (rand : Nat → Bytes) :
    let w := after o c ops
    let document := w.getString c t rand p
    (p = [] ∨ p = w.password →
      document ≠ t.empty ∧ Recovers c w (({} : Wallet).setString c t document w.password)) ∧
    (p = [] → (∀ e ∈ w.keys, e.format = .clear) →
      Recovers c w (({} : Wallet).setString c t document p)) ∧
    (p ≠ [] → (w.keys = [] ∨ w.defaultFormat = .fcPbkdf ∨ w.defaultFormat = .pkcs8) →
      document ≠ t.empty ∧ Recovers c w (({} : Wallet).setString c t document p)) := by
  intro w document
  have hinv : Inv c w (added o c ops) := inv_after hc ops
  have hopens : ∀ e ∈ w.keys, e.format ≠ .none ∧
      ∃ key, decrypt c e.format e.privKey w.password = some key := fun e he =>
    ⟨(hinv.opens e he).1, Option.isSome_iff_exists.mp (hinv.opens e he).2⟩
  refine ⟨fun hp => ?_, fun hp hclear => ?_, fun hp hformat => ?_⟩
  · refine recovers_same ht hp (fun e he => ?_) rand {}
    obtain ⟨hf, key, hkey⟩ := hopens e he
    exact ⟨hf, key, hkey, hkey⟩
  · refine (recovers_same ht (.inl hp) (fun e he => ?_) rand {}).2
    obtain ⟨hf, key, hkey⟩ := hopens e he
    rw [hclear e he] at hf hkey ⊢
    exact ⟨hf, key, hkey, hkey⟩
  · exact recovers_retranslated hc ht hinv (kdfIters_after hc hops) hp hformat rand {}

/-! ## A wallet that is lost -/

/-- What is wrapped by `PbkdfKey` does not open without a password. -/
theorem setString_getString_nil (ht : t.Laws) {w : Wallet} {e : Entry} {es : List Entry}
    (hkeys : w.keys = e :: es) (hformat : e.format = .fcPbkdf) (rand : Nat → Bytes) (v : Wallet) :
    w.getString c t rand [] ≠ t.empty ∧
      v.setString c t (w.getString c t rand []) [] =
        (false, { w with keys := [], password := [] }) := by
  obtain ⟨es', hes', hsame⟩ : ∃ es', w.exportEntries c [] rand 0 w.keys =
      some (es'.map Entry.toJson) ∧ List.Forall₂ (fun e e' => e = e') w.keys es' :=
    exportEntries_of (fun e _ n => ⟨e, exportEntry_of_same (.inl rfl) (rand n) e, rfl⟩) 0
  rw [List.forall₂_eq_eq_eq] at hsame
  unfold getString
  rw [hes', ← hsame, hkeys]
  refine ⟨ht.dump_ne_empty _, ?_⟩
  have hload : Entry.ofJson e.toJson = some e := Entry.ofJson_toJson (by simp [hformat])
  have hshut : decrypt c e.format e.privKey [] = none := by
    rw [hformat]
    rfl
  rw [setString_dump ht, List.map_cons, loadKeys, hload]
  simp [hshut]

/-- Digests of 32 zero bytes. -/
def zeroDigest : OpenSsl := der (fun _ => List.replicate 32 0) (fun _ => List.replicate 32 0)

/-- A clock at zero and a generator that draws nothing but zeros. -/
def zeroDraws : Draws where
  time := 0
  password := List.replicate 16 0
  password_length := rfl
  rand n := List.replicate n 0
  rand_length _ := List.length_replicate
  randInt _ := 0
  wrap := []

/-- The key whose private point is zero. -/
def zeroKey : { point : Bytes // point.length = Curve25519.pointLen } :=
  ⟨List.replicate 32 0, rfl⟩

/-- One new key in a new wallet. -/
def oneKey : List (Op { point : Bytes // point.length = Curve25519.pointLen }) :=
  [.makeNewKey zeroDraws (some zeroKey) .specie []]

theorem length_zeroDigest (data : Bytes) : (zeroDigest.sha2_256 data).length = 32 :=
  List.length_replicate

theorem keys_oneKey :
    ∃ e, (after zeroDigest plainKeys oneKey).keys = [e] ∧ e.format = .fcPbkdf := by
  have hverify := verify_newAddress (c := plainKeys) (fun data => by
    rw [length_zeroDigest]
    decide) zeroDraws zeroKey []
  have hpriv := encrypt_ne_nil plainKeys_laws (password_opened_ne_nil {} zeroDraws)
    (show KdfIters (({} : Wallet).opened zeroDraws).kdfIters by decide) zeroKey zeroDraws.wrap
  have hkeys := congrArg (fun r => r.1.keys)
    (addStep_of_verify hverify hpriv .specie)
  exact ⟨_, hkeys, rfl⟩

theorem own_password_lossless_oneKey :
    let w := after zeroDigest plainKeys oneKey
    let r := ({} : Wallet).setString plainKeys Json.plainText
      (w.getString plainKeys Json.plainText (fun _ => []) w.password) w.password
    r = (true, w) ∧
      ∀ v ∈ [w, r.2],
        List.Forall₂ (Holds plainKeys v.password) v.keys
          (added zeroDigest plainKeys oneKey).reverse ∧
        ∀ usage,
          v.getLatestKey plainKeys usage =
            (latest (added zeroDigest plainKeys oneKey) usage).map Added.key ∧
          v.getLatestAddress usage =
            ((latest (added zeroDigest plainKeys oneKey) usage).map Added.address).getD [] :=
  own_password_lossless zeroDigest plainKeys plainKeys_laws Json.plainText Json.plainText_laws
    oneKey fun _ => []

theorem export_reopens_oneKey :
    let w := after zeroDigest plainKeys oneKey
    let document := w.getString plainKeys Json.plainText (fun _ => []) [1]
    (([1] : Bytes) = [] ∨ [1] = w.password → document ≠ Json.plainText.empty ∧
      Recovers plainKeys w
        (({} : Wallet).setString plainKeys Json.plainText document w.password)) ∧
    (([1] : Bytes) = [] → (∀ e ∈ w.keys, e.format = .clear) →
      Recovers plainKeys w (({} : Wallet).setString plainKeys Json.plainText document [1])) ∧
    (([1] : Bytes) ≠ [] →
      (w.keys = [] ∨ w.defaultFormat = .fcPbkdf ∨ w.defaultFormat = .pkcs8) →
      document ≠ Json.plainText.empty ∧
      Recovers plainKeys w (({} : Wallet).setString plainKeys Json.plainText document [1])) :=
  export_reopens zeroDigest plainKeys plainKeys_laws Json.plainText Json.plainText_laws oneKey
    (fun op hop => by
      obtain rfl := List.mem_singleton.mp hop
      trivial) [1] fun _ => []

/-- A new wallet with one new key, exported without a password: the document does not open without
one. The password it opens with was drawn at random, and no function gives it out. -/
theorem oneKey_lost_without_password :
    let w := after zeroDigest plainKeys oneKey
    let document := w.getString plainKeys Json.plainText (fun _ => []) []
    document ≠ Json.plainText.empty ∧
      (({} : Wallet).setString plainKeys Json.plainText document []).1 = false := by
  obtain ⟨e, hkeys, hformat⟩ := keys_oneKey
  obtain ⟨hne, hset⟩ := setString_getString_nil (c := plainKeys) Json.plainText_laws hkeys hformat
    (fun _ => []) {}
  exact ⟨hne, congrArg Prod.fst hset⟩

end Fluffycoin.Alg.Wallet
