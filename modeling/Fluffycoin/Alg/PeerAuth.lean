import Fluffycoin.Block.Asn1
import Fluffycoin.Ossl.Keys
import Fluffycoin.Utils.Base64

/-!
# The message key of two peers

Model of `src/alg/PeerAuth.cpp`. Two peers that have exchanged nonces derive a key for the messages
between them: the secret their keys agree on goes through HKDF. `Agreement K` is the part that is
OpenSSL's; `Agreement.Laws` says what is assumed of it, that the two sides agree on a secret, or are
both refused one, and that, of one secret, different nonces as salts give different keys. (HKDF
cannot tell all salts apart, it gives 32 bytes; so no more is asked of it than to tell apart the
salts of a nonce's length.)

Two things go wrong.

* The keys are Ed25519 keys (`Curve25519.cpp`, and the object identifier in `pubinfo`), which are
  for signatures: `EVP_PKEY_derive_init` refuses them (`Agreement.Ed25519`), and
  `createMessageAuthKey` returns the empty key, always.
* With keys that can be used, `createMessageAuthKey` puts the two nonces together, for the salt, and
  then hands the server's nonce alone to the derivation. So the two sides get one key, but it
  depends on the server's nonce only (`createMessageAuthKey_eq`): a client that repeats nothing gets
  an old key again if the server repeats its nonce.

`key_binds_nonces_iff` says when the key binds the nonces.
-/

namespace Fluffycoin.Alg

/-- The part of OpenSSL that key agreement uses. `derive` is `EVP_PKEY_derive_init`,
`EVP_PKEY_derive_set_peer` and `EVP_PKEY_derive` on a private and a public key, `none` if one of
them is refused, `hkdf` the derivation of a key of `MESSAGE_AUTH_KEY_LEN` bytes from a salt and a
secret. -/
structure Agreement (K : Type) where
  toPublic : K → Bytes
  d2iPubkey : Bytes → Option K
  derive : K → K → Option Bytes
  hkdf (salt secret : Bytes) : Option Bytes

variable {K : Type} (g : Agreement K)

/-- The first `PUB_ENCODING_LEN` bytes of `pubinfo`. -/
def pubinfo : Bytes := [0x30, 0x2a, 0x30, 0x05, 0x06, 0x03, 0x2b, 0x65, 0x70, 0x03, 0x21, 0x00]

/-- `Curve25519::fromPublic` (`Curve25519.cpp:79-101`). -/
def fromPublic (publicPoint : Bytes) : Option K :=
  if publicPoint.length ≠ Ossl.Curve25519.pointLen then none
  else g.d2iPubkey (pubinfo ++ publicPoint)

namespace PeerAuth

/-- `AUTH_NONCE_LENGTH`. -/
def authNonceLength : Nat := 8

/-- `MESSAGE_AUTH_KEY_LEN`. -/
def messageAuthKeyLen : Nat := 32

/-- `PeerAuth::createMessageAuthKey`: the empty key when something fails. -/
def createMessageAuthKey (priv : K) (pub clientNonce serverNonce : Bytes) : Bytes :=
  -- Deserialize peer key
  match fromPublic g pub with
  | none => []
  | some peerKey =>
    -- Derive shared secret
    match g.derive priv peerKey with
    | none => []
    | some sharedSecret =>
      if sharedSecret = [] then []
      else
        -- Salt is combined nonces: built here, and not used below
        let _combinedNonce := serverNonce ++ clientNonce
        match g.hkdf serverNonce sharedSecret with
        | none => []
        | some hmacKey => if hmacKey.length ≠ messageAuthKeyLen then [] else hmacKey

/-- `PeerAuth::createSessionId`. -/
def createSessionId (o : Ossl.OpenSsl) (clientNonce serverNonce : Bytes) : List Char :=
  Base64.encode ((o.sha2_256 (clientNonce ++ serverNonce)).take 8)

end PeerAuth

open PeerAuth

/-- What is assumed of the key agreement and of HKDF. -/
structure Agreement.Laws (g : Agreement K) : Prop where
  agree : ∀ a b, ∃ peerOfA peerOfB,
    fromPublic g (g.toPublic b) = some peerOfA ∧ fromPublic g (g.toPublic a) = some peerOfB ∧
      g.derive a peerOfA = g.derive b peerOfB ∧ g.derive a peerOfA ≠ some []
  hkdf : ∀ salt secret, secret ≠ [] →
    ∃ key, g.hkdf salt secret = some key ∧ key.length = messageAuthKeyLen
  hkdf_inj : ∀ secret salt salt', salt.length = authNonceLength → salt'.length = authNonceLength →
    g.hkdf salt secret = g.hkdf salt' secret → salt = salt'

/-- A secret can be derived from the two keys. -/
def Agreement.Derives (g : Agreement K) (a b : K) : Prop :=
  ∃ peer secret, fromPublic g (g.toPublic b) = some peer ∧ g.derive a peer = some secret

/-- OpenSSL on the keys of `Curve25519`: there is no key agreement for Ed25519. -/
def Agreement.Ed25519 (g : Agreement K) : Prop := ∀ a b, g.derive a b = none

namespace PeerAuth

variable {g}

/-- **No key without a secret**, whatever the nonces. -/
theorem createMessageAuthKey_of_ed25519 (h : g.Ed25519) (a : K)
    (pub clientNonce serverNonce : Bytes) :
    createMessageAuthKey g a pub clientNonce serverNonce = [] := by
  unfold createMessageAuthKey
  cases fromPublic g pub with
  | none => rfl
  | some peer => simp only [h a peer]

/-- **The key two peers derive**: on both sides what HKDF makes of their secret and the server's
nonce, or the empty key if they are refused a secret. -/
theorem createMessageAuthKey_eq (hg : g.Laws) (a b : K) :
    (g.Derives a b ∧ ∃ secret, secret ≠ [] ∧ ∀ clientNonce serverNonce, ∃ key,
      g.hkdf serverNonce secret = some key ∧ key.length = messageAuthKeyLen ∧
        createMessageAuthKey g a (g.toPublic b) clientNonce serverNonce = key ∧
        createMessageAuthKey g b (g.toPublic a) clientNonce serverNonce = key) ∨
      (¬ g.Derives a b ∧ ∀ clientNonce serverNonce,
        createMessageAuthKey g a (g.toPublic b) clientNonce serverNonce = [] ∧
        createMessageAuthKey g b (g.toPublic a) clientNonce serverNonce = []) := by
  obtain ⟨peerOfA, peerOfB, hpeerA, hpeerB, hsame, hne⟩ := hg.agree a b
  cases ha : g.derive a peerOfA with
  | none =>
    have hb : g.derive b peerOfB = none := hsame.symm.trans ha
    refine .inr ⟨?_, fun clientNonce serverNonce => ?_⟩
    · rintro ⟨peer, secret, hpeer, hsecret⟩
      obtain rfl : peerOfA = peer := Option.some.inj (hpeerA.symm.trans hpeer)
      rw [ha] at hsecret
      cases hsecret
    · simp only [createMessageAuthKey, hpeerA, hpeerB, ha, hb, and_self]
  | some secret =>
    have hb : g.derive b peerOfB = some secret := hsame.symm.trans ha
    have hsecret : secret ≠ [] := fun h => hne (by rw [ha, h])
    refine .inl ⟨⟨peerOfA, secret, hpeerA, ha⟩, secret, hsecret, fun clientNonce serverNonce => ?_⟩
    obtain ⟨key, hkey, hlen⟩ := hg.hkdf serverNonce secret hsecret
    refine ⟨key, hkey, hlen, ?_, ?_⟩
    · simp only [createMessageAuthKey, hpeerA, ha, if_neg hsecret, hkey, hlen, ne_eq,
        not_true_eq_false, if_false]
    · simp only [createMessageAuthKey, hpeerB, hb, if_neg hsecret, hkey, hlen, ne_eq,
        not_true_eq_false, if_false]

/-- **When the key binds the nonces.** The client and the server derive one key, which has its full
length if a secret can be derived at all; and of two handshakes between them in which a nonce
differs the keys differ, exactly if it can and the server's nonces differ, or neither nonce does. -/
theorem key_binds_nonces_iff (hg : g.Laws) (client server : K)
    {clientNonce serverNonce clientNonce' serverNonce' : Bytes}
    (hserver : serverNonce.length = authNonceLength)
    (hserver' : serverNonce'.length = authNonceLength) :
    (createMessageAuthKey g client (g.toPublic server) clientNonce serverNonce =
        createMessageAuthKey g server (g.toPublic client) clientNonce serverNonce ∧
      ((createMessageAuthKey g client (g.toPublic server) clientNonce serverNonce).length =
        messageAuthKeyLen ↔ g.Derives client server)) ∧
      ((clientNonce ≠ clientNonce' ∨ serverNonce ≠ serverNonce' →
        createMessageAuthKey g server (g.toPublic client) clientNonce serverNonce ≠
          createMessageAuthKey g server (g.toPublic client) clientNonce' serverNonce') ↔
        (g.Derives client server ∧ serverNonce ≠ serverNonce') ∨
          (clientNonce = clientNonce' ∧ serverNonce = serverNonce')) := by
  rcases createMessageAuthKey_eq hg client server with
    ⟨hderives, secret, -, hkeys⟩ | ⟨hrefused, hkeys⟩
  · obtain ⟨key, hkey, hlen, hclientKey, hserverKey⟩ := hkeys clientNonce serverNonce
    obtain ⟨key', hkey', _, _, hserverKey'⟩ := hkeys clientNonce' serverNonce'
    rw [hclientKey, hserverKey, hserverKey']
    refine ⟨⟨rfl, fun _ => hderives, fun _ => hlen⟩, fun h => ?_, ?_⟩
    · by_cases hsame : serverNonce = serverNonce'
      · refine .inr ⟨?_, hsame⟩
        by_contra hclient
        rw [hsame, hkey', Option.some.injEq] at hkey
        exact h (.inl hclient) hkey.symm
      · exact .inl ⟨hderives, hsame⟩
    · rintro (⟨-, hne⟩ | ⟨rfl, rfl⟩) hdiffer heq
      · refine hne (hg.hkdf_inj secret _ _ hserver hserver' ?_)
        rw [hkey, hkey', heq]
      · rcases hdiffer with h | h
        · exact h rfl
        · exact h rfl
  · -- without a secret all keys are empty
    rw [(hkeys clientNonce serverNonce).1, (hkeys clientNonce serverNonce).2,
      (hkeys clientNonce' serverNonce').2]
    refine ⟨⟨rfl, fun h => absurd h (by decide), fun h => absurd h hrefused⟩, fun h => .inr ?_, ?_⟩
    · constructor
      · by_contra hclient
        exact h (.inl hclient) rfl
      · by_contra hne
        exact h (.inr hne) rfl
    · rintro (⟨hderives, -⟩ | ⟨rfl, rfl⟩) hdiffer
      · exact absurd hderives hrefused
      · rcases hdiffer with h | h
        · exact absurd rfl h
        · exact absurd rfl h

/-- An agreement that meets the laws: keys agree on their sum, and HKDF puts the salt in front. -/
def sums : Agreement UInt8 where
  toPublic key := List.replicate Ossl.Curve25519.pointLen key
  d2iPubkey der := der.getLast?
  derive a b := some [a + b]
  hkdf salt secret := some ((salt ++ secret ++ List.replicate messageAuthKeyLen 0).take
    messageAuthKeyLen)

theorem sums_fromPublic (key : UInt8) : fromPublic sums (sums.toPublic key) = some key := by
  have hlen : (sums.toPublic key).length = Ossl.Curve25519.pointLen := List.length_replicate
  rw [fromPublic, if_neg (not_not.mpr hlen)]
  show (pubinfo ++ List.replicate Ossl.Curve25519.pointLen key).getLast? = some key
  rw [List.getLast?_append, List.getLast?_replicate]
  rfl

theorem sums_laws : sums.Laws where
  agree a b := ⟨b, a, sums_fromPublic b, sums_fromPublic a,
    congrArg (fun c => some [c]) (UInt8.add_comm a b),
    fun h => List.cons_ne_nil _ _ (Option.some.inj h)⟩
  hkdf salt secret _ := by
    refine ⟨_, rfl, ?_⟩
    rw [List.length_take, List.length_append, List.length_replicate]
    omega
  hkdf_inj secret salt salt' hsalt hsalt' h := by
    -- the salt is the first eight bytes of the key
    have hfront {salt : Bytes} (hlen : salt.length = authNonceLength) :
        ((salt ++ secret ++ List.replicate messageAuthKeyLen 0).take messageAuthKeyLen).take
          authNonceLength = salt := by
      rw [List.take_take, List.append_assoc, List.take_left']
      rw [hlen]
      rfl
    rw [← hfront hsalt, ← hfront hsalt', Option.some.inj h]

/-- The same keys, of a kind that OpenSSL refuses. -/
def refusing : Agreement UInt8 := { sums with derive := fun _ _ => none }

theorem refusing_ed25519 : refusing.Ed25519 := fun _ _ => rfl

theorem refusing_laws : refusing.Laws where
  agree a b := ⟨b, a, sums_fromPublic b, sums_fromPublic a, rfl, (Option.some_ne_none []).symm⟩
  hkdf := sums_laws.hkdf
  hkdf_inj := sums_laws.hkdf_inj

theorem key_binds_nonces_iff_refusing :
    (createMessageAuthKey refusing 1 (refusing.toPublic 2) (List.replicate 8 0)
          (List.replicate 8 5) =
        createMessageAuthKey refusing 2 (refusing.toPublic 1) (List.replicate 8 0)
          (List.replicate 8 5) ∧
      ((createMessageAuthKey refusing 1 (refusing.toPublic 2) (List.replicate 8 0)
        (List.replicate 8 5)).length = messageAuthKeyLen ↔ refusing.Derives 1 2)) ∧
      ((List.replicate 8 (0 : UInt8) ≠ List.replicate 8 0 ∨
          List.replicate 8 (5 : UInt8) ≠ List.replicate 8 6 →
        createMessageAuthKey refusing 2 (refusing.toPublic 1) (List.replicate 8 0)
            (List.replicate 8 5) ≠
          createMessageAuthKey refusing 2 (refusing.toPublic 1) (List.replicate 8 0)
            (List.replicate 8 6)) ↔
        (refusing.Derives 1 2 ∧ List.replicate 8 (5 : UInt8) ≠ List.replicate 8 6) ∨
          (List.replicate 8 (0 : UInt8) = List.replicate 8 0 ∧
            List.replicate 8 (5 : UInt8) = List.replicate 8 6)) :=
  key_binds_nonces_iff refusing_laws 1 2 rfl rfl

/-- Two handshakes in which both nonces differ: with keys that OpenSSL refuses, the empty key in
both. And two in which the client's nonce differs: with keys it takes, one key. -/
theorem nonces_not_bound :
    (refusing.Laws ∧ refusing.Ed25519 ∧
      createMessageAuthKey refusing 2 (refusing.toPublic 1) (List.replicate 8 0)
        (List.replicate 8 5) = [] ∧
      createMessageAuthKey refusing 2 (refusing.toPublic 1) (List.replicate 8 1)
        (List.replicate 8 6) = []) ∧
    (sums.Laws ∧ List.replicate 8 (0 : UInt8) ≠ List.replicate 8 1 ∧
      createMessageAuthKey sums 2 (sums.toPublic 1) (List.replicate 8 0) (List.replicate 8 5) =
        createMessageAuthKey sums 2 (sums.toPublic 1) (List.replicate 8 1) (List.replicate 8 5) ∧
      createMessageAuthKey sums 2 (sums.toPublic 1) (List.replicate 8 0) (List.replicate 8 5) ≠
        []) :=
  ⟨⟨refusing_laws, refusing_ed25519, createMessageAuthKey_of_ed25519 refusing_ed25519 _ _ _ _,
    createMessageAuthKey_of_ed25519 refusing_ed25519 _ _ _ _⟩, sums_laws, by decide, rfl,
    by decide⟩

end PeerAuth

end Fluffycoin.Alg
