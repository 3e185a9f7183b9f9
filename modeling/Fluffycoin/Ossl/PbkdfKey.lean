import Fluffycoin.Block.Der
import Fluffycoin.Ossl.Keys

/-!
# Keys wrapped under a password

Model of `src/ossl/PbkdfKey.cpp`. `wrap` derives two keys from the password, encrypts the private
point with one and signs the parameters and the result with the other; `unwrap` checks the container
it decodes and goes the way back. OpenSSL's part is `Pbkdf`: key derivation, CMAC and ciphers are
functions that may fail, for whatever digest and cipher a container names.

* `wrap_ne_nil_iff` and `unwrap_wrap`: what is wrapped, and that it is unwrapped again.
* `verify_eq_some_iff`: the checks of `unwrap`, in one statement.
* `sound_iff`: which containers are opened without being authentic. The version is read by
  `ossl::toUInt64`, for which every number outside of 64 bits is zero; and where CMAC fails `sign`
  returns the empty string (lines 129-184), which an empty signature is equal to.
* `keys` puts `wrap` and `unwrap` in the place of what `Fluffycoin.Ossl.Keys` assumes of them, and
  `keys_laws` shows that they meet it.

`Asn1.FluffyPbkdfKey.codec` is the container in DER.
-/

namespace Fluffycoin

open Der

namespace Asn1

/-! ## The container -/

/-- `FluffyPbkdfInfo`. An `ASN1_OBJECT` is its content octets. -/
structure FluffyPbkdfInfo where
  version : Int
  iters : Int
  salt : Str
  iv : Option Str
  kdf : Octets
  keytype : Octets

/-- `FluffyPbkdfContent`. -/
structure FluffyPbkdfContent where
  info : FluffyPbkdfInfo
  payload : Str

/-- `FluffyPbkdfKey`. -/
structure FluffyPbkdfKey where
  content : FluffyPbkdfContent
  signature : Str

/-- `ASN1_OBJECT`. -/
def object : Codec Octets := octets.tagged 0x06

theorem object_readsBack : object.ReadsBack (· = ·) := octets_readsBack.tagged _

/-- An optional `OCTET STRING` before an object. -/
def optional : Codec (Option Str × Octets) :=
  (alt (pair Str.octetString object) object).via
    (fun
      | (some iv, kdf) => .inl (iv, kdf)
      | (none, kdf) => .inr kdf)
    (fun
      | .inl (iv, kdf) => (some iv, kdf)
      | .inr kdf => (none, kdf))

def FluffyPbkdfInfo.codec : Codec FluffyPbkdfInfo :=
  ((pair integer <| pair integer <| pair Str.octetString <| pair optional object).body.via
    (fun t => (t.version, t.iters, t.salt, (t.iv, t.kdf), t.keytype))
    fun (version, iters, salt, (iv, kdf), keytype) =>
      some { version, iters, salt, iv, kdf, keytype }).tagged 0x30

def FluffyPbkdfContent.codec : Codec FluffyPbkdfContent :=
  ((pair FluffyPbkdfInfo.codec Str.octetString).body.via (fun t => (t.info, t.payload))
    fun p => some ⟨p.1, p.2⟩).tagged 0x30

def FluffyPbkdfKey.codec : Codec FluffyPbkdfKey :=
  ((pair FluffyPbkdfContent.codec Str.octetString).body.via (fun t => (t.content, t.signature))
    fun p => some ⟨p.1, p.2⟩).tagged 0x30

theorem optional_readsBack : optional.ReadsBack (· = ·) := by
  have hrejects : (pair Str.octetString object).Rejects object := by
    intro b rest
    have hnone : Str.octetString.dec (object.enc b ++ rest) = none :=
      rejects_tagged (by decide) b rest
    simp only [pair, hnone, Option.bind_none]
  refine (alt_readsBack (pair_readsBack_eq Str.octetString_readsBack object_readsBack)
    object_readsBack hrejects).via fun b a' h => ?_
  obtain ⟨iv, kdf⟩ := b
  cases iv with
  | none =>
    cases h
    subst_vars
    rfl
  | some iv =>
    cases h
    subst_vars
    rfl

theorem FluffyPbkdfInfo.codec_readsBack : FluffyPbkdfInfo.codec.ReadsBack (· = ·) := by
  refine Codec.ReadsBack.sequence _ ?_ fun _ => rfl
  exact pair_readsBack_eq integer_readsBack <| pair_readsBack_eq integer_readsBack <|
    pair_readsBack_eq Str.octetString_readsBack <|
    pair_readsBack_eq optional_readsBack object_readsBack

theorem FluffyPbkdfContent.codec_readsBack : FluffyPbkdfContent.codec.ReadsBack (· = ·) := by
  refine Codec.ReadsBack.sequence _ ?_ fun _ => rfl
  exact pair_readsBack_eq FluffyPbkdfInfo.codec_readsBack Str.octetString_readsBack

theorem FluffyPbkdfKey.codec_readsBack : FluffyPbkdfKey.codec.ReadsBack (· = ·) := by
  refine Codec.ReadsBack.sequence _ ?_ fun _ => rfl
  exact pair_readsBack_eq FluffyPbkdfContent.codec_readsBack Str.octetString_readsBack

end Asn1

namespace Ossl

open Asn1 (FluffyPbkdfInfo FluffyPbkdfContent FluffyPbkdfKey)

/-- The part of OpenSSL in use. -/
structure Pbkdf (Md Cipher : Type) where
  content : Item FluffyPbkdfContent
  key : Item FluffyPbkdfKey
  /-- `EVP_get_digestbynid` of an object's number. -/
  digestOf : Octets → Option Md
  /-- `EVP_get_cipherbynid` of an object's number. -/
  cipherOf : Octets → Option Cipher
  keyLength : Cipher → Nat
  ivLength : Cipher → Nat
  pbkdf2 : Md → Bytes → Bytes → Nat → Nat → Option Bytes
  cmac : Cipher → Bytes → Bytes → Option Bytes
  encrypt : Cipher → Bytes → Bytes → Bytes → Bytes
  decrypt : Cipher → Bytes → Bytes → Bytes → Option Bytes

namespace Pbkdf

/-- `SALT_LEN`. -/
def saltLen : Nat := 8

/-- `IV_LEN`, `AES_BLOCK_SIZE`. -/
def ivLen : Nat := 16

/-- `SALT_LEN_MIN`. -/
def saltLenMin : Nat := 8

/-- `SALT_LEN_MAX`. -/
def saltLenMax : Nat := 1024

/-- The object of `NID_sha3_512`. -/
def kdfObject : Octets := [0x60, 0x86, 0x48, 0x01, 0x65, 0x03, 0x04, 0x02, 0x0A]

/-- The object of `NID_aes_256_cbc`. -/
def keyObject : Octets := [0x60, 0x86, 0x48, 0x01, 0x65, 0x03, 0x04, 0x01, 0x2A]

/-- The salt and the initialisation vector as `Prng::rand` fills them. -/
structure Drawn where
  iv : Bytes
  salt : Bytes
  length_iv : iv.length = ivLen
  length_salt : salt.length = saltLen

variable {Md Cipher K : Type} (p : Pbkdf Md Cipher) (c : Keys K)

/-- `pbkdf`: the keys for encryption and for the signature. -/
def pbkdf (keyLen : Nat) (pass salt : Bytes) (iters : Nat) (md : Md) : Option (Bytes × Bytes) :=
  (p.pbkdf2 md pass salt iters (keyLen * 2)).map fun keys =>
    (keys.take keyLen, (keys.drop keyLen).take keyLen)

/-- `sign`; empty where the signature cannot be made. -/
def sign (content : Bytes) (cipher : Cipher) (mak : Bytes) : Bytes :=
  (p.cmac cipher mak content).getD []

/-- The content `wrap` encodes. -/
def contentOf (iters : UInt32) (drawn : Drawn) (encipheredKey : Bytes) : FluffyPbkdfContent where
  info :=
    { version := fromUInt32 0
      iters := fromUInt32 iters
      salt := fromBin drawn.salt
      iv := some (fromBin drawn.iv)
      kdf := kdfObject
      keytype := keyObject }
  payload := fromBin encipheredKey

/-- `PbkdfKey::wrap` (lines 188-284). -/
def wrap (key : K) (pass : Bytes) (iters : UInt32) (drawn : Drawn) : Bytes :=
  if pass = [] then []
  else if iters < kdfItersMin ∨ iters > kdfItersMax then []
  else
    let encoded := Curve25519.toPrivate c key
    if encoded = [] then []
    else
      match p.digestOf kdfObject, p.cipherOf keyObject with
      | some md, some cipher =>
        match p.pbkdf (p.keyLength cipher) pass drawn.salt iters.toNat md with
        | none => []
        | some (dek, mak) =>
          let content := contentOf iters drawn (p.encrypt cipher dek drawn.iv encoded)
          let signature := p.sign (p.content.i2d content) cipher mak
          if signature = [] then [] else p.key.i2d { content, signature := fromBin signature }
      -- they are built in
      | _, _ => []

/-- `ossl::decode`. -/
def decode (data : Bytes) : Option FluffyPbkdfKey :=
  if data = [] then none else (p.key.d2i data data.length).map Prod.fst

/-- The initialisation vector of a container, empty if there is none. -/
def ivOf (info : FluffyPbkdfInfo) : Bytes := (info.iv.map toBin).getD []

/-- What `unwrap` checks before it decrypts (lines 305-367): the cipher and its key. -/
def verify (pass : Bytes) (encodedKey : FluffyPbkdfKey) : Option (Cipher × Bytes) := do
  let info := encodedKey.content.info
  let md ← p.digestOf info.kdf
  let cipher ← p.cipherOf info.keytype
  let iters := toUInt64 info.iters
  let salt := toBin info.salt
  if toUInt64 info.version ≠ 0 then none
  else if iters < kdfItersMin.toUInt64 ∨ iters > kdfItersMax.toUInt64 then none
  else if salt.length < saltLenMin ∨ salt.length > saltLenMax then none
  else if (ivOf info).length ≠ p.ivLength cipher then none
  else
    let (dek, mak) ← p.pbkdf (p.keyLength cipher) pass salt iters.toNat md
    if toBin encodedKey.signature ≠ p.sign (p.content.i2d encodedKey.content) cipher mak then none
    else some (cipher, dek)

/-- `PbkdfKey::unwrap` (lines 286-401). -/
def unwrap (key pass : Bytes) : Option K :=
  if pass = [] then none
  else do
    let encodedKey ← p.decode key
    let (cipher, dek) ← p.verify pass encodedKey
    let decrypted ←
      p.decrypt cipher dek (ivOf encodedKey.content.info) (toBin encodedKey.content.payload)
    Curve25519.fromPrivate c decrypted

/-! ## What is assumed -/

/-- What is assumed of OpenSSL for the digest and the cipher `wrap` uses: they are there, deriving a
key and signing succeed, decryption inverts encryption, the result of which fits into the buffer
(line 242); and the container comes back. -/
structure Laws (p : Pbkdf Md Cipher) (md : Md) (cipher : Cipher) : Prop where
  digestOf : p.digestOf kdfObject = some md
  cipherOf : p.cipherOf keyObject = some cipher
  ivLength : p.ivLength cipher = ivLen
  pbkdf2 : ∀ pass salt iters keyLen, (p.pbkdf2 md pass salt iters keyLen).isSome = true
  cmac : ∀ mak content, ∃ mac, p.cmac cipher mak content = some mac ∧ mac ≠ [] ∧
    mac.length < 2 ^ 31 - 1
  decrypt : ∀ dek iv data, p.decrypt cipher dek iv (p.encrypt cipher dek iv data) = some data
  encrypt : ∀ dek iv data, (p.encrypt cipher dek iv data).length ≤ (data.length + 16) / 16 * 16
  decode : ∀ k, p.decode (p.key.i2d k) = some k

/-- Private keys are read back. -/
def ReadsKeys (c : Keys K) : Prop :=
  ∀ key, Curve25519.fromPrivate c (Curve25519.toPrivate c key) = some key

variable {p c}

theorem length_toPrivate (hc : ReadsKeys c) (key : K) :
    (Curve25519.toPrivate c key).length = Curve25519.pointLen := by
  have hread := hc key
  unfold Curve25519.fromPrivate at hread
  by_contra hlen
  rw [if_pos hlen] at hread
  cases hread

/-! ## The checks -/

/-- What `verify` passes, for a container with this digest and cipher and these keys. -/
structure Passes (p : Pbkdf Md Cipher) (pass : Bytes) (k : FluffyPbkdfKey) (md : Md)
    (cipher : Cipher) (dek mak : Bytes) : Prop where
  digestOf : p.digestOf k.content.info.kdf = some md
  cipherOf : p.cipherOf k.content.info.keytype = some cipher
  version : toUInt64 k.content.info.version = 0
  iters : ¬ (toUInt64 k.content.info.iters < kdfItersMin.toUInt64 ∨
    toUInt64 k.content.info.iters > kdfItersMax.toUInt64)
  salt : ¬ ((toBin k.content.info.salt).length < saltLenMin ∨
    (toBin k.content.info.salt).length > saltLenMax)
  iv : (ivOf k.content.info).length = p.ivLength cipher
  keys : p.pbkdf (p.keyLength cipher) pass (toBin k.content.info.salt)
    (toUInt64 k.content.info.iters).toNat md = some (dek, mak)
  signature : toBin k.signature = p.sign (p.content.i2d k.content) cipher mak

/-- **The checks of `unwrap`.** -/
theorem verify_eq_some_iff {pass : Bytes} {k : FluffyPbkdfKey} {cipher : Cipher} {dek : Bytes} :
    p.verify pass k = some (cipher, dek) ↔ ∃ md mak, Passes p pass k md cipher dek mak := by
  constructor
  · intro h
    obtain ⟨md, hmd, h⟩ := Option.bind_eq_some_iff.mp h
    obtain ⟨cipher', hcipher, h⟩ := Option.bind_eq_some_iff.mp h
    dsimp only at h
    split_ifs at h with hversion hiters hsalt hiv
    obtain ⟨⟨dek', mak⟩, hkeys, h⟩ := Option.bind_eq_some_iff.mp h
    dsimp only at h
    split_ifs at h with hsignature
    cases h
    exact ⟨md, mak, hmd, hcipher, not_not.mp hversion, hiters, hsalt, not_not.mp hiv, hkeys,
      not_not.mp hsignature⟩
  · rintro ⟨md, mak, h⟩
    unfold verify
    simp only [h.digestOf, h.cipherOf, Option.bind_eq_bind, Option.bind_some, h.version, ne_eq,
      not_true_eq_false, if_false, h.iters, h.salt, h.iv, h.keys, h.signature]

theorem decode_nil (p : Pbkdf Md Cipher) : p.decode [] = none := rfl

theorem unwrap_eq_some_iff {data pass : Bytes} {key : K} :
    p.unwrap c data pass = some key ↔
      pass ≠ [] ∧ ∃ k cipher dek decrypted, p.decode data = some k ∧
        p.verify pass k = some (cipher, dek) ∧
        p.decrypt cipher dek (ivOf k.content.info) (toBin k.content.payload) = some decrypted ∧
        Curve25519.fromPrivate c decrypted = some key := by
  unfold unwrap
  by_cases hpass : pass = []
  · simp [hpass]
  · simp only [hpass, if_false, ne_eq, not_false_eq_true, true_and, Option.bind_eq_bind,
      Option.bind_eq_some_iff]
    constructor
    · rintro ⟨k, hk, ⟨cipher, dek⟩, hverify, decrypted, hdecrypt, hkey⟩
      exact ⟨k, cipher, dek, decrypted, hk, hverify, hdecrypt, hkey⟩
    · rintro ⟨k, cipher, dek, decrypted, hk, hverify, hdecrypt, hkey⟩
      exact ⟨k, hk, (cipher, dek), hverify, decrypted, hdecrypt, hkey⟩

/-! ## Wrapping -/

section Wrap

variable {md : Md} {cipher : Cipher} (hp : p.Laws md cipher) (hc : ReadsKeys c) (key : K)
  {pass : Bytes} {iters : UInt32} (drawn : Drawn)

theorem Drawn.toBin_salt (drawn : Drawn) : toBin (fromBin drawn.salt) = drawn.salt := by
  refine toBin_fromBin ?_
  rw [drawn.length_salt]
  decide

theorem Drawn.toBin_iv (drawn : Drawn) : toBin (fromBin drawn.iv) = drawn.iv := by
  refine toBin_fromBin ?_
  rw [drawn.length_iv]
  decide

theorem toUInt64_zero : toUInt64 0 = 0 := by
  have hzero := toUInt64_of_range (t := 0) (by decide) (by decide)
  exact UInt64.toNat_inj.mp (Int.ofNat_inj.mp hzero)

theorem toNat_toUInt64_fromUInt32 (iters : UInt32) :
    (toUInt64 (fromUInt32 iters)).toNat = iters.toNat := by
  have hlt : iters.toNat < 2 ^ 32 := iters.toNat_lt
  have hrange := toUInt64_of_range (t := fromUInt32 iters) (by unfold fromUInt32; omega)
    (by unfold fromUInt32; omega)
  unfold fromUInt32 at hrange
  exact_mod_cast hrange

/-- The numbers of iterations `wrap` and `unwrap` admit are the same. -/
theorem kdfIters_iff (iters : UInt32) :
    KdfIters iters ↔ ¬ (toUInt64 (fromUInt32 iters) < kdfItersMin.toUInt64 ∨
      toUInt64 (fromUInt32 iters) > kdfItersMax.toUInt64) := by
  unfold KdfIters
  rw [UInt32.lt_iff_toNat_lt, gt_iff_lt, UInt32.lt_iff_toNat_lt, UInt64.lt_iff_toNat_lt, gt_iff_lt,
    UInt64.lt_iff_toNat_lt, toNat_toUInt64_fromUInt32]
  rfl

include hp

/-- What `wrap` puts together passes the checks. -/
theorem passes_contentOf {encipheredKey dek mak mac : Bytes} (hiters : KdfIters iters)
    (hkeys : p.pbkdf (p.keyLength cipher) pass drawn.salt iters.toNat md = some (dek, mak))
    (hsign : p.sign (p.content.i2d (contentOf iters drawn encipheredKey)) cipher mak = mac)
    (hlt : mac.length < 2 ^ 31 - 1) :
    Passes p pass { content := contentOf iters drawn encipheredKey, signature := fromBin mac } md
      cipher dek mak := by
  constructor
  · exact hp.digestOf
  · exact hp.cipherOf
  · exact toUInt64_zero
  · exact (kdfIters_iff iters).mp hiters
  · simp only [contentOf, drawn.toBin_salt, drawn.length_salt]
    decide
  · simp only [contentOf, ivOf, Option.map_some, Option.getD_some, drawn.toBin_iv,
      drawn.length_iv, hp.ivLength]
  · simp only [contentOf, drawn.toBin_salt, toNat_toUInt64_fromUInt32]
    exact hkeys
  · simp only [toBin_fromBin hlt]
    exact hsign.symm

include hc

/-- The enciphered key fits into the container and is deciphered. -/
theorem decrypt_contentOf (dek : Bytes) {content : FluffyPbkdfContent}
    (hcontent : contentOf iters drawn
      (p.encrypt cipher dek drawn.iv (Curve25519.toPrivate c key)) = content) :
    p.decrypt cipher dek (ivOf content.info) (toBin content.payload) =
      some (Curve25519.toPrivate c key) := by
  subst hcontent
  have hpayload := hp.encrypt dek drawn.iv (Curve25519.toPrivate c key)
  rw [length_toPrivate hc key] at hpayload
  simp only [contentOf, ivOf, Option.map_some, Option.getD_some, drawn.toBin_iv]
  rw [toBin_fromBin (Nat.lt_of_le_of_lt hpayload (by decide))]
  exact hp.decrypt dek drawn.iv _

/-- **What is wrapped**: a container that passes the checks, with the private point in it. -/
theorem exists_wrap_eq (hpass : pass ≠ []) (hiters : KdfIters iters) :
    ∃ k dek mak, p.wrap c key pass iters drawn = p.key.i2d k ∧
      Passes p pass k md cipher dek mak ∧
      p.decrypt cipher dek (ivOf k.content.info) (toBin k.content.payload) =
        some (Curve25519.toPrivate c key) := by
  obtain ⟨keys, hpbkdf2⟩ := Option.isSome_iff_exists.mp
    (hp.pbkdf2 pass drawn.salt iters.toNat (p.keyLength cipher * 2))
  obtain ⟨dek, mak, hkeys⟩ : ∃ dek mak,
      p.pbkdf (p.keyLength cipher) pass drawn.salt iters.toNat md = some (dek, mak) :=
    ⟨_, _, Option.map_eq_some_iff.mpr ⟨keys, hpbkdf2, rfl⟩⟩
  have hencoded : Curve25519.toPrivate c key ≠ [] := by
    intro hnil
    have hlen := length_toPrivate hc key
    rw [hnil] at hlen
    cases hlen
  generalize hcontent : contentOf iters drawn
    (p.encrypt cipher dek drawn.iv (Curve25519.toPrivate c key)) = content
  obtain ⟨mac, hmac, hne, hlt⟩ := hp.cmac mak (p.content.i2d content)
  have hsign : p.sign (p.content.i2d content) cipher mak = mac := by
    rw [sign, hmac, Option.getD_some]
  refine ⟨{ content, signature := fromBin mac }, dek, mak, ?_, ?_,
    decrypt_contentOf hp hc key drawn dek hcontent⟩
  · unfold wrap
    rw [if_neg hpass, if_neg hiters]
    simp only [hencoded, if_false, hp.digestOf, hp.cipherOf, hkeys, hcontent, hsign, hne]
  · subst hcontent
    exact passes_contentOf hp drawn hiters hkeys hsign hlt

theorem wrap_ne_nil_iff :
    p.wrap c key pass iters drawn ≠ [] ↔ pass ≠ [] ∧ KdfIters iters := by
  constructor
  · intro h
    refine ⟨fun hpass => h ?_, fun hiters => h ?_⟩
    · unfold wrap
      rw [if_pos hpass]
    · unfold wrap
      by_cases hpass : pass = []
      · rw [if_pos hpass]
      · rw [if_neg hpass, if_pos hiters]
  · rintro ⟨hpass, hiters⟩ hnil
    obtain ⟨k, dek, mak, hwrap, -, -⟩ := exists_wrap_eq hp hc key drawn hpass hiters
    have hdecode := hp.decode k
    rw [← hwrap, hnil, decode_nil] at hdecode
    cases hdecode

/-- **What is wrapped is unwrapped again.** -/
theorem unwrap_wrap (hpass : pass ≠ []) (hiters : KdfIters iters) :
    p.unwrap c (p.wrap c key pass iters drawn) pass = some key := by
  obtain ⟨k, dek, mak, hwrap, hpasses, hdecrypt⟩ := exists_wrap_eq hp hc key drawn hpass hiters
  rw [hwrap]
  refine unwrap_eq_some_iff.mpr ⟨hpass, k, cipher, dek, _, hp.decode k, ?_, hdecrypt, hc key⟩
  exact verify_eq_some_iff.mpr ⟨md, mak, hpasses⟩

end Wrap

/-! ## Authenticity -/

/-- The CMAC of a container's content, under the key derived from the password and its own salt and
iterations. -/
def mac (p : Pbkdf Md Cipher) (pass : Bytes) (k : FluffyPbkdfKey) : Option Bytes := do
  let info := k.content.info
  let md ← p.digestOf info.kdf
  let cipher ← p.cipherOf info.keytype
  let (_, mak) ← p.pbkdf (p.keyLength cipher) pass (toBin info.salt) info.iters.toNat md
  p.cmac cipher mak (p.content.i2d k.content)

/-- A container as it should be, signed under the password. -/
structure Authentic (p : Pbkdf Md Cipher) (pass : Bytes) (k : FluffyPbkdfKey) : Prop where
  version : k.content.info.version = 0
  iters : 1024 ≤ k.content.info.iters ∧ k.content.info.iters ≤ 10485760
  salt : 8 ≤ (toBin k.content.info.salt).length ∧ (toBin k.content.info.salt).length ≤ 1024
  iv : ∀ cipher ∈ p.cipherOf k.content.info.keytype,
    (ivOf k.content.info).length = p.ivLength cipher
  signature : p.mac pass k = some (toBin k.signature)

/-- A key is unwrapped only from an authentic container. -/
def Sound (p : Pbkdf Md Cipher) (c : Keys K) (data pass : Bytes) : Prop :=
  ∀ key, p.unwrap c data pass = some key → ∃ k, p.decode data = some k ∧ Authentic p pass k

/-- A number `ossl::toUInt64` reads as zero, though it is not. -/
def Outside (version : Int) : Prop := version < 0 ∨ 18446744073709551616 ≤ version

theorem toUInt64_eq_zero_iff {t : Int} : toUInt64 t = 0 ↔ t = 0 ∨ Outside t := by
  unfold Outside
  rcases toUInt64_cases t with ⟨hout, h⟩ | ⟨hrange, h⟩ | ⟨hrange, h⟩
  · exact iff_of_true h (.inr hout)
  · rw [← UInt64.toNat_inj, UInt64.toNat_zero]
    omega
  · rw [h]
    exact iff_of_false (by decide) (by omega)

/-- No number outside of the range is read as one inside. -/
theorem iters_iff {t : Int} :
    ¬ (toUInt64 t < kdfItersMin.toUInt64 ∨ toUInt64 t > kdfItersMax.toUInt64) ↔
      1024 ≤ t ∧ t ≤ 10485760 := by
  have hmin : kdfItersMin.toUInt64.toNat = 1024 := rfl
  have hmax : kdfItersMax.toUInt64.toNat = 10485760 := rfl
  rw [UInt64.lt_iff_toNat_lt, gt_iff_lt, UInt64.lt_iff_toNat_lt, hmin, hmax]
  rcases toUInt64_cases t with ⟨hout, h⟩ | ⟨hrange, h⟩ | ⟨hrange, h⟩
  · rw [h, UInt64.toNat_zero]
    omega
  · omega
  · have htop : (UInt64.ofInt (-1)).toNat = 18446744073709551615 := rfl
    rw [h, htop]
    omega

section Authentic

variable {pass : Bytes} {k : FluffyPbkdfKey} {md : Md} {cipher : Cipher} {dek mak : Bytes}

theorem Passes.mac_eq (h : Passes p pass k md cipher dek mak) :
    p.mac pass k = p.cmac cipher mak (p.content.i2d k.content) := by
  have hiters : (toUInt64 k.content.info.iters).toNat = k.content.info.iters.toNat := by
    obtain ⟨hmin, hmax⟩ := iters_iff.mp h.iters
    have hrange := toUInt64_of_range (t := k.content.info.iters) (by omega) (by omega)
    omega
  have hkeys := h.keys
  rw [hiters] at hkeys
  simp only [mac, h.digestOf, h.cipherOf, hkeys, Option.bind_eq_bind, Option.bind_some]

/-- **A container that passes the checks is authentic** if its version is not misread and it has a
CMAC. -/
theorem Passes.authentic_iff (h : Passes p pass k md cipher dek mak) :
    Authentic p pass k ↔ ¬ Outside k.content.info.version ∧ p.mac pass k ≠ none := by
  constructor
  · intro ha
    refine ⟨?_, by simp [ha.signature]⟩
    rw [ha.version]
    unfold Outside
    omega
  · rintro ⟨hversion, hmac⟩
    obtain ⟨tag, htag⟩ := Option.ne_none_iff_exists'.mp hmac
    refine ⟨(toUInt64_eq_zero_iff.mp h.version).resolve_right hversion, iters_iff.mp h.iters, ?_,
      fun other hother => ?_, ?_⟩
    · have hsalt := h.salt
      unfold saltLenMin saltLenMax at hsalt
      omega
    · rw [h.cipherOf] at hother
      cases hother
      exact h.iv
    · rw [htag, h.signature, sign, ← h.mac_eq, htag, Option.getD_some]

/-- A container that opens under the password, though its version is misread or it has no CMAC. -/
structure Irregular (p : Pbkdf Md Cipher) (c : Keys K) (pass : Bytes) (k : FluffyPbkdfKey) :
    Prop where
  flaw : Outside k.content.info.version ∨ p.mac pass k = none
  password : pass ≠ []
  opens : ∃ md cipher dek mak decrypted, Passes p pass k md cipher dek mak ∧
    p.decrypt cipher dek (ivOf k.content.info) (toBin k.content.payload) = some decrypted ∧
    (Curve25519.fromPrivate c decrypted).isSome = true

/-- **When `unwrap` is sound**: unless it is given an irregular container. -/
theorem sound_iff (p : Pbkdf Md Cipher) (c : Keys K) (data pass : Bytes) :
    Sound p c data pass ↔ ∀ k, p.decode data = some k → ¬ Irregular p c pass k := by
  constructor
  · intro h k hk hirregular
    obtain ⟨md, cipher, dek, mak, decrypted, hpasses, hdecrypt, hsome⟩ := hirregular.opens
    obtain ⟨key, hkey⟩ := Option.isSome_iff_exists.mp hsome
    obtain ⟨k', hk', hauthentic⟩ := h key (unwrap_eq_some_iff.mpr ⟨hirregular.password, k, cipher,
      dek, decrypted, hk, verify_eq_some_iff.mpr ⟨md, mak, hpasses⟩, hdecrypt, hkey⟩)
    rw [hk] at hk'
    cases hk'
    obtain ⟨hversion, hmac⟩ := hpasses.authentic_iff.mp hauthentic
    exact hirregular.flaw.elim hversion hmac
  · intro h key hunwrap
    obtain ⟨hpass, k, cipher, dek, decrypted, hk, hverify, hdecrypt, hkey⟩ :=
      unwrap_eq_some_iff.mp hunwrap
    obtain ⟨md, mak, hpasses⟩ := verify_eq_some_iff.mp hverify
    have hopens : (Curve25519.fromPrivate c decrypted).isSome = true := by
      rw [hkey, Option.isSome_some]
    refine ⟨k, hk, hpasses.authentic_iff.mpr (not_or.mp fun hflaw => ?_)⟩
    exact h k hk ⟨hflaw, hpass, md, cipher, dek, mak, decrypted, hpasses, hdecrypt, hopens⟩

end Authentic

/-! ## In the place of what is assumed of keys -/

/-- The arrays filled from a random text. -/
def Drawn.ofBytes (rand : Bytes) : Drawn where
  iv := (rand ++ List.replicate (ivLen + saltLen) 0).take ivLen
  salt := ((rand ++ List.replicate (ivLen + saltLen) 0).drop ivLen).take saltLen
  length_iv := by
    rw [List.length_take, List.length_append, List.length_replicate]
    omega
  length_salt := by
    rw [List.length_take, List.length_drop, List.length_append, List.length_replicate]
    omega

/-- Keys that are wrapped and unwrapped as here. -/
def keys (p : Pbkdf Md Cipher) (c : Keys K) : Keys K :=
  { c with
    pbkdfSeal := fun key pass iters rand => p.wrap c key pass iters (.ofBytes rand)
    pbkdfOpen := p.unwrap c }

/-- `wrap` is what `Keys` has of it. -/
theorem wrap_keys (p : Pbkdf Md Cipher) (c : Keys K) (key : K) (pass : Bytes) (iters : UInt32)
    (rand : Bytes) :
    PbkdfKey.wrap (p.keys c) key pass iters rand = p.wrap c key pass iters (.ofBytes rand) := by
  unfold PbkdfKey.wrap keys wrap
  by_cases hpass : pass = []
  · rw [if_pos hpass, if_pos hpass]
  · by_cases hiters : iters < kdfItersMin ∨ iters > kdfItersMax
    · rw [if_neg hpass, if_neg hpass, if_pos hiters, if_pos hiters]
    · rw [if_neg hpass, if_neg hiters]

/-- `unwrap` is what `Keys` has of it. -/
theorem unwrap_keys (p : Pbkdf Md Cipher) (c : Keys K) (data pass : Bytes) :
    PbkdfKey.unwrap (p.keys c) data pass = p.unwrap c data pass := by
  unfold PbkdfKey.unwrap keys unwrap
  by_cases hpass : pass = []
  · rw [if_pos hpass, if_pos hpass]
  · rw [if_neg hpass]

/-- **The assumption on wrapped keys is met.** -/
theorem keys_laws {md : Md} {cipher : Cipher} (hp : p.Laws md cipher) (hc : c.Laws) :
    (p.keys c).Laws where
  private_key := hc.private_key
  pbkdf key pass iters rand hpass hiters := by
    rw [wrap_keys, unwrap_keys]
    exact unwrap_wrap hp (Curve25519.fromPrivate_toPrivate hc) key _ hpass hiters
  pkcs8 := hc.pkcs8
  pbkdf_nil pass := by
    rw [unwrap_keys]
    unfold unwrap
    split_ifs
    · rfl
    · rw [decode_nil]
      rfl
  pkcs8_nil := hc.pkcs8_nil

/-- **Wrapping is invertible**, and when what is unwrapped is authentic. -/
theorem wrap_unwrap_iff {md : Md} {cipher : Cipher} (p : Pbkdf Md Cipher) (c : Keys K)
    (hp : p.Laws md cipher) (hc : ReadsKeys c) :
    (∀ key pass iters drawn,
      (p.wrap c key pass iters drawn ≠ [] ↔ pass ≠ [] ∧ 1024 ≤ iters ∧ iters ≤ 10485760) ∧
      (p.wrap c key pass iters drawn ≠ [] →
        p.unwrap c (p.wrap c key pass iters drawn) pass = some key)) ∧
    ∀ data pass, Sound p c data pass ↔ ∀ k, p.decode data = some k → ¬ Irregular p c pass k := by
  refine ⟨fun key pass iters drawn => ⟨?_, fun hwrap => ?_⟩, sound_iff p c⟩
  · rw [wrap_ne_nil_iff hp hc, KdfIters, not_or, UInt32.not_lt, gt_iff_lt, UInt32.not_lt]
    rfl
  · obtain ⟨hpass, hiters⟩ := (wrap_ne_nil_iff hp hc key drawn).mp hwrap
    exact unwrap_wrap hp hc key drawn hpass hiters

/-! ## An instance -/

/-- DER containers over a cipher in the clear and one that has no CMAC. -/
def plain : Pbkdf Unit Bool where
  content := .ofCodec FluffyPbkdfContent.codec
  key := .ofCodec FluffyPbkdfKey.codec
  digestOf o := if o = kdfObject then some () else none
  cipherOf o := if o = keyObject then some true else some false
  keyLength _ := 32
  ivLength _ := ivLen
  pbkdf2 _ _ _ _ n := some (List.replicate n 0)
  cmac cipher _ _ := if cipher then some (List.replicate 16 1) else none
  encrypt _ _ _ data := data
  decrypt _ _ _ data := some data

theorem plain_laws : plain.Laws () true where
  digestOf := rfl
  cipherOf := rfl
  ivLength := rfl
  pbkdf2 _ _ _ _ := rfl
  cmac _ _ := ⟨List.replicate 16 1, rfl, by decide, by decide⟩
  decrypt _ _ _ := rfl
  encrypt _ _ data := by
    show data.length ≤ _
    omega
  decode k := by
    have hne : plain.key.i2d k ≠ [] := FluffyPbkdfKey.codec.enc_ne_nil k
    obtain ⟨k', hdec, rfl⟩ := FluffyPbkdfKey.codec_readsBack k []
    rw [List.append_nil] at hdec
    unfold decode
    rw [if_neg hne]
    simp only [plain, Item.ofCodec, hdec, Option.map_some]

theorem plainKeys_reads : ReadsKeys plainKeys := Curve25519.fromPrivate_toPrivate plainKeys_laws

theorem wrap_unwrap_iff_ones :
    plain.wrap plainKeys Curve25519.ones [1] 1024 (.ofBytes []) ≠ [] ∧
      plain.unwrap plainKeys (plain.wrap plainKeys Curve25519.ones [1] 1024 (.ofBytes [])) [1] =
        some Curve25519.ones := by
  have hwrap := (wrap_unwrap_iff plain plainKeys plain_laws plainKeys_reads).1 Curve25519.ones [1]
    1024 (.ofBytes [])
  have hne := hwrap.1.mpr ⟨by decide, by decide, by decide⟩
  exact ⟨hne, hwrap.2 hne⟩

/-- A container with this version, cipher and signature. -/
def forged (version : Int) (keytype : Octets) (signature : Asn1.Str) : FluffyPbkdfKey where
  content :=
    { info :=
        { version, keytype
          iters := 1024
          salt := ⟨List.replicate 8 0, by decide⟩
          iv := some ⟨List.replicate 16 0, by decide⟩
          kdf := kdfObject }
      payload := ⟨List.replicate 32 1, by decide⟩ }
  signature

theorem unwrap_forged {version : Int} {keytype : Octets} {signature : Asn1.Str} {cipher : Bool}
    (hversion : toUInt64 version = 0) (hcipher : plain.cipherOf keytype = some cipher)
    (hsignature : signature.data = if cipher then List.replicate 16 1 else []) :
    plain.unwrap plainKeys (plain.key.i2d (forged version keytype signature)) [1] =
      some Curve25519.ones := by
  refine unwrap_eq_some_iff.mpr ⟨by decide, _, cipher, List.replicate 32 0, List.replicate 32 1,
    plain_laws.decode _, verify_eq_some_iff.mpr ⟨(), List.replicate 32 0, ?_⟩, rfl, by decide⟩
  constructor
  · rfl
  · exact hcipher
  · exact hversion
  · exact iters_iff.mpr (by decide : (1024 : Int) ≤ 1024 ∧ (1024 : Int) ≤ 10485760)
  · exact (by decide : ¬ (8 < saltLenMin ∨ 8 > saltLenMax))
  · rfl
  · rfl
  · rw [toBin_eq]
    refine hsignature.trans ?_
    cases cipher <;> rfl

/-- A container of version `-1` is opened, and so is one without a signature for a cipher without
CMAC. -/
theorem forged_not_sound :
    ¬ Sound plain plainKeys
        (plain.key.i2d (forged (-1) keyObject ⟨List.replicate 16 1, by decide⟩)) [1] ∧
      ¬ Sound plain plainKeys (plain.key.i2d (forged 0 [] ⟨[], by decide⟩)) [1] := by
  constructor
  · intro h
    obtain ⟨k, hk, hauthentic⟩ := h _
      (unwrap_forged (toUInt64_of_outside (.inl (by decide))) plain_laws.cipherOf rfl)
    rw [plain_laws.decode] at hk
    cases hk
    exact absurd hauthentic.version (by decide)
  · intro h
    obtain ⟨k, hk, hauthentic⟩ := h _ (unwrap_forged toUInt64_zero rfl rfl)
    rw [plain_laws.decode] at hk
    cases hk
    exact absurd hauthentic.signature (by decide)

end Pbkdf

end Ossl

end Fluffycoin
