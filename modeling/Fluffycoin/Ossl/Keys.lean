import Fluffycoin.Utils.BinData

/-!
# Private keys and their encrypted forms

Model of `src/ossl/{Curve25519,PbkdfKey,Pkcs8Key}.cpp` as far as a wallet uses them. `K` is the type
of ED25519 `EVP_PKEY`s and `Keys K` the part that is OpenSSL's: the serialisations, and what `wrap`
and `unwrap` do once their arguments have passed the checks, which are modelled. The random salt and
initialisation vector of `wrap` are an argument, `rand`.

`Keys.Laws` says what is assumed: the private serialisation is the fixed prefix `privinfo` and a
point of 32 bytes, from which the key is read back; what is wrapped under a non-empty password and
an admissible number of iterations is unwrapped with that password; nothing is unwrapped from the
empty string.

`toPrivateData` is `toPrivate` with the memory it works in. What it returns leaves the second half
of the private point in freed memory (`zero_cleanup_toPrivateData_iff`).
-/

namespace Fluffycoin.Ossl

/-- The part of OpenSSL's key handling in use. -/
structure Keys (K : Type) where
  toPublic : K → Bytes
  sign : K → Bytes → Bytes
  i2dPrivateKey : K → Bytes
  d2iPrivateKey : Bytes → Option K
  pbkdfSeal : K → Bytes → UInt32 → Bytes → Bytes
  pbkdfOpen : Bytes → Bytes → Option K
  pkcs8Seal : K → Bytes → UInt32 → Bytes → Bytes
  pkcs8Open : Bytes → Bytes → Option K

/-- `KDF_ITERS_MIN`, in both files. -/
def kdfItersMin : UInt32 := 1024

/-- `KDF_ITERS_MAX`, in both files. -/
def kdfItersMax : UInt32 := 10 * 1024 * 1024

/-- The number of iterations passes the check of `wrap`. -/
def KdfIters (iters : UInt32) : Prop := ¬ (iters < kdfItersMin ∨ iters > kdfItersMax)

instance (iters : UInt32) : Decidable (KdfIters iters) :=
  inferInstanceAs (Decidable (¬ (iters < kdfItersMin ∨ iters > kdfItersMax)))

variable {K : Type} (c : Keys K)

namespace Curve25519

/-- `POINT_LEN`. -/
def pointLen : Nat := 32

/-- The first `PRIV_ENCODING_LEN` bytes of `privinfo`. -/
def privinfo : Bytes :=
  [0x30, 0x2e, 0x02, 0x01, 0x00, 0x30, 0x05, 0x06, 0x03, 0x2b, 0x65, 0x70, 0x04, 0x22, 0x04, 0x20]

/-- `Curve25519::toPrivate` (`Curve25519.cpp:103-117`). -/
def toPrivate (key : K) : Bytes :=
  let ret := c.i2dPrivateKey key
  if ret.length < pointLen then [] else ret.drop (ret.length - pointLen)

/-- `Curve25519::fromPrivate` (`Curve25519.cpp:119-137`). -/
def fromPrivate (priv : Bytes) : Option K :=
  if priv.length ≠ pointLen then none else c.d2iPrivateKey (privinfo ++ priv)

end Curve25519

namespace PbkdfKey

/-- `PbkdfKey::KDF_ITERS_DEFAULT`. -/
def kdfItersDefault : UInt32 := 1024 * 1024

/-- `PbkdfKey::wrap` (`PbkdfKey.cpp:188-284`). -/
def wrap (key : K) (pass : Bytes) (iters : UInt32) (rand : Bytes) : Bytes :=
  if pass = [] then []
  else if iters < kdfItersMin ∨ iters > kdfItersMax then []
  else c.pbkdfSeal key pass iters rand

/-- `PbkdfKey::unwrap` (`PbkdfKey.cpp:286-401`). -/
def unwrap (key pass : Bytes) : Option K := if pass = [] then none else c.pbkdfOpen key pass

end PbkdfKey

namespace Pkcs8Key

/-- `Pkcs8Key::wrap` (`Pkcs8Key.cpp:23-83`). Unlike its sibling it does not look at the password. -/
def wrap (key : K) (pass : Bytes) (iters : UInt32) (rand : Bytes) : Bytes :=
  if iters < kdfItersMin ∨ iters > kdfItersMax then [] else c.pkcs8Seal key pass iters rand

/-- `Pkcs8Key::unwrap` (`Pkcs8Key.cpp:85-121`). -/
def unwrap (key pass : Bytes) : Option K := c.pkcs8Open key pass

end Pkcs8Key

/-- What is assumed of OpenSSL's keys. -/
structure Keys.Laws (c : Keys K) : Prop where
  private_key : ∀ key, ∃ point : Bytes, point.length = Curve25519.pointLen ∧
    c.i2dPrivateKey key = Curve25519.privinfo ++ point ∧
      c.d2iPrivateKey (Curve25519.privinfo ++ point) = some key
  pbkdf : ∀ key pass iters rand, pass ≠ [] → KdfIters iters →
    PbkdfKey.unwrap c (PbkdfKey.wrap c key pass iters rand) pass = some key
  pkcs8 : ∀ key pass iters rand, pass ≠ [] → KdfIters iters →
    Pkcs8Key.unwrap c (Pkcs8Key.wrap c key pass iters rand) pass = some key
  pbkdf_nil : ∀ pass, PbkdfKey.unwrap c [] pass = none
  pkcs8_nil : ∀ pass, Pkcs8Key.unwrap c [] pass = none

variable {c}

theorem Curve25519.toPrivate_eq {key : K} {point : Bytes} (hlen : point.length = pointLen)
    (hi2d : c.i2dPrivateKey key = privinfo ++ point) : toPrivate c key = point := by
  unfold toPrivate
  simp only [hi2d]
  rw [if_neg (by rw [List.length_append, hlen]; omega),
    List.drop_left' (by rw [List.length_append, hlen]; omega)]

/-- The private point is read back. -/
theorem Curve25519.fromPrivate_toPrivate (hc : c.Laws) (key : K) :
    fromPrivate c (toPrivate c key) = some key := by
  obtain ⟨point, hlen, hi2d, hd2i⟩ := hc.private_key key
  unfold fromPrivate
  rw [toPrivate_eq hlen hi2d, if_neg (not_not.mpr hlen)]
  exact hd2i

theorem PbkdfKey.of_wrap_ne_nil {key : K} {pass rand : Bytes} {iters : UInt32}
    (h : wrap c key pass iters rand ≠ []) : pass ≠ [] ∧ KdfIters iters := by
  unfold wrap at h
  split at h
  · exact absurd rfl h
  · split at h
    · exact absurd rfl h
    · rename_i hpass hiters
      exact ⟨hpass, hiters⟩

theorem Pkcs8Key.of_wrap_ne_nil {key : K} {pass rand : Bytes} {iters : UInt32}
    (h : wrap c key pass iters rand ≠ []) : KdfIters iters := by
  unfold wrap at h
  split at h
  · exact absurd rfl h
  · rename_i hiters
    exact hiters

theorem PbkdfKey.wrap_ne_nil (hc : c.Laws) (key : K) {pass : Bytes} {iters : UInt32}
    (hpass : pass ≠ []) (hiters : KdfIters iters) (rand : Bytes) :
    wrap c key pass iters rand ≠ [] := by
  intro hnil
  have hopen := hc.pbkdf key pass iters rand hpass hiters
  rw [hnil, hc.pbkdf_nil] at hopen
  cases hopen

theorem Pkcs8Key.wrap_ne_nil (hc : c.Laws) (key : K) {pass : Bytes} {iters : UInt32}
    (hpass : pass ≠ []) (hiters : KdfIters iters) (rand : Bytes) :
    wrap c key pass iters rand ≠ [] := by
  intro hnil
  have hopen := hc.pkcs8 key pass iters rand hpass hiters
  rw [hnil, hc.pkcs8_nil] at hopen
  cases hopen

/-- Keys that are their private points, wrapped in the clear, with signatures that show them. -/
def plainKeys : Keys { point : Bytes // point.length = Curve25519.pointLen } :=
  let read (l : Bytes) : Option { point : Bytes // point.length = Curve25519.pointLen } :=
    if h : l.length = Curve25519.pointLen then some ⟨l, h⟩ else none
  { toPublic := fun key => key.1
    sign := fun key _ => key.1 ++ key.1
    i2dPrivateKey := fun key => Curve25519.privinfo ++ key.1
    d2iPrivateKey := fun l => read (l.drop Curve25519.privinfo.length)
    pbkdfSeal := fun key _ _ _ => key.1
    pbkdfOpen := fun l _ => read l
    pkcs8Seal := fun key _ _ _ => key.1
    pkcs8Open := fun l _ => read l }

theorem plainKeys_laws : plainKeys.Laws where
  private_key := by
    rintro ⟨point, hlen⟩
    refine ⟨point, hlen, rfl, ?_⟩
    simp [plainKeys, hlen]
  pbkdf := by
    rintro ⟨point, hlen⟩ pass iters rand hpass hiters
    simp only [PbkdfKey.unwrap, PbkdfKey.wrap, if_neg hpass]
    rw [if_neg hiters]
    simp [plainKeys, hlen]
  pkcs8 := by
    rintro ⟨point, hlen⟩ pass iters rand _ hiters
    simp only [Pkcs8Key.unwrap, Pkcs8Key.wrap]
    rw [if_neg hiters]
    simp [plainKeys, hlen]
  pbkdf_nil := by
    intro pass
    unfold PbkdfKey.unwrap
    split
    · rfl
    · rfl
  pkcs8_nil _ := rfl

/-! ## The memory of a private key -/

namespace Curve25519

/-- `Curve25519::toPrivate` with its buffer, and the blocks freed. -/
def toPrivateData (c : Keys K) (key : K) : BinData × List Bytes :=
  let ret := ((BinData.new true).setData (some (c.i2dPrivateKey key))).1
  if ret.len < pointLen then ret.cleanup else (ret.truncateFront (ret.len - pointLen), [])

/-- The prefix of a private serialisation is cut off at the front. -/
theorem toPrivateData_eq {key : K} {point : Bytes} (hlen : point.length = pointLen)
    (hi2d : c.i2dPrivateKey key = privinfo ++ point) :
    toPrivateData c key =
      ((BinData.ofBlock true (privinfo ++ point)).truncateFront privinfo.length, []) := by
  have hset : ((BinData.new true).setData (some (privinfo ++ point))).1 =
      BinData.ofBlock true (privinfo ++ point) := rfl
  have hblock : (BinData.ofBlock true (privinfo ++ point)).len = privinfo.length + pointLen := by
    rw [← hlen]
    exact List.length_append
  unfold toPrivateData
  simp only [hi2d, hset, hblock]
  rw [if_neg (Nat.not_lt.mpr (Nat.le_add_left _ _)), Nat.add_sub_cancel]

/-- **What is left of a private key** when the data of `toPrivate` are destroyed: the second half of
its point. -/
theorem zero_cleanup_toPrivateData_iff (hc : c.Laws) (key : K) :
    (∀ block ∈ (toPrivateData c key).1.cleanup.2, BinData.Zero block) ↔
      BinData.Zero ((toPrivate c key).drop 16) := by
  obtain ⟨point, hlen, hi2d, -⟩ := hc.private_key key
  have hblock : (BinData.ofBlock true (privinfo ++ point)).len - privinfo.length =
      privinfo.length + 16 := by
    show (privinfo ++ point).length - privinfo.length = _
    rw [List.length_append, hlen]
    rfl
  rw [toPrivateData_eq hlen hi2d, toPrivate_eq hlen hi2d,
    BinData.zero_cleanup_iff (BinData.bSecure_truncateFront _ _), BinData.slack_truncateFront,
    hblock, BinData.contents_ofBlock, BinData.slack_ofBlock, List.append_nil,
    List.drop_length_add_append]

/-- **When secure data leave nothing in freed memory**, over every sequence of operations; and what
is left of a private key. -/
theorem secure_wiped_iff (c : Keys K) (hc : c.Laws) :
    (∀ ops : List BinData.Op, (∀ l, l <+: ops → ((BinData.new true).run l).bSecure = true) →
      ((∀ block ∈ (BinData.new true).released ops, BinData.Zero block) ↔
        Trace.Along BinData.step Prod.fst BinData.LeavesNothing (BinData.new true) ops)) ∧
    ∀ key, (∀ block ∈ (toPrivateData c key).1.cleanup.2, BinData.Zero block) ↔
      BinData.Zero ((toPrivate c key).drop 16) := by
  refine ⟨fun ops hsecure => ?_, zero_cleanup_toPrivateData_iff hc⟩
  rw [BinData.zero_released_iff ops hsecure]
  exact and_iff_right BinData.zero_nil

/-- A private point of ones. -/
def ones : { point : Bytes // point.length = pointLen } := ⟨List.replicate 32 1, by decide⟩

theorem secure_wiped_iff_ones :
    ((∀ block ∈ (BinData.new true).released [.append (some [1]), .clear], BinData.Zero block) ↔
      Trace.Along BinData.step Prod.fst BinData.LeavesNothing (BinData.new true)
        [.append (some [1]), .clear]) ∧
    ((∀ block ∈ (toPrivateData plainKeys ones).1.cleanup.2, BinData.Zero block) ↔
      BinData.Zero ((toPrivate plainKeys ones).drop 16)) := by
  refine ⟨(secure_wiped_iff plainKeys plainKeys_laws).1 _ fun l hl => ?_,
    (secure_wiped_iff plainKeys plainKeys_laws).2 ones⟩
  simp only [List.prefix_cons_iff, List.prefix_nil] at hl
  rcases hl with rfl | ⟨_, rfl, rfl | ⟨_, rfl, rfl⟩⟩ <;> rfl

/-- The second half of a private key is still there when its data have been destroyed, and one byte
that was cut off the front leaves the last one. -/
theorem half_key_left_behind :
    (toPrivateData plainKeys ones).1.cleanup.2 = [List.replicate 32 0 ++ List.replicate 16 1] ∧
      (BinData.new true).released [.setData (some [1, 2]), .truncateFront 1] = [[0, 2]] ∧
      ¬ ∀ block ∈ (toPrivateData plainKeys ones).1.cleanup.2, BinData.Zero block := by
  have hblock : (toPrivateData plainKeys ones).1.cleanup.2 =
      [List.replicate 32 0 ++ List.replicate 16 1] := by decide
  refine ⟨hblock, by decide, ?_⟩
  rw [hblock]
  decide

end Curve25519

end Fluffycoin.Ossl
