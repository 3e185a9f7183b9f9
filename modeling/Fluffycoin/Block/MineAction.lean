import Fluffycoin.Block.Copy

/-!
# The objects of a mine action

Model of `Register`, `Unregister` and `CredentialChange` of `src/block`, the alternatives of
`block::MineAction`: their ASN.1 templates, fields, `toAsn1` and `fromAsn1`, as in
`Block/Objects.lean`. As there, what fits comes back from ASN.1 unchanged (`X.fromAsn1_toAsn1`).
-/

namespace Fluffycoin

open Fluffycoin.Ossl

namespace Asn1

/-- `asn1::RegisterContent`. -/
structure RegisterContent where
  stakeAmount : Specie
  stakeAddress : Str
  stakeKey : Str
  newAddress : Str
  authAddress : Str
  authKey : Str
  deriving DecidableEq, Repr, Inhabited

/-- `asn1::Register`. -/
structure Register where
  content : RegisterContent
  stakeSignature : Str
  authSignature : Str
  deriving DecidableEq, Repr, Inhabited

/-- `asn1::Unregister`. -/
structure Unregister where
  authAddress : Str
  authSignature : Str
  deriving DecidableEq, Repr, Inhabited

/-- `asn1::CredentialChangeContent`. -/
structure CredentialChangeContent where
  authAddress : Str
  newAuthAddress : Str
  newAuthKey : Str
  stakeAddress : Str
  stakeKey : Str
  newStakeAddress : Str
  deriving DecidableEq, Repr, Inhabited

/-- `asn1::CredentialChange`. -/
structure CredentialChange where
  content : CredentialChangeContent
  authSignature : Str
  newAuthSignature : Str
  stakeSignature : Str
  deriving DecidableEq, Repr, Inhabited

end Asn1

/-- `block::Register`. -/
structure Register where
  stakeAmount : Specie := {}
  stakeAddress : Bytes := []
  stakeKey : Bytes := []
  newAddress : Bytes := []
  authAddress : Bytes := []
  authKey : Bytes := []
  stakeSignature : Bytes := []
  authSignature : Bytes := []
  deriving DecidableEq, Repr, Inhabited

namespace Register

def toAsn1 (r : Register) (t : Asn1.Register) : Asn1.Register :=
  { t with
    content := { t.content with
      stakeAmount := r.stakeAmount.toAsn1 t.content.stakeAmount
      stakeAddress := fromBin r.stakeAddress
      stakeKey := fromBin r.stakeKey
      newAddress := fromBin r.newAddress
      authAddress := fromBin r.authAddress
      authKey := fromBin r.authKey }
    stakeSignature := fromBin r.stakeSignature
    authSignature := fromBin r.authSignature }

def fromAsn1 (t : Asn1.Register) : Register where
  stakeAmount := Specie.fromAsn1 t.content.stakeAmount
  stakeAddress := toBin t.content.stakeAddress
  stakeKey := toBin t.content.stakeKey
  newAddress := toBin t.content.newAddress
  authAddress := toBin t.content.authAddress
  authKey := toBin t.content.authKey
  stakeSignature := toBin t.stakeSignature
  authSignature := toBin t.authSignature

structure Fits (r : Register) : Prop where
  stakeAmount : r.stakeAmount.Fits Kept
  stakeAddress : Short r.stakeAddress
  stakeKey : Short r.stakeKey
  newAddress : Short r.newAddress
  authAddress : Short r.authAddress
  authKey : Short r.authKey
  stakeSignature : Short r.stakeSignature
  authSignature : Short r.authSignature

theorem fromAsn1_toAsn1 {r : Register} (hf : r.Fits) (t : Asn1.Register) :
    fromAsn1 (r.toAsn1 t) = r := by
  simp only [fromAsn1, toAsn1]
  rw [Specie.fromAsn1_toAsn1 hf.stakeAmount, toBin_fromBin hf.stakeAddress,
    toBin_fromBin hf.stakeKey, toBin_fromBin hf.newAddress, toBin_fromBin hf.authAddress,
    toBin_fromBin hf.authKey, toBin_fromBin hf.stakeSignature, toBin_fromBin hf.authSignature]

end Register

/-- `block::Unregister`. -/
structure Unregister where
  authAddress : Bytes := []
  authSignature : Bytes := []
  deriving DecidableEq, Repr, Inhabited

namespace Unregister

def toAsn1 (u : Unregister) (t : Asn1.Unregister) : Asn1.Unregister :=
  { t with authAddress := fromBin u.authAddress, authSignature := fromBin u.authSignature }

def fromAsn1 (t : Asn1.Unregister) : Unregister := ⟨toBin t.authAddress, toBin t.authSignature⟩

def Fits (u : Unregister) : Prop := Short u.authAddress ∧ Short u.authSignature

theorem fromAsn1_toAsn1 {u : Unregister} (hf : u.Fits) (t : Asn1.Unregister) :
    fromAsn1 (u.toAsn1 t) = u := by
  simp only [fromAsn1, toAsn1]
  rw [toBin_fromBin hf.1, toBin_fromBin hf.2]

end Unregister

/-- `block::CredentialChange`. -/
structure CredentialChange where
  authAddress : Bytes := []
  newAuthAddress : Bytes := []
  newAuthKey : Bytes := []
  stakeAddress : Bytes := []
  stakeKey : Bytes := []
  newStakeAddress : Bytes := []
  authSignature : Bytes := []
  newAuthSignature : Bytes := []
  stakeSignature : Bytes := []
  deriving DecidableEq, Repr, Inhabited

namespace CredentialChange

def toAsn1 (c : CredentialChange) (t : Asn1.CredentialChange) : Asn1.CredentialChange :=
  { t with
    content := { t.content with
      authAddress := fromBin c.authAddress
      newAuthAddress := fromBin c.newAuthAddress
      stakeAddress := fromBin c.stakeAddress
      newStakeAddress := fromBin c.newStakeAddress
      newAuthKey := fromBin c.newAuthKey
      stakeKey := fromBin c.stakeKey }
    authSignature := fromBin c.authSignature
    newAuthSignature := fromBin c.newAuthSignature
    stakeSignature := fromBin c.stakeSignature }

def fromAsn1 (t : Asn1.CredentialChange) : CredentialChange where
  authAddress := toBin t.content.authAddress
  newAuthAddress := toBin t.content.newAuthAddress
  newAuthKey := toBin t.content.newAuthKey
  stakeAddress := toBin t.content.stakeAddress
  stakeKey := toBin t.content.stakeKey
  newStakeAddress := toBin t.content.newStakeAddress
  authSignature := toBin t.authSignature
  newAuthSignature := toBin t.newAuthSignature
  stakeSignature := toBin t.stakeSignature

structure Fits (c : CredentialChange) : Prop where
  authAddress : Short c.authAddress
  newAuthAddress : Short c.newAuthAddress
  newAuthKey : Short c.newAuthKey
  stakeAddress : Short c.stakeAddress
  stakeKey : Short c.stakeKey
  newStakeAddress : Short c.newStakeAddress
  authSignature : Short c.authSignature
  newAuthSignature : Short c.newAuthSignature
  stakeSignature : Short c.stakeSignature

theorem fromAsn1_toAsn1 {c : CredentialChange} (hf : c.Fits) (t : Asn1.CredentialChange) :
    fromAsn1 (c.toAsn1 t) = c := by
  simp only [fromAsn1, toAsn1]
  rw [toBin_fromBin hf.authAddress, toBin_fromBin hf.newAuthAddress, toBin_fromBin hf.newAuthKey,
    toBin_fromBin hf.stakeAddress, toBin_fromBin hf.stakeKey, toBin_fromBin hf.newStakeAddress,
    toBin_fromBin hf.authSignature, toBin_fromBin hf.newAuthSignature,
    toBin_fromBin hf.stakeSignature]

end CredentialChange

end Fluffycoin
