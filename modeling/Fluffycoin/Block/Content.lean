import Fluffycoin.Block.Der
import Fluffycoin.Block.Objects

/-!
# What a reconciliation block's hash and signature commit to

`DbIntegrator::integrateRecon` hashes `recon.toContent()` and the next reconciliation block names
that hash; signatures are made over the same bytes. `toContent` encodes the content of a fresh
ASN.1 structure the decoded object was written to. The template has five fields (`protocol`,
`time`, `chainId`, `shardInfo`, `leader`), the object four: `Reconciliation` has no `time`, and
`toAsn1` leaves it at the zero of the fresh structure.

So what is hashed is the received content with its time set to zero
(`decodeBlock_toContent`): it is the received content exactly when that time is zero
(`toContent_eq_received_iff`), and two received blocks have one hash input exactly when their
contents agree up to time (`toContent_eq_toContent_iff`).
-/

namespace Fluffycoin

open Fluffycoin.Ossl

namespace Asn1

/-- An `INTEGER` in the range of `uint32_t`. -/
def IsUInt32 (t : Int) : Prop := 0 ≤ t ∧ t < 2 ^ 32

/-- The fields the object keeps in 32 bits are in range. -/
structure ReconciliationContent.InRange (c : ReconciliationContent) : Prop where
  protocol : IsUInt32 c.protocol
  chainId : IsUInt32 c.chainId
  blocks : ∀ i ∈ c.shardInfo, IsUInt32 i.blocks

end Asn1

theorem fromUInt32_toUInt32 {t : Int} (h : Asn1.IsUInt32 t) : fromUInt32 (toUInt32 t) = t :=
  toUInt32_of_range h.1 h.2

theorem Hash.toAsn1_fromAsn1 (t u : Asn1.Hash) : (fromAsn1 t).toAsn1 u = t := by
  simp only [fromAsn1, toAsn1]
  rw [fromBin_toBin, fromBin_toBin]

theorem ReconciliationShardInfo.toAsn1_fromAsn1 {t : Asn1.ReconciliationShardInfo}
    (h : Asn1.IsUInt32 t.blocks) (u : Asn1.ReconciliationShardInfo) :
    (fromAsn1 t).toAsn1 u = t := by
  simp only [fromAsn1, toAsn1]
  rw [Hash.toAsn1_fromAsn1, fromUInt32_toUInt32 h]

/-- Written back, a read content has lost its time and nothing else. -/
theorem Reconciliation.content_toAsn1_fromAsn1 {t : Asn1.Reconciliation}
    (h : t.content.InRange) :
    ((fromAsn1 t).toAsn1 default).content = { t.content with time := 0 } := by
  have hshards : toStack ReconciliationShardInfo.toAsn1
      (fromStack ReconciliationShardInfo.fromAsn1 id t.content.shardInfo) =
        t.content.shardInfo := by
    unfold toStack fromStack
    rw [List.map_map]
    conv_rhs => rw [← List.map_id t.content.shardInfo]
    refine List.map_congr_left fun i hi => ?_
    exact ReconciliationShardInfo.toAsn1_fromAsn1 (h.blocks i hi) default
  simp only [fromAsn1, toAsn1]
  rw [fromUInt32_toUInt32 h.protocol, fromUInt32_toUInt32 h.chainId, fromBin_toBin, hshards]
  rfl

section Received

variable {o : OpenSsl} (ho : o.RoundTrips)

include ho

/-- **What is hashed** of a received reconciliation block: its content, with time zero. -/
theorem decodeBlock_toContent {v : Asn1.Reconciliation} (hv : v.content.InRange) :
    ∃ r, decodeBlock o (o.block.i2d (.reconciliation v)) = some (.reconciliation r) ∧
      r.toContent o = o.reconciliationContent.i2d { v.content with time := 0 } := by
  obtain ⟨u, hread, hu⟩ := ho.block (.reconciliation v)
  unfold decodeBlock decodeItem
  rw [hread]
  cases u with
  | reconciliation t =>
    obtain ⟨hcontent, _, _⟩ : v.SetEq t := hu
    rw [hcontent] at hv ⊢
    refine ⟨Reconciliation.fromAsn1 t, rfl, ?_⟩
    unfold Reconciliation.toContent
    rw [Reconciliation.content_toAsn1_fromAsn1 hv]
  | null => exact hu.elim
  | genesis t => exact hu.elim
  | node t => exact hu.elim

/-- Two received blocks have one hash input exactly when their contents agree up to time. -/
theorem toContent_eq_toContent_iff {v w : Asn1.Reconciliation} (hv : v.content.InRange)
    (hw : w.content.InRange) {r s : Reconciliation}
    (hr : decodeBlock o (o.block.i2d (.reconciliation v)) = some (.reconciliation r))
    (hs : decodeBlock o (o.block.i2d (.reconciliation w)) = some (.reconciliation s)) :
    r.toContent o = s.toContent o ↔
      { v.content with time := 0 } = { w.content with time := 0 } := by
  obtain ⟨r', hr', hrc⟩ := decodeBlock_toContent ho hv
  obtain ⟨s', hs', hsc⟩ := decodeBlock_toContent ho hw
  obtain rfl : r' = r := Block.reconciliation.inj (Option.some.inj (hr'.symm.trans hr))
  obtain rfl : s' = s := Block.reconciliation.inj (Option.some.inj (hs'.symm.trans hs))
  rw [hrc, hsc]
  constructor
  · intro h
    exact ho.reconciliationContent.injective h
  · intro h
    rw [h]

end Received

/-- **When the hash commits to what was received**: `toContent` of a decoded reconciliation block
is the DER of the received content exactly if the received time is zero. -/
theorem toContent_eq_received_iff (o : OpenSsl) (ho : o.RoundTrips) (v : Asn1.Reconciliation)
    (hv : v.content.InRange) :
    ∃ r, decodeBlock o (o.block.i2d (.reconciliation v)) = some (.reconciliation r) ∧
      (r.toContent o = o.reconciliationContent.i2d v.content ↔ v.content.time = 0) := by
  obtain ⟨r, hdec, hr⟩ := decodeBlock_toContent ho hv
  refine ⟨r, hdec, ?_⟩
  rw [hr]
  constructor
  · intro h
    have := ho.reconciliationContent.injective h
    exact (congrArg Asn1.ReconciliationContent.time this).symm
  · intro h
    rw [← h]

/-- A received block whose content holds nothing but a time. -/
def timedReconciliation (time : Int) : Asn1.Reconciliation :=
  { content := { protocol := 0, time, chainId := 0, shardInfo := [], leader := default }
    signature := default
    votes := [] }

theorem timedReconciliation_inRange (time : Int) : (timedReconciliation time).content.InRange where
  protocol := by simp [timedReconciliation, Asn1.IsUInt32]
  chainId := by simp [timedReconciliation, Asn1.IsUInt32]
  blocks i hi := by simp [timedReconciliation] at hi

theorem toContent_eq_received_iff_timed :
    (timedReconciliation 5).content.InRange ∧
      ∃ r, decodeBlock (der id id) ((der id id).block.i2d
          (.reconciliation (timedReconciliation 5))) = some (.reconciliation r) ∧
        (r.toContent (der id id) =
          (der id id).reconciliationContent.i2d (timedReconciliation 5).content ↔
            (timedReconciliation 5).content.time = 0) :=
  ⟨timedReconciliation_inRange 5, toContent_eq_received_iff (der id id) (der_roundTrips id id)
    (timedReconciliation 5) (timedReconciliation_inRange 5)⟩

/-- Two received blocks with different contents and one hash input. -/
theorem toContent_collision :
    ∃ r s, decodeBlock (der id id) ((der id id).block.i2d
          (.reconciliation (timedReconciliation 5))) = some (.reconciliation r) ∧
      decodeBlock (der id id) ((der id id).block.i2d
          (.reconciliation (timedReconciliation 6))) = some (.reconciliation s) ∧
      (timedReconciliation 5).content ≠ (timedReconciliation 6).content ∧
      r.toContent (der id id) = s.toContent (der id id) ∧
      r.toContent (der id id) ≠
        (der id id).reconciliationContent.i2d (timedReconciliation 5).content := by
  have ho := der_roundTrips id id
  obtain ⟨r, hr, hrc⟩ := decodeBlock_toContent ho (timedReconciliation_inRange 5)
  obtain ⟨s, hs, hsc⟩ := decodeBlock_toContent ho (timedReconciliation_inRange 6)
  refine ⟨r, s, hr, hs, by decide, hrc.trans hsc.symm, fun h => ?_⟩
  have := ho.reconciliationContent.injective (hrc.symm.trans h)
  exact absurd (congrArg Asn1.ReconciliationContent.time this) (by decide)

end Fluffycoin
