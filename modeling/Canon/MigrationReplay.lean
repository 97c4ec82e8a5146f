import Canon.BridgeRollback
import Canon.MigrationHandoff

/-!
# What a migration signature authorises

The constructor of the migration between two bridges asks the two contracts for
their deployment ids and signs over the answers.  The addresses themselves are
pinned in the record and are not part of the digest.
-/

namespace Canon
namespace Migration

open List

/-- The contract at an address, by what its getters answer to the constructor.
Where one of them reverts there is no construction. -/
structure ReportedBridge where
  address : Address
  deploymentId : Bytes32
  migration : Address
  attestor : Address
  deriving DecidableEq

def ReportedBridge.ofBridge (params : Bridge.BridgeParams) : ReportedBridge where
  address := params.self
  deploymentId := params.deploymentId
  migration := params.migration
  attestor := params.attestor

/-- The arguments of the constructor and what it finds on the chain. -/
structure Construction where
  blockNumber : ℕ
  predecessor : ReportedBridge
  successor : ReportedBridge
  graceWindowBlocks : ℕ
  migrationStateRoot : Bytes32
  migrationStateRootLogIdx : UInt64
  grace_lt : graceWindowBlocks < 2 ^ 256

def Construction.run (recover : Recover) (chainId : ℕ) (self : Address)
    (construction : Construction) (attestorSig : Bytes) : Except MigrationError BridgeMigration :=
  if construction.predecessor.address = 0 ∨ construction.successor.address = 0 then
    .error .zeroAddress
  else if hself : construction.predecessor.address = construction.successor.address then
    .error .selfMigration
  else if hgrace : construction.graceWindowBlocks < minGraceWindowBlocks then
    .error .graceTooShort
  else if hid : construction.predecessor.deploymentId = construction.successor.deploymentId then
    .error .sameDeploymentId
  else if construction.predecessor.migration ≠ self then
    .error .predecessorDoesNotReferenceThisMigration
  else if hattestor : construction.predecessor.attestor = 0 then
    .error .zeroAddress
  else
    let record : BridgeMigration := {
      predecessor := construction.predecessor.address
      successor := construction.successor.address
      predecessorDeploymentId := construction.predecessor.deploymentId
      successorDeploymentId := construction.successor.deploymentId
      migrationAttestor := construction.predecessor.attestor
      proposedAtBlock := construction.blockNumber
      graceWindowBlocks := construction.graceWindowBlocks
      migrationStateRoot := construction.migrationStateRoot
      migrationStateRootLogIdx := construction.migrationStateRootLogIdx
      chainId := chainId
      self := self
      predecessor_ne_successor := hself
      grace_le := Nat.not_lt.mp hgrace
      deploymentId_ne := hid
      attestor_ne_zero := hattestor }
    if attestorSig.length ≠ 65 then .error .invalidSignatureLength
    else
      match recover record.wrapDigest attestorSig with
      | none => .error .signatureMalformed
      | some recovered =>
        if recovered ≠ construction.predecessor.attestor then
          .error .attestationInvalid
        else .ok record

/-! ## The signed strings -/

def BridgeMigration.structPreimage (record : BridgeMigration) : Bytes :=
  Eip712.textHash Eip712.canonMigrationTypeString ++ record.predecessorDeploymentId.toBytes ++
    record.successorDeploymentId.toBytes ++ record.migrationStateRoot.toBytes ++
    abiWord record.migrationStateRootLogIdx.toNat ++ abiWord record.graceWindowBlocks

def BridgeMigration.wrapPreimage (record : BridgeMigration) : Bytes := [0x19, 0x01] ++
    (Eip712.domainSeparator "Canon" "1" record.chainId 0
      record.self).toBytes ++
    (keccak256 record.structPreimage).toBytes

theorem wrapDigest_eq (record : BridgeMigration) :
    record.wrapDigest = keccak256 record.wrapPreimage := rfl

theorem structPreimage_inj {first second : BridgeMigration}
    (hfirst : first.graceWindowBlocks < 2 ^ 256) (hsecond : second.graceWindowBlocks < 2 ^ 256)
    (hpreimage : first.structPreimage = second.structPreimage) :
    first.predecessorDeploymentId = second.predecessorDeploymentId ∧
      first.successorDeploymentId = second.successorDeploymentId ∧
      first.migrationStateRoot = second.migrationStateRoot ∧
      first.migrationStateRootLogIdx = second.migrationStateRootLogIdx ∧
      first.graceWindowBlocks = second.graceWindowBlocks := by
  obtain ⟨hrest, hgrace⟩ := append_inj' hpreimage (by simp [abiWord])
  obtain ⟨hrest, hindex⟩ := append_inj' hrest (by simp [abiWord])
  obtain ⟨hrest, hroot⟩ := append_inj' hrest (by simp)
  obtain ⟨hrest, hsuccessor⟩ := append_inj' hrest (by simp)
  obtain ⟨_, hpredecessor⟩ := append_inj' hrest (by simp)
  refine ⟨Bytes32.toBytes_injective hpredecessor,
    Bytes32.toBytes_injective hsuccessor, Bytes32.toBytes_injective hroot, ?_, ?_⟩
  · apply UInt64.toNat_inj.mp
    apply beBytes_injective_of_lt _ _ hindex
    · exact lt_trans first.migrationStateRootLogIdx.toNat_lt (by norm_num)
    · exact lt_trans second.migrationStateRootLogIdx.toNat_lt (by norm_num)
  · apply beBytes_injective_of_lt _ _ hgrace
    · exact lt_of_lt_of_eq hfirst (by norm_num)
    · exact lt_of_lt_of_eq hsecond (by norm_num)

variable {recover : Recover} {chainId : ℕ} {self : Address} {construction : Construction}
  {attestorSig : Bytes}

theorem Construction.run_effect {record : BridgeMigration}
    (hrun : construction.run recover chainId self attestorSig = .ok record) :
    record.predecessor = construction.predecessor.address ∧
      record.successor = construction.successor.address ∧
      record.predecessorDeploymentId = construction.predecessor.deploymentId ∧
      record.successorDeploymentId = construction.successor.deploymentId ∧
      record.graceWindowBlocks = construction.graceWindowBlocks ∧
      recover record.wrapDigest attestorSig = some record.migrationAttestor := by
  unfold Construction.run at hrun
  split at hrun
  · cases hrun
  split at hrun
  · cases hrun
  split at hrun
  · cases hrun
  split at hrun
  · cases hrun
  split at hrun
  · cases hrun
  split at hrun
  · cases hrun
  dsimp only at hrun
  split at hrun
  · cases hrun
  split at hrun
  · cases hrun
  · rename_i recovered hrecovered
    split at hrun
    · cases hrun
    · rename_i hattestor
      rw [not_not] at hattestor
      cases hrun
      exact ⟨rfl, rfl, rfl, rfl, rfl, hattestor ▸ hrecovered⟩

theorem deploymentId_inj {first second : Bridge.BridgeParams} (hfree : NoCollision
      (abiWord first.chainId ++ abiAddress first.self ++ first.canonVersionTag.toBytes)
      (abiWord second.chainId ++ abiAddress second.self ++ second.canonVersionTag.toBytes))
    (hid : first.deploymentId = second.deploymentId) :
    first.self = second.self := by
  have hpreimage := hfree hid
  obtain ⟨hrest, _⟩ := append_inj' hpreimage (by simp)
  obtain ⟨_, haddress⟩ := append_inj' hrest (by
    simp [abiAddress, abiWord])
  apply BitVec.eq_of_toNat_eq
  apply beBytes_injective_of_lt _ _ haddress
  · exact lt_trans first.self.isLt (by norm_num)
  · exact lt_trans second.self.isLt (by norm_num)

/-! ## Two constructions with one signature -/

/-- The pinned fields which the record of a migration consists of. -/
def SamePins (first second : BridgeMigration) : Prop :=
  first.predecessor = second.predecessor ∧
    first.successor = second.successor ∧
    first.migrationStateRoot = second.migrationStateRoot ∧
    first.migrationStateRootLogIdx = second.migrationStateRootLogIdx ∧
    first.graceWindowBlocks = second.graceWindowBlocks

/-- Two constructions at one address with one attestor and one signature pin
the same root, log index and grace period and were told the same deployment
ids.  They pin the same record exactly when they were given the same two
addresses, which is the case when all four contracts are genuine bridges. -/
theorem migration_signature_pins_iff {recover : Recover} {chainId : ℕ} {self : Address}
    {attestorSig : Bytes} {one other : Construction} {first second : BridgeMigration}
    (hone : one.run recover chainId self attestorSig = .ok first)
    (hother : other.run recover chainId self attestorSig = .ok second)
    (hattestor : first.migrationAttestor = second.migrationAttestor)
    (hsigned : ∀ digest another, recover digest attestorSig = some first.migrationAttestor →
        recover another attestorSig = some first.migrationAttestor → digest = another)
    (hwrap : NoCollision first.wrapPreimage second.wrapPreimage)
    (hstruct : NoCollision first.structPreimage second.structPreimage) :
    (first.migrationStateRoot = second.migrationStateRoot ∧
      first.migrationStateRootLogIdx = second.migrationStateRootLogIdx ∧
      first.graceWindowBlocks = second.graceWindowBlocks ∧
      one.predecessor.deploymentId = other.predecessor.deploymentId ∧
      one.successor.deploymentId = other.successor.deploymentId) ∧
    (SamePins first second ↔
      one.predecessor.address = other.predecessor.address ∧
        one.successor.address = other.successor.address) ∧
    (∀ oldBridge otherOldBridge newBridge otherNewBridge, one.predecessor = .ofBridge oldBridge →
        other.predecessor = .ofBridge otherOldBridge → one.successor = .ofBridge newBridge →
        other.successor = .ofBridge otherNewBridge →
        NoCollision
          (abiWord oldBridge.chainId ++ abiAddress oldBridge.self ++
            oldBridge.canonVersionTag.toBytes)
          (abiWord otherOldBridge.chainId ++ abiAddress otherOldBridge.self ++
            otherOldBridge.canonVersionTag.toBytes) →
        NoCollision
          (abiWord newBridge.chainId ++ abiAddress newBridge.self ++
            newBridge.canonVersionTag.toBytes)
          (abiWord otherNewBridge.chainId ++ abiAddress otherNewBridge.self ++
            otherNewBridge.canonVersionTag.toBytes) → SamePins first second) := by
  obtain ⟨hpre, hsuc, hpreId, hsucId, hgrace, hrecover⟩ := Construction.run_effect hone
  obtain ⟨hpre', hsuc', hpreId', hsucId', hgrace', hrecover'⟩ := Construction.run_effect hother
  rw [← hattestor] at hrecover'
  have hdigest := hsigned _ _ hrecover hrecover'
  obtain ⟨_, hhash⟩ := append_inj' (hwrap hdigest) (by simp)
  obtain ⟨hids, hids', hroot, hindex, hwindow⟩ := structPreimage_inj
    (hgrace ▸ one.grace_lt) (hgrace' ▸ other.grace_lt) (hstruct (Bytes32.toBytes_injective hhash))
  have hpins : SamePins first second ↔
      one.predecessor.address = other.predecessor.address ∧
        one.successor.address = other.successor.address := by
    rw [← hpre, ← hpre', ← hsuc, ← hsuc']
    exact ⟨fun h => ⟨h.1, h.2.1⟩, fun h => ⟨h.1, h.2, hroot, hindex, hwindow⟩⟩
  rw [hpreId, hpreId'] at hids
  rw [hsucId, hsucId'] at hids'
  refine ⟨⟨hroot, hindex, hwindow, hids, hids'⟩, hpins, ?_⟩
  intro oldBridge otherOldBridge newBridge otherNewBridge hold hold' hnew hnew' hfree hfree'
  rw [hold, hold'] at hids
  rw [hnew, hnew'] at hids'
  apply hpins.mpr
  rw [hold, hold', hnew, hnew']
  exact ⟨deploymentId_inj hfree hids, deploymentId_inj hfree' hids'⟩

/-! ## One signature and two successors -/

structure Construction.Admitted (construction : Construction)
    (migrationAddress : Address) : Prop where
  predecessor_ne_zero : construction.predecessor.address ≠ 0
  successor_ne_zero : construction.successor.address ≠ 0
  distinct : construction.predecessor.address ≠ construction.successor.address
  grace_le : minGraceWindowBlocks ≤ construction.graceWindowBlocks
  deploymentId_ne : construction.predecessor.deploymentId ≠ construction.successor.deploymentId
  references : construction.predecessor.migration = migrationAddress
  attestor_ne_zero : construction.predecessor.attestor ≠ 0

def Construction.record {self : Address} (construction : Construction)
    (chainId : ℕ) (hadmitted : construction.Admitted self) : BridgeMigration where
  predecessor := construction.predecessor.address
  successor := construction.successor.address
  predecessorDeploymentId := construction.predecessor.deploymentId
  successorDeploymentId := construction.successor.deploymentId
  migrationAttestor := construction.predecessor.attestor
  proposedAtBlock := construction.blockNumber
  graceWindowBlocks := construction.graceWindowBlocks
  migrationStateRoot := construction.migrationStateRoot
  migrationStateRootLogIdx := construction.migrationStateRootLogIdx
  chainId := chainId
  self := self
  predecessor_ne_successor := hadmitted.distinct
  grace_le := hadmitted.grace_le
  deploymentId_ne := hadmitted.deploymentId_ne
  attestor_ne_zero := hadmitted.attestor_ne_zero

theorem Construction.run_of_signed (hadmitted : construction.Admitted self)
    (hlength : attestorSig.length = 65)
    (hsigned : recover (construction.record chainId hadmitted).wrapDigest
      attestorSig = some construction.predecessor.attestor) :
    construction.run recover chainId self attestorSig =
      .ok (construction.record chainId hadmitted) := by
  unfold Construction.run
  rw [if_neg (not_or.mpr ⟨hadmitted.predecessor_ne_zero, hadmitted.successor_ne_zero⟩),
    dif_neg hadmitted.distinct, dif_neg (Nat.not_lt.mpr hadmitted.grace_le),
    dif_neg hadmitted.deploymentId_ne, if_neg (not_not.mpr hadmitted.references),
    dif_neg hadmitted.attestor_ne_zero]
  rw [if_neg (not_not.mpr hlength)]
  unfold Construction.record at hsigned ⊢
  rw [hsigned]
  exact if_neg (not_not.mpr rfl)

def retiringBridge : ReportedBridge where
  address := 0xB1D
  deploymentId := Bridge.sampleBridge.deploymentId
  migration := 0x316
  attestor := 0xA77

def constructionTo (successor : Address) (blockNumber : ℕ) : Construction where
  blockNumber := blockNumber
  predecessor := retiringBridge
  successor := ⟨successor, .zero, 0, 0⟩
  graceWindowBlocks := 216000
  migrationStateRoot := .zero
  migrationStateRootLogIdx := 7
  grace_lt := by norm_num

theorem constructionTo_admitted {successor : Address} (blockNumber : ℕ) (hzero : successor ≠ 0)
    (hpredecessor : 0xB1D ≠ successor) : (constructionTo successor blockNumber).Admitted 0x316 where
  predecessor_ne_zero := by
    change retiringBridge.address ≠ 0
    decide
  successor_ne_zero := hzero
  distinct := hpredecessor
  grace_le := Nat.le_refl _
  deploymentId_ne := by
    change Bridge.sampleBridge.deploymentId ≠ .zero
    decide +kernel
  references := rfl
  attestor_ne_zero := by
    change retiringBridge.attestor ≠ 0
    decide

def signedOnly (signed : Bytes32) : Recover := fun digest _ =>
  if digest = signed then some 0xA77 else none

theorem signedOnly_single (signed : Bytes32) (attestorSig : Bytes) (attestor : Address) :
    ∀ digest another, signedOnly signed digest attestorSig = some attestor →
      signedOnly signed another attestorSig = some attestor → digest = another := by
  intro digest another hdigest hanother
  simp only [signedOnly, Option.ite_none_right_eq_some] at hdigest hanother
  exact hdigest.1.trans hanother.1.symm

theorem constructionTo_signed {successor other : Address} {blockNumber otherBlock : ℕ}
    (hone : (constructionTo successor blockNumber).Admitted 0x316)
    (hother : (constructionTo other otherBlock).Admitted 0x316) :
    (constructionTo other otherBlock).run
        (signedOnly ((constructionTo successor blockNumber).record 1 hone).wrapDigest) 1 0x316
        (List.replicate 65 0) = .ok ((constructionTo other otherBlock).record 1 hother) := by
  apply Construction.run_of_signed hother length_replicate
  exact if_pos rfl

/-- With one signature the migration is constructed towards two different
successors, which report the same deployment id. -/
theorem oneSignature_two_successors :
    ∃ (recover : Recover) (attestorSig : Bytes) (one other : Construction)
      (first second : BridgeMigration), one.run recover 1 0x316 attestorSig = .ok first ∧
        other.run recover 1 0x316 attestorSig = .ok second ∧
        first.migrationAttestor = second.migrationAttestor ∧
        (∀ digest another, recover digest attestorSig = some first.migrationAttestor →
            recover another attestorSig = some first.migrationAttestor → digest = another) ∧
        NoCollision first.wrapPreimage second.wrapPreimage ∧
        NoCollision first.structPreimage second.structPreimage ∧
        ¬ SamePins first second := by
  have hone := @constructionTo_admitted 0xB2D 100 (by decide) (by decide)
  have hother := @constructionTo_admitted 0xBAD 100 (by decide) (by decide)
  have hfirst := constructionTo_signed hone hone
  have hsecond := constructionTo_signed hone hother
  refine ⟨_, _, _, _, _, _, hfirst, hsecond, rfl, signedOnly_single _ _ _,
    NoCollision.refl _, NoCollision.refl _, ?_⟩
  intro hpins
  have hsame : (0xB2D : Address) = 0xBAD := hpins.2.1
  exact absurd hsame (by decide)

theorem oneSignature_one_successor :
    ∃ (recover : Recover) (first second : BridgeMigration),
      (constructionTo 0xB2D 100).run recover 1 0x316 (List.replicate 65 0) = .ok first ∧
        (constructionTo 0xB2D 150).run recover 1 0x316 (List.replicate 65 0) = .ok second ∧
        SamePins first second := by
  have hone := @constructionTo_admitted 0xB2D 100 (by decide) (by decide)
  have hother := @constructionTo_admitted 0xB2D 150 (by decide) (by decide)
  have hfirst := constructionTo_signed hone hone
  have hsecond := constructionTo_signed hone hother
  refine ⟨_, _, _, hfirst, hsecond, ?_⟩
  exact (migration_signature_pins_iff hfirst hsecond rfl
    (signedOnly_single _ _ _) (NoCollision.refl _) (NoCollision.refl _)).2.1.mpr ⟨rfl, rfl⟩

end Migration
end Canon
