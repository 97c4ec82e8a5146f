import Canon.DisputeReplayEvidence
import Canon.DisputeSystem

/-!
# Disputes after a migration

Activating the migration is meant to freeze the predecessor's disputes.  The
verifier does not ask the migration, so an activated migration refuses nothing.
-/

namespace Canon
namespace Dispute

open Migration

section Checks

variable {recover : Recover} {deployment : Deployment} {state : State} {identities : Identities}
  {disputeId : UInt64} {reEvidenceBlob : Bytes} {signerHint : Address} {signers : List Address}
  {sigs : List Bytes}

end Checks

def sampleHandoff : FaultProofMigration where
  graceWindowBlocks := 216000
  deployedAtBlock := 100
  earliestActivationBlock := 216100
  predecessor := Bridge.sampleBridge.disputeVerifier
  successor := 0xD16
  self := 0x316
  predecessor_ne_successor := by decide
  grace_le := by decide
  earliest_eq := by decide

example : FaultProofMigration.deploy 0x316 100 216000
    Bridge.sampleBridge.disputeVerifier 0xD16 true (some 0x316) = .ok sampleHandoff := by
  rfl

def migratingSample : MigratingDeployment where
  base := { sampleDeployment with
    verifier := { sampleVerifier with migration := 0x316 } }
  handoff := .verifiers sampleHandoff
  committed := rfl

/-- The evidence of a repeated entry, with the adjudicator's signature. -/
def upheldAfterActivation : DisputeCall := .finalizeUpheld noIdentities 0
    (encodeDoubleApply 1 (sampleEntry 0).encode (sampleEntry 0).encode) 0
    [0xAD1] [adjudicatorSignature] true true

end Dispute
end Canon
