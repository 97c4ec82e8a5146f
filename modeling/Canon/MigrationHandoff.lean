import Canon.BridgeLedger

/-!
# The migration contracts

There are two migration contracts: one between two bridges, attested by the
predecessor's attestor, and one between two dispute verifiers.  Both are immutable apart
from a flag which anybody may set once, after a grace window.

What the constructors read from other contracts is an argument: the immutables
of the two bridges, the predecessor's `migration` getter (`none` when the call
reverts), and whether the successor has code.
-/

namespace Canon
namespace Migration

def minGraceWindowBlocks : ℕ := 216000

inductive MigrationError where
  | zeroAddress
  | selfMigration
  | graceTooShort
  | sameDeploymentId
  | predecessorDoesNotReferenceThisMigration
  | attestationInvalid
  | alreadyActivated
  | graceNotElapsed
  | invalidSignatureLength
  | signatureMalformed
  | predecessorEqualsSuccessor
  | successorNotContract
  | notYetActivatable
  | arithmeticPanic
  deriving DecidableEq, Repr

structure Activation where
  activated : Bool
  activatedAtBlock : ℕ
  deriving DecidableEq

def Activation.initial : Activation := ⟨false, 0⟩

/-! ## Between two bridges -/

structure BridgeMigration where
  predecessor : Address
  successor : Address
  predecessorDeploymentId : Bytes32
  successorDeploymentId : Bytes32
  migrationAttestor : Address
  proposedAtBlock : ℕ
  graceWindowBlocks : ℕ
  migrationStateRoot : Bytes32
  migrationStateRootLogIdx : UInt64
  chainId : ℕ
  self : Address
  predecessor_ne_successor : predecessor ≠ successor
  grace_le : minGraceWindowBlocks ≤ graceWindowBlocks
  deploymentId_ne : predecessorDeploymentId ≠ successorDeploymentId
  attestor_ne_zero : migrationAttestor ≠ 0

def BridgeMigration.wrapDigest (record : BridgeMigration) : Bytes32 := Eip712.digest
    (Eip712.domainSeparator "Canon" "1" record.chainId 0 record.self)
    (Eip712.migrationStructHash record.predecessorDeploymentId
      record.successorDeploymentId record.migrationStateRoot
      record.migrationStateRootLogIdx record.graceWindowBlocks)

def BridgeMigration.activate (record : BridgeMigration) (blockNumber : ℕ)
    (activation : Activation) : Except MigrationError Activation := do
  revertIf (activation.activated = true) .alreadyActivated
  let earliest ← checkedAdd 256 .arithmeticPanic record.proposedAtBlock record.graceWindowBlocks
  revertIf (blockNumber < earliest) .graceNotElapsed
  return ⟨true, blockNumber⟩

/-! ## Between two dispute verifiers -/

structure FaultProofMigration where
  graceWindowBlocks : UInt64
  deployedAtBlock : UInt64
  earliestActivationBlock : UInt64
  predecessor : Address
  successor : Address
  self : Address
  predecessor_ne_successor : predecessor ≠ successor
  grace_le : minGraceWindowBlocks ≤ graceWindowBlocks.toNat
  earliest_eq : earliestActivationBlock.toNat = deployedAtBlock.toNat + graceWindowBlocks.toNat

def FaultProofMigration.deploy (self : Address) (blockNumber : ℕ)
    (graceWindowBlocks : UInt64) (predecessor successor : Address)
    (successorHasCode : Bool) (predecessorTarget : Option Address) :
    Except MigrationError FaultProofMigration :=
  if predecessor = 0 then .error .zeroAddress
  else if successor = 0 then .error .zeroAddress
  else if hdistinct : predecessor = successor then
    .error .predecessorEqualsSuccessor
  else if successorHasCode = false then .error .successorNotContract
  else if hgrace : graceWindowBlocks.toNat < minGraceWindowBlocks then
    .error .graceTooShort
  else if predecessorTarget ≠ some self then
    .error .predecessorDoesNotReferenceThisMigration
  else if hsum : (UInt64.ofNat blockNumber).toNat + graceWindowBlocks.toNat < 2 ^ 64 then
    .ok {
      graceWindowBlocks := graceWindowBlocks
      deployedAtBlock := UInt64.ofNat blockNumber
      earliestActivationBlock := UInt64.ofNat blockNumber + graceWindowBlocks
      predecessor := predecessor
      successor := successor
      self := self
      predecessor_ne_successor := hdistinct
      grace_le := Nat.not_lt.mp hgrace
      earliest_eq := by
        exact Nat.mod_eq_of_lt hsum }
  else .error .arithmeticPanic

def FaultProofMigration.activate (record : FaultProofMigration)
    (blockNumber : ℕ) (activation : Activation) : Except MigrationError Activation := do
  revertIf (activation.activated = true) .alreadyActivated
  revertIf (blockNumber < record.earliestActivationBlock.toNat) .notYetActivatable
  return ⟨true, (UInt64.ofNat blockNumber).toNat⟩

/-! ## Either of them -/

inductive Handoff where
  | bridges (record : BridgeMigration)
  | verifiers (record : FaultProofMigration)

def Handoff.self : Handoff → Address
  | .bridges record => record.self
  | .verifiers record => record.self

def Handoff.activate (blockNumber : ℕ) (activation : Activation) :
    Handoff → Except MigrationError Activation
  | .bridges record => record.activate blockNumber activation
  | .verifiers record => record.activate blockNumber activation

end Migration
end Canon
