import Canon.DisputeVerifier
import Canon.MigrationHandoff

/-!
# Dispute verifier, stake, bridge and migration together

The system in which the first dispute verifier works: the stake it slashes, the
bridge it rolls back, and the migration contract it was constructed with.  A
step is one call of an account to one of the contracts.  The bridge's ledger
holds the block number of the whole system.
-/

namespace Canon
namespace Dispute

open Migration

/-- The contracts of a deployment, with the migration to which the verifier is
committed. -/
structure MigratingDeployment where
  base : Deployment
  handoff : Handoff
  committed : base.verifier.migration = handoff.self

structure SystemState where
  disputes : State
  activation : Activation

def SystemState.initial (blockNumber : ℕ) : SystemState where
  disputes := {
    disputes := fun _ => .unset
    nextDisputeId := 0
    escrow := .initial 0
    ledger := .initial blockNumber }
  activation := .initial

inductive DisputeCall where
  | fileDispute (sender : Address) (impugnedLogIndex : UInt64)
      (claimVariant : UInt8) (evidenceBlob : Bytes)
  | finalizeUpheld (identities : Identities) (disputeId : UInt64)
      (reEvidenceBlob : Bytes) (signerHint : Address) (signers : List Address) (sigs : List Bytes)
      (challengerAccepts burnAccepts : Bool)
  | finalizeRejected (identities : Identities) (disputeId : UInt64)
      (reEvidenceBlob : Bytes) (signerHint : Address) (signers : List Address) (sigs : List Bytes)

def disputeStep (recover : Recover) (deployment : Deployment)
    (state : State) : DisputeCall → Except VerifierError State
  | .fileDispute sender impugnedLogIndex claimVariant evidenceBlob => do
      let (_, next) ← fileDispute sender state impugnedLogIndex claimVariant evidenceBlob
      return next
  | .finalizeUpheld identities disputeId reEvidenceBlob signerHint signers
      sigs challengerAccepts burnAccepts =>
    finalizeUpheld recover deployment identities state disputeId
      reEvidenceBlob signerHint signers sigs challengerAccepts burnAccepts
  | .finalizeRejected identities disputeId reEvidenceBlob signerHint signers sigs =>
    finalizeRejected recover deployment identities state disputeId
      reEvidenceBlob signerHint signers sigs

/-- One call of an account.  Calls of the verifier to the stake and to the
bridge are part of its own functions. -/
inductive SystemCall where
  | dispute (call : DisputeCall)
  | bridge (call : Bridge.BridgeCall)
  | depositStake (sender : Address) (value : ℕ)
  | withdrawStake (sender : Address) (amount : ℕ) (accepted : Bool)
  | slashStake (sender : Address) (disputeId : UInt64) (challenger : Address)
      (challengerAccepts burnAccepts : Bool)
  | forceEther (amount : ℕ)
  | activate

/-- `verifierIsNoAccount` is not an error of the contracts: the verifier's
address sends nothing outside the verifier's functions. -/
inductive SystemError where
  | verifier (error : VerifierError)
  | bridge (error : Bridge.BridgeError)
  | stake (error : Stake.StakeError)
  | migration (error : MigrationError)
  | verifierIsNoAccount
  deriving DecidableEq, Repr

def rollbackBy (account : Address) : Bridge.BridgeCall → Bool
  | .revertToPriorRoot sender _ _ => sender = account
  | _ => false

/-- The call with the flag of the migration as the bridge reads it. -/
def readMigration (activated : Bool) : Bridge.BridgeCall → Bridge.BridgeCall
  | .depositETH sender value _ => .depositETH sender value activated
  | .depositERC20 sender value _ resourceId token amount received =>
    .depositERC20 sender value activated resourceId token amount received
  | .submitStateRoot value _ root logIndexHigh attestorSig =>
    .submitStateRoot value activated root logIndexHigh attestorSig
  | call => call

section Steps

variable (recover : Recover) (deployment : MigratingDeployment) (state : SystemState)

def stakeCall (call : Stake.StakeCall) : Except SystemError SystemState := do
  let escrow ← (Stake.stakeStep deployment.base.stake deployment.base.bridge
    state.disputes.escrow call).mapError .stake
  return { state with disputes := { state.disputes with escrow := escrow } }

def bridgeCall (call : Bridge.BridgeCall) : Except SystemError SystemState := do
  let ledger ← (Bridge.bridgeStep recover deployment.base.bridge state.disputes.ledger
    (if deployment.base.bridge.migration = deployment.handoff.self then
      readMigration state.activation.activated call
    else call)).mapError .bridge
  return { state with disputes := { state.disputes with ledger := ledger } }

def systemStep : SystemCall → Except SystemError SystemState
  | .dispute call => do
      let disputes ← (disputeStep recover deployment.base state.disputes call).mapError .verifier
      return { state with disputes := disputes }
  | .bridge call => do
      revertIf (rollbackBy deployment.base.verifier.self call = true) .verifierIsNoAccount
      bridgeCall recover deployment state call
  | .depositStake sender value =>
    stakeCall deployment state (.deposit sender value)
  | .withdrawStake sender amount accepted =>
    stakeCall deployment state (.withdraw sender state.disputes.ledger amount accepted)
  | .slashStake sender disputeId challenger challengerAccepts burnAccepts => do
      revertIf (sender = deployment.base.verifier.self) .verifierIsNoAccount
      stakeCall deployment state (.slash sender disputeId challenger challengerAccepts burnAccepts)
  | .forceEther amount => stakeCall deployment state (.forcedEther amount)
  | .activate => do
      let activation ← (deployment.handoff.activate
        state.disputes.ledger.blockNumber state.activation).mapError .migration
      return { state with activation := activation }

end Steps

/-! ## What a step does to each contract -/

section Effects

variable {recover : Recover} {deployment : MigratingDeployment} {state next : SystemState}

theorem stakeCall_effect {call : Stake.StakeCall}
    (hcall : stakeCall deployment state call = .ok next) :
    ∃ escrow, Stake.stakeStep deployment.base.stake deployment.base.bridge
        state.disputes.escrow call = .ok escrow ∧
      next = { state with
        disputes := { state.disputes with escrow := escrow } } := by
  simp only [stakeCall, bind_eq_ok, mapError_eq_ok, pure_eq_ok] at hcall
  obtain ⟨escrow, hstake, hnext⟩ := hcall
  exact ⟨escrow, hstake, hnext.symm⟩

theorem bridgeCall_effect {call : Bridge.BridgeCall}
    (hcall : bridgeCall recover deployment state call = .ok next) :
    ∃ ledger read, Bridge.bridgeStep recover deployment.base.bridge
        state.disputes.ledger read = .ok ledger ∧
      next = { state with
        disputes := { state.disputes with ledger := ledger } } := by
  simp only [bridgeCall, bind_eq_ok, mapError_eq_ok, pure_eq_ok] at hcall
  obtain ⟨ledger, hbridge, hnext⟩ := hcall
  exact ⟨ledger, _, hbridge, hnext.symm⟩

theorem fileDispute_effect {sender : Address} {current after : State} {impugnedLogIndex : UInt64}
    {claimVariant : UInt8} {evidenceBlob : Bytes} {disputeId : UInt64}
    (hcall : fileDispute sender current impugnedLogIndex claimVariant
      evidenceBlob = .ok (disputeId, after)) :
    disputeId = current.nextDisputeId ∧
      after.escrow = current.escrow ∧ after.ledger = current.ledger := by
  simp only [fileDispute, bind_eq_ok, revertIf_eq_ok, exists_const,
    pure_eq_ok, Prod.mk.injEq] at hcall
  obtain ⟨_, _, nextDisputeId, _, hid, hafter⟩ := hcall
  subst hafter
  exact ⟨hid.symm, rfl, rfl⟩

theorem systemStep_escrow {call : SystemCall}
    (hstep : systemStep recover deployment state call = .ok next) :
    (∃ request, Stake.stakeStep deployment.base.stake deployment.base.bridge
        state.disputes.escrow request = .ok next.disputes.escrow ∧
        ((∃ sender value, call = .depositStake sender value ∧ request = .deposit sender value) ∨
          (∃ sender amount accepted, call = .withdrawStake sender amount accepted ∧
              request = .withdraw sender state.disputes.ledger amount accepted) ∨
          (∃ sender disputeId challenger challengerAccepts burnAccepts,
            call = .slashStake sender disputeId challenger challengerAccepts burnAccepts ∧
              sender ≠ deployment.base.verifier.self ∧
              request = .slash sender disputeId challenger challengerAccepts burnAccepts) ∨
          (∃ amount, call = .forceEther amount ∧ request = .forcedEther amount))) ∨
      (∃ identities disputeId reEvidenceBlob signerHint signers sigs challengerAccepts burnAccepts,
        call = .dispute (.finalizeUpheld identities disputeId reEvidenceBlob
          signerHint signers sigs challengerAccepts burnAccepts) ∧
        Upheld recover deployment.base identities state.disputes
          next.disputes disputeId reEvidenceBlob signerHint) ∨
      next.disputes.escrow = state.disputes.escrow := by
  cases call with
  | dispute call =>
    simp only [systemStep, bind_eq_ok, mapError_eq_ok, pure_eq_ok] at hstep
    obtain ⟨disputes, hcall, hnext⟩ := hstep
    subst hnext
    cases call with
    | fileDispute =>
      simp only [disputeStep, bind_eq_ok, Prod.exists, pure_eq_ok] at hcall
      obtain ⟨disputeId, after, hfile, hafter⟩ := hcall
      subst hafter
      exact .inr (.inr (fileDispute_effect hfile).2.1)
    | finalizeUpheld identities disputeId reEvidenceBlob signerHint signers
        sigs challengerAccepts burnAccepts =>
      exact .inr (.inl ⟨identities, disputeId, reEvidenceBlob,
        signerHint, signers, sigs, challengerAccepts, burnAccepts, rfl,
        finalizeUpheld_effect hcall⟩)
    | finalizeRejected =>
      simp only [disputeStep, finalizeRejected, bind_eq_ok, pure_eq_ok] at hcall
      obtain ⟨_, _, hnext⟩ := hcall
      subst hnext
      exact .inr (.inr rfl)
  | bridge =>
    simp only [systemStep, bind_eq_ok, revertIf_eq_ok, exists_const] at hstep
    obtain ⟨ledger, read, _, hnext⟩ := bridgeCall_effect hstep.2
    subst hnext
    exact .inr (.inr rfl)
  | depositStake sender value =>
    obtain ⟨escrow, hstake, hnext⟩ := stakeCall_effect hstep
    subst hnext
    exact .inl ⟨_, hstake, .inl ⟨sender, value, rfl, rfl⟩⟩
  | withdrawStake sender amount accepted =>
    obtain ⟨escrow, hstake, hnext⟩ := stakeCall_effect hstep
    subst hnext
    exact .inl ⟨_, hstake, .inr (.inl ⟨sender, amount, accepted, rfl, rfl⟩)⟩
  | slashStake sender disputeId challenger challengerAccepts burnAccepts =>
    simp only [systemStep, bind_eq_ok, revertIf_eq_ok, exists_const] at hstep
    obtain ⟨escrow, hstake, hnext⟩ := stakeCall_effect hstep.2
    subst hnext
    exact .inl ⟨_, hstake, .inr (.inr (.inl ⟨sender, disputeId,
      challenger, challengerAccepts, burnAccepts, rfl, hstep.1, rfl⟩))⟩
  | forceEther amount =>
    obtain ⟨escrow, hstake, hnext⟩ := stakeCall_effect hstep
    subst hnext
    exact .inl ⟨_, hstake, .inr (.inr (.inr ⟨amount, rfl, rfl⟩))⟩
  | activate =>
    simp only [systemStep, bind_eq_ok, mapError_eq_ok, pure_eq_ok] at hstep
    obtain ⟨activation, _, hnext⟩ := hstep
    subst hnext
    exact .inr (.inr rfl)

theorem solvent_of_reachable {blockNumber : ℕ}
    (hreach : Reachable (systemStep recover deployment) (SystemState.initial blockNumber) state) :
    Stake.Solvent state.disputes.escrow := by
  refine @Reachable.invariant _ _ _ _
    (fun current => Stake.Solvent current.disputes.escrow) ?_ _ _ hreach (Nat.zero_le _)
  intro before call after hstep hsolvent
  rcases systemStep_escrow hstep with
    ⟨request, hstake, _⟩ | ⟨_, _, _, _, _, _, _, _, _, hupheld⟩ | hsame
  · exact Stake.stakeStep_solvent hsolvent hstake
  · unfold Stake.Solvent
    rw [hupheld.slashed.emptied]
    exact Nat.zero_le _
  · rw [hsame]
    exact hsolvent

end Effects

end Dispute
end Canon
