import Canon.FaultProofSettlement
import Canon.Eip712Digests

/-!
# The second dispute verifier

After the migration a dispute is decided either by a quorum of adjudicators or
by the fault-proof game.  In the second case the verifier passes the rollback
on to the submission contract, in a call of its own.

The submission contract is called by address and without an interface.  What
happens at an address which is not the submission contract is an argument.
-/

namespace Canon
namespace DisputeV2

open StateRoots

inductive VerifierError where
  | zeroAddress
  | notFaultProofGame
  | unknownDispute
  | alreadyDecided
  | insufficientQuorum (verified : ℕ) (threshold : UInt8)
  | tooManySigners (supplied maxAllowed : ℕ)
  | signerSignatureCountMismatch
  | bridgeRevertFailed
  | quorumThresholdZero
  | quorumThresholdAboveSetSize
  | nonPayable
  | reentrantCall
  | arithmeticPanic
  deriving DecidableEq, Repr

structure VerifierParams where
  faultProofGame : Address
  stateRootSubmission : Address
  approvedAdjudicators : List Address
  quorumThreshold : UInt8
  bridge : Address
  deploymentId : Bytes32
  self : Address
  faultProofGame_ne_zero : faultProofGame ≠ 0
  stateRootSubmission_ne_zero : stateRootSubmission ≠ 0
  bridge_ne_zero : bridge ≠ 0
  quorumThreshold_ne_zero : quorumThreshold ≠ 0
  quorumThreshold_le : quorumThreshold.toNat ≤ approvedAdjudicators.length

/-- The constructor.  An adjudicator listed twice counts twice in the length
which bounds the threshold. -/
def VerifierParams.deploy (self faultProofGame stateRootSubmission : Address)
    (approvedAdjudicators : List Address) (quorumThreshold : UInt8)
    (bridge : Address) (deploymentId : Bytes32) : Except VerifierError VerifierParams :=
  if hgame : faultProofGame = 0 then .error .zeroAddress
  else if hsubmission : stateRootSubmission = 0 then .error .zeroAddress
  else if hbridge : bridge = 0 then .error .zeroAddress
  else if hthreshold : quorumThreshold = 0 then .error .quorumThresholdZero
  else if hsize : approvedAdjudicators.length < quorumThreshold.toNat then
    .error .quorumThresholdAboveSetSize
  else .ok {
    faultProofGame := faultProofGame
    stateRootSubmission := stateRootSubmission
    approvedAdjudicators := approvedAdjudicators
    quorumThreshold := quorumThreshold
    bridge := bridge
    deploymentId := deploymentId
    self := self
    faultProofGame_ne_zero := hgame
    stateRootSubmission_ne_zero := hsubmission
    bridge_ne_zero := hbridge
    quorumThreshold_ne_zero := hthreshold
    quorumThreshold_le := Nat.not_lt.mp hsize }

def VerifierParams.isApprovedAdjudicator (params : VerifierParams) (account : Address) : Bool :=
  params.approvedAdjudicators.any fun adjudicator => adjudicator = account

def maxVerdictSigners : ℕ := 64

def verdictUpheld : UInt8 := 1

def verdictRejected : UInt8 := 2

inductive DisputeStatusV2 where
  | «open»
  | upheldByFaultProof
  | upheldByQuorum
  | rejected
  | inconclusive
  deriving DecidableEq, Repr

structure DisputeRecord where
  status : DisputeStatusV2
  filer : Address
  disputeHash : Bytes32
  filedAtBlock : UInt64
  deriving DecidableEq

def DisputeRecord.unset : DisputeRecord := ⟨.open, 0, .zero, 0⟩

structure Storage where
  disputes : ℕ → DisputeRecord
  nextDisputeId : ℕ

def Storage.IsOpen (storage : Storage) (disputeId : ℕ) : Prop :=
  0 < disputeId ∧ disputeId ≤ storage.nextDisputeId ∧ (storage.disputes disputeId).status = .open

def Storage.decide (storage : Storage) (disputeId : ℕ) (status : DisputeStatusV2) : Storage :=
  { storage with
    disputes := Function.update storage.disputes disputeId
      { storage.disputes disputeId with status := status } }

/-- The three contracts at their addresses.  Nothing is assumed about the
addresses which they hold of each other. -/
structure Wiring where
  game : FaultProof.GameParams
  submission : SubmissionParams
  submissionSelf : Address
  verifier : VerifierParams

structure State where
  verifier : Storage
  contracts : FaultProof.State

def State.initial (blockNumber : ℕ) : State where
  verifier := { disputes := fun _ => .unset, nextDisputeId := 0 }
  contracts := .initial blockNumber

/-- A call of the verifier: who makes it, and which of the reentrancy guards
are held. -/
structure VerifierContext where
  sender : Address
  value : ℕ
  verifierEntered : Bool
  submissionEntered : Bool

section Functions

variable (recover : Recover) (wiring : Wiring) (context : VerifierContext) (state : State)

def fileDispute (disputeHash : Bytes32) : Except VerifierError State := do
  revertIf (context.value ≠ 0) .nonPayable
  let id ← checkedAdd 256 .arithmeticPanic state.verifier.nextDisputeId 1
  return { state with
    verifier := {
      disputes := Function.update state.verifier.disputes id {
        status := .open
        filer := context.sender
        disputeHash := disputeHash
        filedAtBlock := UInt64.ofNat state.contracts.blockNumber }
      nextDisputeId := id } }

/-- `stateRootSubmission.call(revertStateRootsFrom(revertFromIdx))`: the
storage of the submission contract after the call, unless it failed. -/
def relayRevert (revertFromIdx : UInt64) (elsewhere : Bool) : Option Submission :=
  if wiring.verifier.stateRootSubmission = wiring.submissionSelf then
    match revertStateRootsFrom wiring.submission
        ⟨wiring.verifier.self, 0, state.contracts.blockNumber, context.submissionEntered⟩
        state.contracts.submission revertFromIdx with
    | .error _ => none
    | .ok submission => some submission
  else if elsewhere then some state.contracts.submission
  else none

def finaliseFromFaultProof (disputeId _gameId : ℕ) (revertFromIdx : UInt64)
    (elsewhere : Bool) : Except VerifierError State := do
  revertIf (context.value ≠ 0) .nonPayable
  revertIf (context.verifierEntered = true) .reentrantCall
  revertIf (context.sender ≠ wiring.verifier.faultProofGame) .notFaultProofGame
  revertIf ((state.verifier.disputes disputeId).filedAtBlock = 0) .unknownDispute
  revertIf ((state.verifier.disputes disputeId).status ≠ .open) .alreadyDecided
  match relayRevert wiring context state revertFromIdx elsewhere with
  | none => .error .bridgeRevertFailed
  | some submission =>
    .ok {
      verifier := state.verifier.decide disputeId .upheldByFaultProof
      contracts := { state.contracts with submission := submission } }

/-- `abi.encode` of a text of at most 32 bytes and four words. -/
def verdictDigest (disputeId : ℕ) (disputeHash : Bytes32) (outcome : UInt8) :
    Bytes32 :=
  let text := asciiBytes "CanonDisputeVerifierV2.verdict"
  keccak256 (abiWord 160 ++ wiring.verifier.deploymentId.toBytes ++
    abiWord disputeId ++ disputeHash.toBytes ++ abiWord outcome.toNat ++
    abiWord text.length ++ text ++ List.replicate (32 - text.length) 0)

/-- The counting loop, with the signers already seen.  A signature which the
recovery refuses is skipped. -/
def countSignatures (digest : Bytes32) : List (Address × Bytes) → List Address → ℕ
  | [], seen => seen.length
  | (signer, sig) :: rest, seen =>
    if signer = 0 ∨ wiring.verifier.isApprovedAdjudicator signer = false ∨
        sig.length ≠ 65 ∨ seen.any (fun other => other = signer) then
      countSignatures digest rest seen
    else if recover digest sig = some signer then
      countSignatures digest rest (seen ++ [signer])
    else countSignatures digest rest seen

def countVerifiedSignatures (digest : Bytes32) (signers : List Address) (sigs : List Bytes) : ℕ :=
  countSignatures recover wiring digest (signers.zip sigs) []

def finaliseFromQuorum (disputeId : ℕ) (outcome : UInt8)
    (signers : List Address) (sigs : List Bytes) : Except VerifierError State := do
  revertIf (context.value ≠ 0) .nonPayable
  revertIf (context.verifierEntered = true) .reentrantCall
  revertIf (signers.length ≠ sigs.length) .signerSignatureCountMismatch
  revertIf (maxVerdictSigners < signers.length) (.tooManySigners signers.length maxVerdictSigners)
  revertIf (outcome ≠ verdictUpheld ∧ outcome ≠ verdictRejected) .unknownDispute
  let dispute := state.verifier.disputes disputeId
  revertIf (dispute.filedAtBlock = 0) .unknownDispute
  revertIf (dispute.status ≠ .open) .alreadyDecided
  let verified := countVerifiedSignatures recover wiring
    (verdictDigest wiring disputeId dispute.disputeHash outcome) signers sigs
  revertIf (verified < wiring.verifier.quorumThreshold.toNat)
    (.insufficientQuorum verified wiring.verifier.quorumThreshold)
  return { state with
    verifier := state.verifier.decide disputeId
      (if outcome = verdictUpheld then .upheldByQuorum else .rejected) }

end Functions

/-! ## Which wirings authorise the game -/

/-- The submission contract does not turn the game away as a stranger. -/
structure Wiring.Authorised (wiring : Wiring) : Prop where
  markDisputed : ∀ context state logIndex, context.sender = wiring.game.self →
      StateRoots.markDisputed wiring.submission context state logIndex ≠ .error .notFaultProofGame
  slashSequencerBond : ∀ context state logIndex recipient accepts,
    context.sender = wiring.game.self →
      StateRoots.slashSequencerBond wiring.submission context state logIndex
        recipient accepts ≠ .error .notFaultProofGame
  revertStateRootsFrom : ∀ context state fromIdx, context.sender = wiring.game.self →
      StateRoots.revertStateRootsFrom wiring.submission context state
        fromIdx ≠ .error .notFaultProofGame

section Wirings

variable {recover : Recover} {wiring : Wiring} {context : VerifierContext} {state next : State}

theorem revertStateRootsFrom_succeeds_iff {params : SubmissionParams} {caller : CallContext}
    {submission : Submission} {fromIdx : UInt64}
    (hvalue : caller.value = 0) (hguard : caller.submissionEntered = false) :
    (∃ after, StateRoots.revertStateRootsFrom params caller submission fromIdx = .ok after) ↔
      caller.sender = params.faultProofGame := by
  simp only [StateRoots.revertStateRootsFrom, bind_eq_ok, revertIf_eq_ok,
    exists_const, pure_eq_ok, ne_eq, not_not, Bool.not_eq_true]
  constructor
  · rintro ⟨after, _, _, hsender, _⟩
    exact hsender
  · intro hsender
    exact ⟨_, hvalue, hguard, hsender, rfl⟩

theorem Wiring.authorised_iff (wiring : Wiring) :
    wiring.Authorised ↔ wiring.submission.faultProofGame = wiring.game.self := by
  constructor
  · intro hauthorised
    by_contra hother
    apply hauthorised.revertStateRootsFrom ⟨wiring.game.self, 0, 0, false⟩ .initial 0 rfl
    have hstranger : wiring.game.self ≠ wiring.submission.faultProofGame :=
      fun hsame => hother hsame.symm
    simp only [StateRoots.revertStateRootsFrom]
    rw [revertIf_of_not (by simp), ok_bind, revertIf_of_not (by simp),
      ok_bind, revertIf_of_pos hstranger]
    rfl
  · intro hwired
    have hknown : ∀ context : CallContext, context.sender = wiring.game.self →
          ¬ (context.sender ≠ wiring.submission.faultProofGame) := by
      intro context hsender
      rw [hsender, hwired, ne_eq, not_not]
    constructor
    · intro context submission logIndex hsender
      simp only [StateRoots.markDisputed, revertIf_of_not (hknown context hsender)]
      unfold revertIf
      split_ifs <;> simp [bind, Except.bind, pure, Except.pure]
    · intro context submission logIndex recipient accepts hsender
      simp only [StateRoots.slashSequencerBond, revertIf_of_not (hknown context hsender)]
      unfold revertIf
      split_ifs <;> simp [bind, Except.bind, pure, Except.pure]
    · intro context submission fromIdx hsender
      simp only [StateRoots.revertStateRootsFrom, revertIf_of_not (hknown context hsender)]
      unfold revertIf
      split_ifs <;> simp [bind, Except.bind, pure, Except.pure]

/-- What the verifier's own call finds at the address it was given. -/
def Wiring.RelayAccepted (wiring : Wiring) (elsewhere : Bool) : Prop :=
  if wiring.verifier.stateRootSubmission = wiring.submissionSelf then
    wiring.verifier.self = wiring.submission.faultProofGame
  else elsewhere = true

theorem relayRevert_isSome_iff {revertFromIdx : UInt64} {elsewhere : Bool}
    (hguard : context.submissionEntered = false) :
    (∃ submission, relayRevert wiring context state revertFromIdx elsewhere = some submission) ↔
      wiring.RelayAccepted elsewhere := by
  unfold relayRevert Wiring.RelayAccepted
  split
  · rw [← @revertStateRootsFrom_succeeds_iff wiring.submission
      ⟨wiring.verifier.self, 0, state.contracts.blockNumber, context.submissionEntered⟩
      state.contracts.submission revertFromIdx rfl hguard]
    split
    · rename_i error hcall
      simp [hcall]
    · rename_i submission hcall
      simp [hcall]
  · cases elsewhere <;> simp

theorem finaliseFromFaultProof_eq_ok_iff
    {disputeId gameId : ℕ} {revertFromIdx : UInt64} {elsewhere : Bool} :
    finaliseFromFaultProof wiring context state disputeId gameId
        revertFromIdx elsewhere = .ok next ↔
      context.value = 0 ∧ context.verifierEntered = false ∧
        context.sender = wiring.verifier.faultProofGame ∧
        (state.verifier.disputes disputeId).filedAtBlock ≠ 0 ∧
        (state.verifier.disputes disputeId).status = .open ∧
        ∃ submission, relayRevert wiring context state revertFromIdx elsewhere = some submission ∧
            next = {
              verifier := state.verifier.decide disputeId .upheldByFaultProof
              contracts := { state.contracts with
                submission := submission } } := by
  simp only [finaliseFromFaultProof, bind_eq_ok, revertIf_eq_ok,
    exists_const, ne_eq, not_not, Bool.not_eq_true]
  cases relayRevert wiring context state revertFromIdx elsewhere with
  | none => simp
  | some =>
    simp only [Except.ok.injEq, Option.some.injEq, exists_eq_left']
    rw [@eq_comm _ next]

end Wirings

/-- With an authorised game, its call finalises an open dispute exactly when
the dispute's block is recorded, the verifier knows this game, and the verifier
is itself the authorised caller at the submission contract, or talks to another
address which accepts the call. -/
theorem finaliseFromFaultProof_usable_iff
    {wiring : Wiring} {state : State} {disputeId : ℕ} {elsewhere : Bool}
    (hauthorised : wiring.Authorised) (hopen : state.verifier.IsOpen disputeId) :
    (∀ gameId revertFromIdx, ∃ next,
        finaliseFromFaultProof wiring ⟨wiring.game.self, 0, false, false⟩
            state disputeId gameId revertFromIdx elsewhere = .ok next ∧
          (next.verifier.disputes disputeId).status = .upheldByFaultProof) ↔
      (state.verifier.disputes disputeId).filedAtBlock ≠ 0 ∧
        wiring.verifier.faultProofGame = wiring.game.self ∧
        if wiring.verifier.stateRootSubmission = wiring.submissionSelf then
          wiring.verifier.self = wiring.game.self
        else elsewhere = true := by
  have hrelay : wiring.RelayAccepted elsewhere ↔
      if wiring.verifier.stateRootSubmission = wiring.submissionSelf then
        wiring.verifier.self = wiring.game.self
      else elsewhere = true := by
    unfold Wiring.RelayAccepted
    rw [wiring.authorised_iff.mp hauthorised]
  rw [← hrelay]
  simp only [finaliseFromFaultProof_eq_ok_iff, true_and, hopen.2.2]
  constructor
  · intro hall
    obtain ⟨next, ⟨hgame, hfiled, submission, hcall, _⟩, _⟩ := hall 0 0
    refine ⟨hfiled, hgame.symm, ?_⟩
    exact (relayRevert_isSome_iff rfl).mp ⟨submission, hcall⟩
  · rintro ⟨hfiled, hgame, haccepted⟩ gameId revertFromIdx
    obtain ⟨submission, hcall⟩ := (@relayRevert_isSome_iff wiring
      ⟨wiring.game.self, 0, false, false⟩ state revertFromIdx elsewhere
      rfl).mpr haccepted
    refine ⟨_, ⟨hgame.symm, hfiled, submission, hcall, rfl⟩, ?_⟩
    simp [Storage.decide]

/-! ## The wiring of the deployment script -/

/-- Submission contract and verifier both get the address of the game. -/
def scriptWiring : Wiring where
  game := FaultProof.sampleDeployment.game
  submission := sampleSubmissionParams
  submissionSelf := 0x5B01
  verifier := {
    faultProofGame := sampleSubmissionParams.faultProofGame
    stateRootSubmission := 0x5B01
    approvedAdjudicators := [0xAD1, 0xAD2, 0xAD3]
    quorumThreshold := 2
    bridge := 0xB41D6E
    deploymentId := .zero
    self := 0xD162
    faultProofGame_ne_zero := sampleSubmissionParams.faultProofGame_ne_zero
    stateRootSubmission_ne_zero := by decide
    bridge_ne_zero := by decide
    quorumThreshold_ne_zero := by decide
    quorumThreshold_le := by decide }

def filedState : State where
  verifier := {
    disputes := Function.update (fun _ => .unset) 1 ⟨.open, 0xF11E, .zero, 100⟩
    nextDisputeId := 1 }
  contracts := .initial 100

/-- The game is authorised, the dispute is open and was just filed, and the
game's call is refused. -/
theorem scriptWiring_relay_refused :
    scriptWiring.Authorised ∧
      fileDispute ⟨0xF11E, 0, false, false⟩ (State.initial 100) .zero = .ok filedState ∧
      filedState.verifier.IsOpen 1 ∧
      finaliseFromFaultProof scriptWiring
          ⟨scriptWiring.game.self, 0, false, false⟩ filedState 1 1 1 true =
        .error .bridgeRevertFailed := by
  refine ⟨scriptWiring.authorised_iff.mpr rfl, rfl, ⟨by decide, by decide, rfl⟩, rfl⟩

/-- The same verifier with an account without code in place of the submission
contract: the call goes through. -/
theorem detachedWiring_relay_accepted :
    ∃ next, finaliseFromFaultProof { scriptWiring with submissionSelf := 1 }
        ⟨scriptWiring.game.self, 0, false, false⟩ filedState 1 7 3 true = .ok next ∧
      (next.verifier.disputes 1).status = .upheldByFaultProof := by
  have husable := @finaliseFromFaultProof_usable_iff
    { scriptWiring with submissionSelf := 1 } filedState 1 true
    ((Wiring.authorised_iff _).mpr rfl) ⟨by decide, by decide, rfl⟩
  exact husable.mpr ⟨by decide, rfl, by rw [if_neg (by decide)]⟩ 7 3

end DisputeV2
end Canon
