import Canon.KeccakSponge
import Canon.GuardedCalls
import Canon.TransitionRuns

/-!
# The state-root submission contract

The registry in which the sequencer posts bonded state roots, in the order of the
source's checks and writes.  The outcome of a plain ether transfer depends on code
outside the contract, so it is an argument of the functions which make one.  A call made
while the contract's own reentrancy guard is held is marked in the call context.
-/

namespace Canon

open Function

structure CallContext where
  sender : Address
  value : ℕ
  blockNumber : ℕ
  submissionEntered : Bool
  deriving DecidableEq

namespace StateRoots

inductive SubmissionError where
  | notSequencer
  | notFaultProofGame
  | submissionTooFrequent
  | tooManyOutstandingRoots
  | alreadyClaimed
  | invalidBond
  | hashChainBroken
  | rootMissing
  | alreadyDisputed
  | bondAlreadyZero
  | slashTransferFailed
  | previousRootMissing
  | notYetFinalisable
  | alreadyFinalised
  | disputeInProgress
  | zeroAddress
  | windowTooShort
  | bondReleaseFailed
  | nonPayable
  | reentrantCall
  | arithmeticPanic
  deriving DecidableEq, Repr

/-- The immutables, together with what the constructor has checked of them. -/
structure SubmissionParams where
  submissionBond : ℕ
  faultProofDisputeWindow : UInt64
  minSubmissionIntervalBlocks : UInt64
  maxOutstandingRootsPerSequencer : UInt64
  sequencer : Address
  faultProofGame : Address
  deploymentId : Bytes32
  submissionBond_lt : submissionBond < 2 ^ 128
  sequencer_ne_zero : sequencer ≠ 0
  faultProofGame_ne_zero : faultProofGame ≠ 0
  submissionBond_ne_zero : submissionBond ≠ 0
  disputeWindow_ne_zero : faultProofDisputeWindow ≠ 0
  minSubmissionInterval_ne_zero : minSubmissionIntervalBlocks ≠ 0
  maxOutstandingRoots_ne_zero : maxOutstandingRootsPerSequencer ≠ 0

/-- The constructor.  A bond argument is a `uint128`, hence the subtype. -/
def SubmissionParams.deploy (bond : Fin (2 ^ 128))
    (disputeWindow minSubmissionInterval maxOutstandingRoots : UInt64)
    (sequencer faultProofGame : Address) (deploymentId : Bytes32)
    (withdrawalFinalisationWindow : UInt64) : Except SubmissionError SubmissionParams :=
  if hsequencer : sequencer = 0 then .error .zeroAddress
  else if hgame : faultProofGame = 0 then .error .zeroAddress
  else if hbond : bond.val = 0 then .error .invalidBond
  else if hwindow : disputeWindow = 0 then .error .windowTooShort
  else if disputeWindow < withdrawalFinalisationWindow then
    .error .windowTooShort
  else if hinterval : minSubmissionInterval = 0 then
    .error .submissionTooFrequent
  else if hcap : maxOutstandingRoots = 0 then .error .tooManyOutstandingRoots
  else .ok {
    submissionBond := bond.val
    faultProofDisputeWindow := disputeWindow
    minSubmissionIntervalBlocks := minSubmissionInterval
    maxOutstandingRootsPerSequencer := maxOutstandingRoots
    sequencer := sequencer
    faultProofGame := faultProofGame
    deploymentId := deploymentId
    submissionBond_lt := bond.isLt
    sequencer_ne_zero := hsequencer
    faultProofGame_ne_zero := hgame
    submissionBond_ne_zero := hbond
    disputeWindow_ne_zero := hwindow
    minSubmissionInterval_ne_zero := hinterval
    maxOutstandingRoots_ne_zero := hcap }

structure SubmittedRoot where
  sequencer : Address
  stateCommit : Bytes32
  prevLogEntryHash : Bytes32
  expectedNextHash : Bytes32
  bond : ℕ
  submittedAtBlock : UInt64
  finalised : Bool
  disputed : Bool
  deriving DecidableEq

def SubmittedRoot.unset : SubmittedRoot := ⟨0, .zero, .zero, .zero, 0, 0, false, false⟩

structure Submission where
  roots : UInt64 → SubmittedRoot
  lastSubmissionBlock : Address → UInt64
  outstandingRootsCount : Address → UInt64
  lowestRevertedLogIndex : UInt64
  highestRevertedLogIndex : UInt64
  balance : ℕ

def Submission.initial : Submission where
  roots := fun _ => .unset
  lastSubmissionBlock := fun _ => 0
  outstandingRootsCount := fun _ => 0
  lowestRevertedLogIndex := 0
  highestRevertedLogIndex := 0
  balance := 0

def Submission.IsSubmitted (state : Submission) (logIndex : UInt64) : Prop :=
  (state.roots logIndex).submittedAtBlock ≠ 0

instance (state : Submission) (logIndex : UInt64) : Decidable (state.IsSubmitted logIndex) :=
  inferInstanceAs (Decidable (_ ≠ _))

def Submission.setRoot (state : Submission) (logIndex : UInt64)
    (root : SubmittedRoot) : Submission :=
  { state with roots := update state.roots logIndex root }

/-- `if (outstandingRootsCount[a] > 0) outstandingRootsCount[a]--;` -/
def Submission.releaseOutstanding (state : Submission) (account : Address) :
    Submission :=
  if 0 < state.outstandingRootsCount account then
    { state with
      outstandingRootsCount := update state.outstandingRootsCount
        account (state.outstandingRootsCount account - 1) }
  else state

section Functions

variable (params : SubmissionParams) (context : CallContext) (state : Submission)

def checkHashChain (logIndex : UInt64) (prevLogEntryHash : Bytes32) : Except SubmissionError Unit :=
  if 0 < logIndex then do
    revertIf ((state.roots (logIndex - 1)).submittedAtBlock = 0) .previousRootMissing
    revertIf ((state.roots (logIndex - 1)).expectedNextHash ≠ prevLogEntryHash) .hashChainBroken
  else pure ()

def submitStateRoot (logIndex : UInt64) (stateCommit prevLogEntryHash : Bytes32) :
    Except SubmissionError Submission := do
  revertIf (context.submissionEntered = true) .reentrantCall
  revertIf (context.sender ≠ params.sequencer) .notSequencer
  revertIf (context.value ≠ params.submissionBond) .invalidBond
  revertIf ((state.roots logIndex).submittedAtBlock ≠ 0) .alreadyClaimed
  let earliest ← checkedAdd64 .arithmeticPanic (state.lastSubmissionBlock context.sender)
    params.minSubmissionIntervalBlocks
  revertIf (context.blockNumber < earliest.toNat) .submissionTooFrequent
  revertIf (params.maxOutstandingRootsPerSequencer ≤
    state.outstandingRootsCount context.sender) .tooManyOutstandingRoots
  checkHashChain state logIndex prevLogEntryHash
  let outstanding ← checkedAdd64 .arithmeticPanic (state.outstandingRootsCount context.sender) 1
  return {
    roots := update state.roots logIndex {
      sequencer := context.sender
      stateCommit := stateCommit
      prevLogEntryHash := prevLogEntryHash
      expectedNextHash := keccak256 (prevLogEntryHash.toBytes ++ stateCommit.toBytes)
      bond := context.value % 2 ^ 128
      submittedAtBlock := UInt64.ofNat context.blockNumber
      finalised := false
      disputed := false }
    lastSubmissionBlock := update state.lastSubmissionBlock
      context.sender (UInt64.ofNat context.blockNumber)
    outstandingRootsCount := update state.outstandingRootsCount context.sender outstanding
    lowestRevertedLogIndex := state.lowestRevertedLogIndex
    highestRevertedLogIndex := state.highestRevertedLogIndex
    balance := state.balance + context.value }

def finaliseStateRoot (logIndex : UInt64) (payoutAccepted : Bool) :
    Except SubmissionError Submission := do
  revertIf (context.value ≠ 0) .nonPayable
  revertIf (context.submissionEntered = true) .reentrantCall
  revertIf ((state.roots logIndex).submittedAtBlock = 0) .previousRootMissing
  revertIf ((state.roots logIndex).finalised = true) .alreadyFinalised
  revertIf ((state.roots logIndex).disputed = true) .disputeInProgress
  let earliest ← checkedAdd64 .arithmeticPanic
    (state.roots logIndex).submittedAtBlock params.faultProofDisputeWindow
  revertIf (context.blockNumber < earliest.toNat) .notYetFinalisable
  let amount := (state.roots logIndex).bond
  let sequencerAddr := (state.roots logIndex).sequencer
  let settled :=
    (state.setRoot logIndex { state.roots logIndex with finalised := true, bond := 0 }
      ).releaseOutstanding sequencerAddr
  revertIf (0 < amount ∧ (payoutAccepted = false ∨ state.balance < amount)) .bondReleaseFailed
  return { settled with balance := state.balance - amount }

def markDisputed (logIndex : UInt64) : Except SubmissionError Submission := do
  revertIf (context.value ≠ 0) .nonPayable
  revertIf (context.submissionEntered = true) .reentrantCall
  revertIf (context.sender ≠ params.faultProofGame) .notFaultProofGame
  revertIf ((state.roots logIndex).submittedAtBlock = 0) .rootMissing
  revertIf ((state.roots logIndex).finalised = true) .alreadyFinalised
  revertIf ((state.roots logIndex).disputed = true) .alreadyDisputed
  return state.setRoot logIndex { state.roots logIndex with disputed := true }

def clearDisputed (logIndex : UInt64) : Except SubmissionError Submission := do
  revertIf (context.value ≠ 0) .nonPayable
  revertIf (context.submissionEntered = true) .reentrantCall
  revertIf (context.sender ≠ params.faultProofGame) .notFaultProofGame
  revertIf ((state.roots logIndex).submittedAtBlock = 0) .rootMissing
  return state.setRoot logIndex { state.roots logIndex with disputed := false }

def slashSequencerBond (logIndex : UInt64) (recipient : Address)
    (recipientAccepts : Bool) : Except SubmissionError Submission := do
  revertIf (context.value ≠ 0) .nonPayable
  revertIf (context.submissionEntered = true) .reentrantCall
  revertIf (context.sender ≠ params.faultProofGame) .notFaultProofGame
  revertIf (recipient = 0) .notSequencer
  revertIf ((state.roots logIndex).submittedAtBlock = 0) .rootMissing
  revertIf ((state.roots logIndex).finalised = true) .alreadyFinalised
  revertIf ((state.roots logIndex).bond = 0) .bondAlreadyZero
  let amount := (state.roots logIndex).bond
  let sequencerAddr := (state.roots logIndex).sequencer
  let slashed :=
    (state.setRoot logIndex { state.roots logIndex with bond := 0 }
      ).releaseOutstanding sequencerAddr
  revertIf (recipientAccepts = false ∨ state.balance < amount) .slashTransferFailed
  return { slashed with balance := state.balance - amount }

def revertStateRootsFrom (fromIdx : UInt64) : Except SubmissionError Submission := do
  revertIf (context.value ≠ 0) .nonPayable
  revertIf (context.submissionEntered = true) .reentrantCall
  revertIf (context.sender ≠ params.faultProofGame) .notFaultProofGame
  return { state with
    lowestRevertedLogIndex :=
      if state.lowestRevertedLogIndex = 0 ∨ fromIdx < state.lowestRevertedLogIndex then fromIdx
      else state.lowestRevertedLogIndex
    highestRevertedLogIndex :=
      if state.highestRevertedLogIndex < fromIdx then fromIdx
      else state.highestRevertedLogIndex }

end Functions

def Submission.isStateRootReverted (state : Submission) (logIndex : UInt64) : Bool :=
  state.lowestRevertedLogIndex ≤ logIndex && logIndex ≤ state.highestRevertedLogIndex &&
    0 < state.lowestRevertedLogIndex

inductive SubmissionCall where
  | submitStateRoot (logIndex : UInt64) (stateCommit prevLogEntryHash : Bytes32)
  | finaliseStateRoot (logIndex : UInt64) (payoutAccepted : Bool)
  | markDisputed (logIndex : UInt64)
  | clearDisputed (logIndex : UInt64)
  | slashSequencerBond (logIndex : UInt64) (recipient : Address) (recipientAccepts : Bool)
  | revertStateRootsFrom (fromIdx : UInt64)

def Submission.call (params : SubmissionParams) (context : CallContext)
    (state : Submission) : SubmissionCall → Except SubmissionError Submission
  | .submitStateRoot logIndex stateCommit prevLogEntryHash =>
    StateRoots.submitStateRoot params context state logIndex stateCommit prevLogEntryHash
  | .finaliseStateRoot logIndex payoutAccepted =>
    StateRoots.finaliseStateRoot params context state logIndex payoutAccepted
  | .markDisputed logIndex =>
    StateRoots.markDisputed params context state logIndex
  | .clearDisputed logIndex =>
    StateRoots.clearDisputed params context state logIndex
  | .slashSequencerBond logIndex recipient recipientAccepts =>
    StateRoots.slashSequencerBond params context state logIndex recipient recipientAccepts
  | .revertStateRootsFrom fromIdx =>
    StateRoots.revertStateRootsFrom params context state fromIdx

/-! ## What a successful call has checked and written -/

section Effects

variable {params : SubmissionParams} {context : CallContext} {state next : Submission}

variable {logIndex : UInt64}

@[simp] theorem Submission.setRoot_roots
    (state : Submission) (logIndex : UInt64) (root : SubmittedRoot) :
    (state.setRoot logIndex root).roots = update state.roots logIndex root := rfl

@[simp] theorem Submission.releaseOutstanding_roots (state : Submission) (account : Address) :
    (state.releaseOutstanding account).roots = state.roots := by
  unfold Submission.releaseOutstanding
  split <;> rfl

@[simp] theorem Submission.releaseOutstanding_lowest (state : Submission) (account : Address) :
    (state.releaseOutstanding account).lowestRevertedLogIndex = state.lowestRevertedLogIndex := by
  unfold Submission.releaseOutstanding
  split <;> rfl

@[simp] theorem Submission.releaseOutstanding_highest (state : Submission) (account : Address) :
    (state.releaseOutstanding account).highestRevertedLogIndex = state.highestRevertedLogIndex := by
  unfold Submission.releaseOutstanding
  split <;> rfl

def Submission.SameRange (state other : Submission) : Prop :=
  other.lowestRevertedLogIndex = state.lowestRevertedLogIndex ∧
    other.highestRevertedLogIndex = state.highestRevertedLogIndex

theorem submitStateRoot_effect {stateCommit prevLogEntryHash : Bytes32}
    (hcall : submitStateRoot params context state logIndex stateCommit
      prevLogEntryHash = .ok next) :
    context.sender = params.sequencer ∧ ¬ state.IsSubmitted logIndex ∧
      (0 < logIndex → state.IsSubmitted (logIndex - 1) ∧
        (state.roots (logIndex - 1)).expectedNextHash = prevLogEntryHash) ∧ state.SameRange next ∧
      next.roots = update state.roots logIndex {
        sequencer := context.sender
        stateCommit := stateCommit
        prevLogEntryHash := prevLogEntryHash
        expectedNextHash := keccak256 (prevLogEntryHash.toBytes ++ stateCommit.toBytes)
        bond := context.value % 2 ^ 128
        submittedAtBlock := UInt64.ofNat context.blockNumber
        finalised := false
        disputed := false } := by
  simp only [submitStateRoot, bind_eq_ok, revertIf_eq_ok, exists_const,
    pure_eq_ok, ne_eq, not_not] at hcall
  obtain ⟨_, hsender, _, hfresh, earliest, _, _, _, ⟨⟩, hchain, outstanding, _, hnext⟩ := hcall
  subst hnext
  refine ⟨hsender, by simpa [Submission.IsSubmitted] using hfresh, ?_, ⟨rfl, rfl⟩, rfl⟩
  intro hpos
  simpa [checkHashChain, hpos, bind_eq_ok, Submission.IsSubmitted] using hchain

theorem finaliseStateRoot_effect {payoutAccepted : Bool}
    (hcall : finaliseStateRoot params context state logIndex payoutAccepted = .ok next) :
    state.IsSubmitted logIndex ∧ (state.roots logIndex).finalised = false ∧
      (state.roots logIndex).disputed = false ∧ state.SameRange next ∧
      next.roots = update state.roots logIndex
        { state.roots logIndex with finalised := true, bond := 0 } := by
  simp only [finaliseStateRoot, bind_eq_ok, revertIf_eq_ok, exists_const,
    pure_eq_ok, Bool.not_eq_true] at hcall
  obtain ⟨_, _, hsubmitted, hfinalised, hdisputed, earliest, _, _, _, hnext⟩ := hcall
  subst hnext
  exact ⟨hsubmitted, hfinalised, hdisputed, ⟨by simp [Submission.setRoot],
    by simp [Submission.setRoot]⟩, by simp⟩

theorem markDisputed_effect (hcall : markDisputed params context state logIndex = .ok next) :
    context.sender = params.faultProofGame ∧ state.IsSubmitted logIndex ∧
      (state.roots logIndex).finalised = false ∧ (state.roots logIndex).disputed = false ∧
      state.SameRange next ∧
      next.roots = update state.roots logIndex
        { state.roots logIndex with disputed := true } := by
  simp only [markDisputed, bind_eq_ok, revertIf_eq_ok, exists_const,
    pure_eq_ok, ne_eq, not_not, Bool.not_eq_true] at hcall
  obtain ⟨_, _, hsender, hsubmitted, hfinalised, hdisputed, hnext⟩ := hcall
  subst hnext
  exact ⟨hsender, hsubmitted, hfinalised, hdisputed, ⟨rfl, rfl⟩, rfl⟩

theorem clearDisputed_effect (hcall : clearDisputed params context state logIndex = .ok next) :
    context.sender = params.faultProofGame ∧ state.IsSubmitted logIndex ∧ state.SameRange next ∧
      next.roots = update state.roots logIndex
        { state.roots logIndex with disputed := false } := by
  simp only [clearDisputed, bind_eq_ok, revertIf_eq_ok, exists_const,
    pure_eq_ok, ne_eq, not_not] at hcall
  obtain ⟨_, _, hsender, hsubmitted, hnext⟩ := hcall
  subst hnext
  exact ⟨hsender, hsubmitted, ⟨rfl, rfl⟩, rfl⟩

theorem slashSequencerBond_effect {recipient : Address} {recipientAccepts : Bool}
    (hcall : slashSequencerBond params context state logIndex recipient
      recipientAccepts = .ok next) :
    context.sender = params.faultProofGame ∧ state.IsSubmitted logIndex ∧
      (state.roots logIndex).finalised = false ∧ state.SameRange next ∧
      next.roots = update state.roots logIndex
        { state.roots logIndex with bond := 0 } := by
  simp only [slashSequencerBond, bind_eq_ok, revertIf_eq_ok, exists_const,
    pure_eq_ok, ne_eq, not_not, Bool.not_eq_true] at hcall
  obtain ⟨_, _, hsender, _, hsubmitted, hfinalised, _, _, hnext⟩ := hcall
  subst hnext
  exact ⟨hsender, hsubmitted, hfinalised, ⟨by simp [Submission.setRoot],
    by simp [Submission.setRoot]⟩, by simp⟩

theorem revertStateRootsFrom_effect {fromIdx : UInt64}
    (hcall : revertStateRootsFrom params context state fromIdx = .ok next) :
    context.sender = params.faultProofGame ∧
      next.roots = state.roots ∧
      next.lowestRevertedLogIndex =
        (if state.lowestRevertedLogIndex = 0 ∨ fromIdx < state.lowestRevertedLogIndex then fromIdx
          else state.lowestRevertedLogIndex) ∧
      next.highestRevertedLogIndex =
        (if state.highestRevertedLogIndex < fromIdx then fromIdx
          else state.highestRevertedLogIndex) := by
  simp only [revertStateRootsFrom, bind_eq_ok, revertIf_eq_ok, exists_const,
    pure_eq_ok, ne_eq, not_not] at hcall
  obtain ⟨_, _, hsender, hnext⟩ := hcall
  subst hnext
  exact ⟨hsender, rfl, rfl, rfl⟩

end Effects

end StateRoots

end Canon
