import Canon.StateRootSubmission
import Canon.StepVMExecution

/-!
# The fault-proof game contract

The bisection game together with the submission contract it is wired to.  The game
calls the submission contract and the step machine directly; the calls inside
`try`/`catch` keep the old storage when they revert.

The storage maps are total functions with Solidity's default values, so a game
id that was never opened is a game with status `InProgress`, empty range and
zero parties.  Whether a receiver of ether accepts it is an argument of the
call.
-/

namespace Canon
namespace FaultProof

open StateRoots Function

structure Claim where
  idx : UInt64
  commit : Bytes32
  deriving DecidableEq

inductive TurnSide where
  | sequencer
  | challenger
  deriving DecidableEq, Repr

def TurnSide.flip : TurnSide → TurnSide
  | .sequencer => .challenger
  | .challenger => .sequencer

inductive GameStatus where
  | inProgress
  | sequencerWon
  | challengerWon
  | timedOutSequencer
  | timedOutChallenger
  deriving DecidableEq, Repr

/-- The branch of `_settle`: the sequencer wins on `SequencerWon` and
`TimedOutChallenger`, the challenger on every other final status. -/
def GameStatus.challengerWins : GameStatus → Bool
  | .sequencerWon => false
  | .timedOutChallenger => false
  | _ => true

structure Game where
  sequencer : Address
  challenger : Address
  low : Claim
  high : Claim
  hasPendingMidpoint : Bool
  pendingMidpoint : Claim
  depth : UInt64
  turn : TurnSide
  turnDeadline : UInt64
  sequencerBond : ℕ
  challengerBond : ℕ
  status : GameStatus
  deploymentId : Bytes32
  lastStepBlock : UInt64
  disputedLogIndex : UInt64
  deriving DecidableEq

def Game.unset : Game where
  sequencer := 0
  challenger := 0
  low := ⟨0, .zero⟩
  high := ⟨0, .zero⟩
  hasPendingMidpoint := false
  pendingMidpoint := ⟨0, .zero⟩
  depth := 0
  turn := .sequencer
  turnDeadline := 0
  sequencerBond := 0
  challengerBond := 0
  status := .inProgress
  deploymentId := .zero
  lastStepBlock := 0
  disputedLogIndex := 0

def Game.responsible (game : Game) : Address :=
  match game.turn with
  | .sequencer => game.sequencer
  | .challenger => game.challenger

inductive GameError where
  | zeroAddress
  | insufficientBond
  | turnDeadlineExpired
  | noPendingMidpoint
  | midpointAlreadyPending
  | midpointOutOfRange
  | rangeNotSingleStep
  | gameAlreadyEnded
  | notResponsible
  | bondTransferFailed
  | bisectionStepTooFast
  | gameAlreadyExists
  | depthCapExceeded
  | nonPayable
  | arithmeticPanic
  | submission (error : SubmissionError)
  | stepVM (error : StepVM.StepError)
  deriving DecidableEq, Repr

def maxBisectionDepth : UInt64 := 64

structure GameParams where
  bisectionResponseTimeout : UInt64
  minChallengeBond : ℕ
  minBisectionStepIntervalBlocks : UInt64
  treasury : Address
  self : Address
  minChallengeBond_lt : minChallengeBond < 2 ^ 128
  treasury_ne_zero : treasury ≠ 0

structure Deployment where
  game : GameParams
  submission : SubmissionParams
  wired : submission.faultProofGame = game.self

/-- The contract's storage, its ether balance and the ether it has sent out,
oldest transfer first. -/
structure GameStorage where
  games : ℕ → Game
  nextGameId : ℕ
  activeGameForLogIndex : UInt64 → ℕ
  balance : ℕ
  transfers : List (Address × ℕ)

structure State where
  game : GameStorage
  submission : Submission
  blockNumber : ℕ

def State.initial (blockNumber : ℕ) : State where
  game := {
    games := fun _ => .unset
    nextGameId := 0
    activeGameForLogIndex := fun _ => 0
    balance := 0
    transfers := [] }
  submission := .initial
  blockNumber := blockNumber

def State.setGame (state : State) (gameId : ℕ) (game : Game) : State :=
  { state with
    game := { state.game with
      games := update state.game.games gameId game } }

/-- How the two receivers of a settlement react to the ether sent to them. -/
structure Payout where
  winnerAccepts : Bool
  treasuryAccepts : Bool
  deriving DecidableEq

section Functions

variable (deployment : Deployment) (context : CallContext) (state : State)

/-- The context in which the submission contract sees a call of the game. -/
def nestedContext : CallContext where
  sender := deployment.game.self
  value := 0
  blockNumber := context.blockNumber
  submissionEntered := context.submissionEntered

def newDeadline : Except GameError UInt64 :=
  checkedAdd64 .arithmeticPanic (UInt64.ofNat context.blockNumber)
    deployment.game.bisectionResponseTimeout

/-- The game written by `initiateChallenge` into its fresh slot, whose pending
midpoint is not touched. -/
def openedGame (slot : Game) (root : SubmittedRoot)
    (disputedLogIndex : UInt64) (lowCommit : Bytes32) (lowLogIndex : UInt64)
    (turnDeadline : UInt64) : Game where
  sequencer := root.sequencer
  challenger := context.sender
  low := ⟨lowLogIndex, lowCommit⟩
  high := ⟨disputedLogIndex, root.stateCommit⟩
  hasPendingMidpoint := false
  pendingMidpoint := slot.pendingMidpoint
  depth := 0
  turn := .sequencer
  turnDeadline := turnDeadline
  sequencerBond := 0
  challengerBond := context.value % 2 ^ 128
  status := .inProgress
  deploymentId := deployment.submission.deploymentId
  lastStepBlock := UInt64.ofNat context.blockNumber
  disputedLogIndex := disputedLogIndex

def initiateChallenge (disputedLogIndex : UInt64)
    (challengerCommit lowCommit : Bytes32) (lowLogIndex : UInt64) : Except GameError State := do
  revertIf (context.value ≠ deployment.game.minChallengeBond) .insufficientBond
  revertIf (state.game.activeGameForLogIndex disputedLogIndex ≠ 0) .gameAlreadyExists
  revertIf (disputedLogIndex ≤ lowLogIndex) .midpointOutOfRange
  let root := state.submission.roots disputedLogIndex
  revertIf (root.submittedAtBlock = 0) .zeroAddress
  revertIf (root.finalised = true) .gameAlreadyEnded
  revertIf (challengerCommit = root.stateCommit) .midpointOutOfRange
  let gameId ← checkedAdd 256 .arithmeticPanic state.game.nextGameId 1
  let turnDeadline ← newDeadline deployment context
  let submission ← (markDisputed deployment.submission
    (nestedContext deployment context) state.submission disputedLogIndex).mapError .submission
  return {
    game := {
      games := update state.game.games gameId
        (openedGame deployment context (state.game.games gameId) root
          disputedLogIndex lowCommit lowLogIndex turnDeadline)
      nextGameId := gameId
      activeGameForLogIndex := update
        state.game.activeGameForLogIndex disputedLogIndex gameId
      balance := state.game.balance + context.value
      transfers := state.game.transfers }
    submission := submission
    blockNumber := state.blockNumber }

/-- The checks which `submitMidpoint` and `respondToMidpoint` share. -/
def checkMove (game : Game) (pending : Bool) (missing : GameError) : Except GameError Unit := do
  revertIf (context.value ≠ 0) .nonPayable
  revertIf (game.status ≠ .inProgress) .gameAlreadyEnded
  revertIf (game.turnDeadline.toNat < context.blockNumber) .turnDeadlineExpired
  revertIf (game.hasPendingMidpoint ≠ pending) missing
  let earliest ← checkedAdd64 .arithmeticPanic game.lastStepBlock
    deployment.game.minBisectionStepIntervalBlocks
  revertIf (context.blockNumber < earliest.toNat) .bisectionStepTooFast
  revertIf (context.sender ≠ game.responsible) .notResponsible

def submitMidpoint (gameId : ℕ) (midpointCommit : Bytes32) : Except GameError State := do
  let game := state.game.games gameId
  checkMove deployment context game false .midpointAlreadyPending
  let sum ← checkedAdd64 .arithmeticPanic game.low.idx game.high.idx
  let mpIdx := sum / 2
  revertIf (mpIdx ≤ game.low.idx ∨ game.high.idx ≤ mpIdx) .midpointOutOfRange
  let turnDeadline ← newDeadline deployment context
  return state.setGame gameId { game with
    pendingMidpoint := ⟨mpIdx, midpointCommit⟩
    hasPendingMidpoint := true
    turn := game.turn.flip
    turnDeadline := turnDeadline
    lastStepBlock := UInt64.ofNat context.blockNumber }

def respondToMidpoint (gameId : ℕ) (agree : Bool) : Except GameError State := do
  let game := state.game.games gameId
  checkMove deployment context game true .noPendingMidpoint
  let depth ← checkedAdd64 .arithmeticPanic game.depth 1
  revertIf (maxBisectionDepth < depth) .depthCapExceeded
  let turnDeadline ← newDeadline deployment context
  return state.setGame gameId { game with
    low := if agree then game.pendingMidpoint else game.low
    high := if agree then game.high else game.pendingMidpoint
    hasPendingMidpoint := false
    depth := depth
    turn := game.turn.flip
    turnDeadline := turnDeadline
    lastStepBlock := UInt64.ofNat context.blockNumber }

/-- `_settle`, first half: the slot's status and the lock. -/
def closeGame (gameId : ℕ) (finalStatus : GameStatus) : State :=
  let game := state.game.games gameId
  { state with
    game := { state.game with
      games := update state.game.games gameId { game with status := finalStatus }
      activeGameForLogIndex := update state.game.activeGameForLogIndex game.high.idx 0 } }

/-- The `try` block around `slashSequencerBond`; the slashed amount is the
change of the game's balance. -/
def trySlash (gameId : ℕ) : Except GameError State :=
  let game := state.game.games gameId
  match slashSequencerBond deployment.submission (nestedContext deployment context) state.submission
      game.disputedLogIndex deployment.game.self true with
  | .error _ => .ok state
  | .ok submission => do
      let delta := state.submission.balance - submission.balance
      let sequencerBond ← checkedAdd 128 .arithmeticPanic game.sequencerBond (delta % 2 ^ 128)
      return { state with
        game := { state.game with
          games := update state.game.games gameId
            { game with sequencerBond := sequencerBond }
          balance := state.game.balance + delta }
        submission := submission }

def tryRevert (gameId : ℕ) : State :=
  match revertStateRootsFrom deployment.submission
      (nestedContext deployment context) state.submission
      (state.game.games gameId).disputedLogIndex with
  | .error _ => state
  | .ok submission => { state with submission := submission }

def tryClear (gameId : ℕ) : State :=
  match clearDisputed deployment.submission (nestedContext deployment context) state.submission
      (state.game.games gameId).disputedLogIndex with
  | .error _ => state
  | .ok submission => { state with submission := submission }

/-- `receiver.call{value: amount}("")` with its check, skipped for a zero
amount. -/
def sendEther (storage : GameStorage) (receiver : Address) (amount : ℕ)
    (accepts : Bool) : Except GameError GameStorage :=
  if 0 < amount then do
    revertIf (accepts = false ∨ storage.balance < amount) .bondTransferFailed
    return { storage with
      balance := storage.balance - amount
      transfers := storage.transfers ++ [(receiver, amount)] }
  else .ok storage

/-- `_settle`, last part: 95% of the bonds to the winner, the rest to the
treasury. -/
def payBonds (gameId : ℕ) (winner : Address) (payout : Payout) : Except GameError State := do
  let game := state.game.games gameId
  let totalBonds ← checkedAdd 128 .arithmeticPanic game.sequencerBond game.challengerBond
  let scaled ← checkedMul 128 .arithmeticPanic totalBonds 95
  let winnerPayout := scaled / 100
  let treasuryPayout := totalBonds - winnerPayout
  let winnerPaid ← sendEther state.game winner winnerPayout payout.winnerAccepts
  let treasuryPaid ← sendEther winnerPaid deployment.game.treasury
    treasuryPayout payout.treasuryAccepts
  return { state with game := treasuryPaid }

/-- `_settle`, middle part: slash and roll back, or release the lock. -/
def informSubmission (gameId : ℕ) (challengerWins : Bool) : Except GameError State :=
  if challengerWins then do
    let slashed ← trySlash deployment context state gameId
    return tryRevert deployment context slashed gameId
  else .ok (tryClear deployment context state gameId)

def settle (gameId : ℕ) (finalStatus : GameStatus) (payout : Payout) : Except GameError State := do
  let game := state.game.games gameId
  let winner := if finalStatus.challengerWins then game.challenger
    else game.sequencer
  let closed := closeGame state gameId finalStatus
  let informed ← informSubmission deployment context closed gameId finalStatus.challengerWins
  payBonds deployment informed gameId winner payout

def terminateOnSingleStep (gameId : ℕ) (actionKind : UInt8) (actionFields : Bytes) (signer : UInt64)
    (cellProofs : List StepVM.CellProof) (claimedPostCommit : Bytes32)
    (payout : Payout) : Except GameError State := do
  let game := state.game.games gameId
  revertIf (context.value ≠ 0) .nonPayable
  revertIf (game.status ≠ .inProgress) .gameAlreadyEnded
  let gap ← checkedSub64 .arithmeticPanic game.high.idx game.low.idx
  revertIf (gap ≠ 1) .rangeNotSingleStep
  revertIf (game.hasPendingMidpoint = true) .midpointAlreadyPending
  revertIf (context.sender ≠ game.responsible) .notResponsible
  let computedPostCommit ← (StepVM.executeStep game.low.commit actionFields
    signer cellProofs actionKind).mapError .stepVM
  if computedPostCommit = claimedPostCommit then
    settle deployment context state gameId
      (if game.turn = .sequencer then .sequencerWon else .challengerWon) payout
  else
    settle deployment context state gameId
      (if game.turn = .sequencer then .challengerWon else .sequencerWon) payout

def claimTimeout (gameId : ℕ) (payout : Payout) : Except GameError State := do
  let game := state.game.games gameId
  revertIf (context.value ≠ 0) .nonPayable
  revertIf (game.status ≠ .inProgress) .gameAlreadyEnded
  revertIf (context.blockNumber ≤ game.turnDeadline.toNat) .turnDeadlineExpired
  settle deployment context state gameId
    (if game.turn = .sequencer then .timedOutSequencer
      else .timedOutChallenger) payout

end Functions

inductive GameCall where
  | initiateChallenge (disputedLogIndex : UInt64)
      (challengerCommit lowCommit : Bytes32) (lowLogIndex : UInt64)
  | submitMidpoint (gameId : ℕ) (midpointCommit : Bytes32)
  | respondToMidpoint (gameId : ℕ) (agree : Bool)
  | terminateOnSingleStep (gameId : ℕ) (actionKind : UInt8) (actionFields : Bytes) (signer : UInt64)
      (cellProofs : List StepVM.CellProof) (claimedPostCommit : Bytes32) (payout : Payout)
  | claimTimeout (gameId : ℕ) (payout : Payout)

def callGame (deployment : Deployment) (context : CallContext)
    (state : State) : GameCall → Except GameError State
  | .initiateChallenge disputedLogIndex challengerCommit lowCommit lowLogIndex =>
    initiateChallenge deployment context state disputedLogIndex
      challengerCommit lowCommit lowLogIndex
  | .submitMidpoint gameId midpointCommit =>
    submitMidpoint deployment context state gameId midpointCommit
  | .respondToMidpoint gameId agree =>
    respondToMidpoint deployment context state gameId agree
  | .terminateOnSingleStep gameId actionKind actionFields signer cellProofs
      claimedPostCommit payout =>
    terminateOnSingleStep deployment context state gameId actionKind
      actionFields signer cellProofs claimedPostCommit payout
  | .claimTimeout gameId payout =>
    claimTimeout deployment context state gameId payout

/-- One event of the system.  A game call with `reentered` set is made from
within the payout of a guarded submission function, whose calls back into the
submission contract then revert; `submission` is a call which an account other
than the game makes itself; `receiveEther` is the game's bare `receive`. -/
inductive SystemCall where
  | mine (blocks : ℕ)
  | game (sender : Address) (value : ℕ) (reentered : Bool) (call : GameCall)
  | submission (sender : Address) (value : ℕ) (call : SubmissionCall)
  | receiveEther (value : ℕ)

/-- `gameIsNoAccount` is not an error of the contracts: the game's address
sends nothing to the submission contract outside the game's functions. -/
inductive SystemError where
  | game (error : GameError)
  | submission (error : SubmissionError)
  | gameIsNoAccount
  deriving DecidableEq, Repr

def systemStep (deployment : Deployment) (state : State) : SystemCall → Except SystemError State
  | .mine blocks =>
    .ok { state with blockNumber := state.blockNumber + blocks }
  | .game sender value reentered call =>
    (callGame deployment ⟨sender, value, state.blockNumber, reentered⟩ state call).mapError .game
  | .submission sender value call => do
      revertIf (sender = deployment.game.self) .gameIsNoAccount
      let submission ← (state.submission.call deployment.submission
        ⟨sender, value, state.blockNumber, false⟩ call).mapError .submission
      return { state with submission := submission }
  | .receiveEther value =>
    .ok { state with
      game := { state.game with balance := state.game.balance + value } }


/-! ## What a successful call has checked and written -/

section Effects

variable {deployment : Deployment} {context : CallContext} {state next : State}

/-- What a settlement leaves of the records: only the lock of the disputed
root may change, and only when the sequencer is favoured. -/
structure RootsSettled (before after : Submission) (disputedLogIndex : UInt64)
    (challengerWins : Bool) : Prop where
  stateCommit : ∀ i, (after.roots i).stateCommit = (before.roots i).stateCommit
  submittedAtBlock : ∀ i, (after.roots i).submittedAtBlock = (before.roots i).submittedAtBlock
  finalised : ∀ i, (after.roots i).finalised = (before.roots i).finalised
  disputed : ∀ i, challengerWins = true ∨ i ≠ disputedLogIndex →
    (after.roots i).disputed = (before.roots i).disputed

variable {disputedLogIndex : UInt64} {challengerWins : Bool} {before after : Submission}
  {gameId : ℕ} {payout : Payout} {params : SubmissionParams} {logIndex lowLogIndex : UInt64}
  {accepts : Bool} {lowCommit : Bytes32}

theorem RootsSettled.refl (submission : Submission) (disputedLogIndex : UInt64)
    (challengerWins : Bool) : RootsSettled submission submission disputedLogIndex challengerWins :=
  ⟨fun _ => rfl, fun _ => rfl, fun _ => rfl, fun _ _ => rfl⟩

theorem RootsSettled.trans {first second third : Submission}
     (hfirst : RootsSettled first second disputedLogIndex challengerWins)
    (hsecond : RootsSettled second third disputedLogIndex challengerWins) :
    RootsSettled first third disputedLogIndex challengerWins where
  stateCommit i := (hsecond.stateCommit i).trans (hfirst.stateCommit i)
  submittedAtBlock i := (hsecond.submittedAtBlock i).trans (hfirst.submittedAtBlock i)
  finalised i := (hsecond.finalised i).trans (hfirst.finalised i)
  disputed i hi := (hsecond.disputed i hi).trans (hfirst.disputed i hi)

theorem RootsSettled.of_roots_eq (hroots : after.roots = before.roots) :
    RootsSettled before after disputedLogIndex challengerWins := by
  constructor <;> intro i <;> simp [hroots]

theorem slashSequencerBond_rootsSettled {recipient : Address}
    (hcall : slashSequencerBond params context before logIndex recipient accepts = .ok after) :
    RootsSettled before after logIndex challengerWins := by
  obtain ⟨_, _, _, _, hroots⟩ := slashSequencerBond_effect hcall
  constructor <;> intro i <;> by_cases hi : i = logIndex <;>
    simp [hroots, update, hi]

theorem clearDisputed_rootsSettled
    (hcall : clearDisputed params context before logIndex = .ok after) :
    RootsSettled before after logIndex false := by
  obtain ⟨_, _, _, hroots⟩ := clearDisputed_effect hcall
  constructor <;> intro i <;> by_cases hi : i = logIndex <;>
    simp [hroots, update, hi]

theorem trySlash_effect (hslash : trySlash deployment context state gameId = .ok next) :
    (∃ bond, next.game.games = update state.game.games gameId
        { state.game.games gameId with sequencerBond := bond }) ∧
      next.game.nextGameId = state.game.nextGameId ∧
      next.game.activeGameForLogIndex = state.game.activeGameForLogIndex ∧
      next.blockNumber = state.blockNumber ∧
      RootsSettled state.submission next.submission
        (state.game.games gameId).disputedLogIndex true := by
  simp only [trySlash] at hslash
  split at hslash
  · cases hslash
    refine ⟨⟨(state.game.games gameId).sequencerBond, ?_⟩, rfl, rfl, rfl, .refl _ _ _⟩
    simp
  · rename_i submission hcall
    simp only [bind_eq_ok, checkedAdd_eq_ok, pure_eq_ok] at hslash
    obtain ⟨bond, _, hnext⟩ := hslash
    subst hnext
    exact ⟨⟨bond, rfl⟩, rfl, rfl, rfl, slashSequencerBond_rootsSettled hcall⟩

theorem tryRevert_effect (gameId : ℕ) :
    (tryRevert deployment context state gameId).game = state.game ∧
      (tryRevert deployment context state gameId).blockNumber = state.blockNumber ∧
      (tryRevert deployment context state gameId).submission.roots = state.submission.roots := by
  unfold tryRevert
  split
  · exact ⟨rfl, rfl, rfl⟩
  · rename_i submission hcall
    exact ⟨rfl, rfl, (revertStateRootsFrom_effect hcall).2.1⟩

theorem tryClear_effect (gameId : ℕ) :
    (tryClear deployment context state gameId).game = state.game ∧
      (tryClear deployment context state gameId).blockNumber = state.blockNumber ∧
      RootsSettled state.submission (tryClear deployment context state gameId).submission
        (state.game.games gameId).disputedLogIndex false := by
  unfold tryClear
  split
  · exact ⟨rfl, rfl, .refl _ _ _⟩
  · rename_i submission hcall
    exact ⟨rfl, rfl, clearDisputed_rootsSettled hcall⟩

def winnerShare (pot : ℕ) : ℕ := pot * 95 / 100

theorem winnerShare_le (pot : ℕ) : winnerShare pot ≤ pot := by
  unfold winnerShare
  omega

def settlementTransfers (winner treasury : Address) (pot : ℕ) : List (Address × ℕ) :=
  [(winner, winnerShare pot), (treasury, pot - winnerShare pot)].filter
    fun transfer => 0 < transfer.2

theorem sendEther_eq_ok_iff {storage paid : GameStorage} {receiver : Address} {amount : ℕ} :
    sendEther storage receiver amount accepts = .ok paid ↔
      (0 < amount → accepts = true ∧ amount ≤ storage.balance) ∧ paid = { storage with
          balance := storage.balance - amount
          transfers := storage.transfers ++
            [(receiver, amount)].filter fun transfer => 0 < transfer.2 } := by
  unfold sendEther
  by_cases hpos : 0 < amount
  · simp only [bind_eq_ok, revertIf_eq_ok, exists_const, pure_eq_ok, not_or, Bool.not_eq_false,
      Nat.not_lt, hpos, true_imp_iff, List.filter_cons, decide_true, if_true, List.filter_nil]
    rw [@eq_comm _ paid]
  · have hzero : amount = 0 := by omega
    rw [if_neg hpos, Except.ok.injEq, @eq_comm _ paid]
    simp [hzero]

theorem payBonds_eq_ok_iff {winner : Address} {pot : ℕ}
    (hpot : pot = (state.game.games gameId).sequencerBond +
      (state.game.games gameId).challengerBond) :
    payBonds deployment state gameId winner payout = .ok next ↔
      pot * 95 < 2 ^ 128 ∧ pot ≤ state.game.balance ∧
        (0 < winnerShare pot → payout.winnerAccepts = true) ∧
        (0 < pot - winnerShare pot → payout.treasuryAccepts = true) ∧
        next = { state with
          game := { state.game with
            balance := state.game.balance - pot
            transfers := state.game.transfers ++ settlementTransfers winner
              deployment.game.treasury pot } } := by
  have hle := winnerShare_le pot
  have hsplit : settlementTransfers winner deployment.game.treasury pot =
      [(winner, winnerShare pot)].filter (fun transfer => 0 < transfer.2) ++
        [(deployment.game.treasury, pot - winnerShare pot)].filter
          (fun transfer => 0 < transfer.2) := by
    rw [← List.filter_append]
    rfl
  simp only [payBonds, bind_eq_ok, checkedAdd_eq_ok, checkedMul_eq_ok,
    pure_eq_ok, ← hpot, sendEther_eq_ok_iff]
  constructor
  · rintro ⟨total, ⟨_, rfl⟩, scaled, ⟨hscaled, rfl⟩, first, ⟨hwinner, rfl⟩,
      second, ⟨htreasury, rfl⟩, rfl⟩
    refine ⟨hscaled, ?_, fun hpos => (hwinner hpos).1, fun hpos => (htreasury hpos).1, ?_⟩
    · have hshare : 0 < winnerShare pot → winnerShare pot ≤ state.game.balance :=
        fun hpos => (hwinner hpos).2
      have hrest : 0 < pot - winnerShare pot →
          pot - winnerShare pot ≤ state.game.balance - winnerShare pot :=
        fun hpos => (htreasury hpos).2
      omega
    · rw [hsplit, ← List.append_assoc]
      have hbalance : state.game.balance - winnerShare pot -
          (pot - winnerShare pot) = state.game.balance - pot := by
        omega
      rw [← hbalance]
      rfl
  · rintro ⟨hscaled, hbalance, hwinner, htreasury, rfl⟩
    refine ⟨pot, ⟨by omega, rfl⟩, _, ⟨hscaled, rfl⟩, _, ⟨?_, rfl⟩, _, ⟨?_, rfl⟩, ?_⟩
    · intro hpos
      exact ⟨hwinner hpos, by change winnerShare pot ≤ _; omega⟩
    · intro hpos
      refine ⟨htreasury hpos, ?_⟩
      change pot - winnerShare pot ≤ state.game.balance - winnerShare pot
      omega
    · have hbalance : state.game.balance - winnerShare pot -
          (pot - winnerShare pot) = state.game.balance - pot := by
        omega
      rw [hsplit, ← List.append_assoc, ← hbalance]
      rfl

/-- The storage of both contracts after a settlement, up to bonds, balances
and the reverted range. -/
structure Settled (state next : State) (gameId : ℕ) (finalStatus : GameStatus) : Prop where
  games : ∃ bond, next.game.games = update state.game.games gameId
    { state.game.games gameId with
      status := finalStatus
      sequencerBond := bond }
  nextGameId : next.game.nextGameId = state.game.nextGameId
  active : next.game.activeGameForLogIndex = update
    state.game.activeGameForLogIndex (state.game.games gameId).high.idx 0
  blockNumber : next.blockNumber = state.blockNumber
  roots : RootsSettled state.submission next.submission
    (state.game.games gameId).disputedLogIndex finalStatus.challengerWins

theorem informSubmission_effect
    (hinform : informSubmission deployment context state gameId challengerWins = .ok next) :
    (∃ bond, next.game.games = update state.game.games gameId
        { state.game.games gameId with sequencerBond := bond }) ∧
      next.game.nextGameId = state.game.nextGameId ∧
      next.game.activeGameForLogIndex = state.game.activeGameForLogIndex ∧
      next.blockNumber = state.blockNumber ∧
      RootsSettled state.submission next.submission
        (state.game.games gameId).disputedLogIndex challengerWins := by
  cases challengerWins with
  | true =>
    simp only [informSubmission, if_true, bind_eq_ok, pure_eq_ok] at hinform
    obtain ⟨slashed, hslash, hrevert⟩ := hinform
    subst hrevert
    obtain ⟨hgames, hid, hactive, hblock, hroots⟩ := trySlash_effect hslash
    obtain ⟨hgame, hblock', hsame⟩ := @tryRevert_effect deployment context slashed gameId
    rw [hgame, hblock']
    exact ⟨hgames, hid, hactive, hblock, hroots.trans (.of_roots_eq hsame)⟩
  | false =>
    simp only [informSubmission, Bool.false_eq_true, if_false, Except.ok.injEq] at hinform
    subst hinform
    obtain ⟨hgame, hblock, hroots⟩ := @tryClear_effect deployment context state gameId
    rw [hgame, hblock]
    refine ⟨⟨(state.game.games gameId).sequencerBond, ?_⟩, rfl, rfl, rfl, hroots⟩
    simp

theorem settle_effect {finalStatus : GameStatus}
    (hsettle : settle deployment context state gameId finalStatus payout = .ok next) :
    Settled state next gameId finalStatus := by
  simp only [settle, bind_eq_ok] at hsettle
  obtain ⟨informed, hinform, hpay⟩ := hsettle
  obtain ⟨_, _, _, _, rfl⟩ := (payBonds_eq_ok_iff rfl).mp hpay
  obtain ⟨⟨bond, hgames⟩, hid, hactive, hblock, hroots⟩ := informSubmission_effect hinform
  refine ⟨⟨bond, ?_⟩, hid, hactive, hblock, ?_⟩
  · rw [hgames]
    simp [closeGame]
  · simpa [closeGame] using hroots

structure Opened (deployment : Deployment) (context : CallContext)
    (state next : State) (disputedLogIndex : UInt64) (lowCommit : Bytes32)
    (lowLogIndex : UInt64) : Prop where
  unlocked : state.game.activeGameForLogIndex disputedLogIndex = 0
  low_lt : lowLogIndex < disputedLogIndex
  submitted : state.submission.IsSubmitted disputedLogIndex
  unfinalised : (state.submission.roots disputedLogIndex).finalised = false
  undisputed : (state.submission.roots disputedLogIndex).disputed = false
  nextGameId : next.game.nextGameId = state.game.nextGameId + 1
  games : ∃ turnDeadline, next.game.games = update
    state.game.games (state.game.nextGameId + 1)
    (openedGame deployment context (state.game.games (state.game.nextGameId + 1))
      (state.submission.roots disputedLogIndex) disputedLogIndex lowCommit lowLogIndex turnDeadline)
  active : next.game.activeGameForLogIndex = update
    state.game.activeGameForLogIndex disputedLogIndex (state.game.nextGameId + 1)
  roots : next.submission.roots = update state.submission.roots disputedLogIndex
    { state.submission.roots disputedLogIndex with disputed := true }

theorem initiateChallenge_effect {challengerCommit : Bytes32}
    (hcall : initiateChallenge deployment context state disputedLogIndex
      challengerCommit lowCommit lowLogIndex = .ok next) :
    Opened deployment context state next disputedLogIndex lowCommit
      lowLogIndex := by
  simp only [initiateChallenge, bind_eq_ok, revertIf_eq_ok, exists_const,
    checkedAdd_eq_ok, mapError_eq_ok, pure_eq_ok, ne_eq, not_not, Bool.not_eq_true] at hcall
  obtain ⟨_, hunlocked, hlow, _, _, _, gameId, ⟨_, hgameId⟩, turnDeadline, _,
    submission, hmark, hnext⟩ := hcall
  obtain ⟨_, hsubmitted, hfinalised, hdisputed, _, hroots⟩ := markDisputed_effect hmark
  subst hgameId hnext
  exact ⟨hunlocked, by simpa using hlow, hsubmitted, hfinalised, hdisputed,
    rfl, ⟨turnDeadline, rfl⟩, rfl, hroots⟩

theorem Opened.root_kept (hopened : Opened deployment context state next disputedLogIndex
      lowCommit lowLogIndex) (logIndex : UInt64) :
    ∃ disputed, next.submission.roots logIndex =
      { state.submission.roots logIndex with disputed := disputed } := by
  rw [hopened.roots]
  by_cases hindex : logIndex = disputedLogIndex
  · subst hindex
    exact ⟨true, update_self _ _ _⟩
  · exact ⟨_, update_of_ne hindex _ _⟩

/-- A bisection move changes one running game and passes the turn; the
pending midpoint is there after it exactly when it was not before. -/
structure Moved (state next : State) (gameId : ℕ) (game : Game) : Prop where
  next_eq : next = state.setGame gameId game
  running : (state.game.games gameId).status = .inProgress
  status : game.status = .inProgress
  pending : game.hasPendingMidpoint = !(state.game.games gameId).hasPendingMidpoint
  turn : game.turn = (state.game.games gameId).turn.flip
  disputed : game.disputedLogIndex = (state.game.games gameId).disputedLogIndex
  midpoint : (state.game.games gameId).hasPendingMidpoint = false →
    (state.game.games gameId).low.idx < (state.game.games gameId).high.idx

theorem checkMove_effect {game : Game} {pending : Bool} {missing : GameError}
    (hcheck : checkMove deployment context game pending missing = .ok ()) :
    game.status = .inProgress ∧ game.hasPendingMidpoint = pending := by
  simp only [checkMove, bind_eq_ok, revertIf_eq_ok, exists_const, ne_eq, not_not] at hcheck
  obtain ⟨_, hstatus, _, hpending, _⟩ := hcheck
  exact ⟨hstatus, hpending⟩

theorem submitMidpoint_effect {midpointCommit : Bytes32}
    (hcall : submitMidpoint deployment context state gameId midpointCommit = .ok next) :
    ∃ game, Moved state next gameId game := by
  simp only [submitMidpoint, bind_eq_ok, revertIf_eq_ok, exists_const, pure_eq_ok] at hcall
  obtain ⟨⟨⟩, hcheck, sum, _, hrange, turnDeadline, _, hnext⟩ := hcall
  obtain ⟨hstatus, hpending⟩ := checkMove_effect hcheck
  refine ⟨_, hnext.symm, hstatus, hstatus, by simp [hpending], rfl, rfl, ?_⟩
  intro _
  rw [not_or, UInt64.not_le, UInt64.not_le] at hrange
  exact UInt64.lt_trans hrange.1 hrange.2

theorem respondToMidpoint_effect {agree : Bool}
    (hcall : respondToMidpoint deployment context state gameId agree = .ok next) :
    ∃ game, Moved state next gameId game := by
  simp only [respondToMidpoint, bind_eq_ok, revertIf_eq_ok, exists_const, pure_eq_ok] at hcall
  obtain ⟨⟨⟩, hcheck, depth, _, _, turnDeadline, _, hnext⟩ := hcall
  obtain ⟨hstatus, hpending⟩ := checkMove_effect hcheck
  refine ⟨_, hnext.symm, hstatus, hstatus, by simp [hpending], rfl, rfl, ?_⟩
  intro hnone
  rw [hpending] at hnone
  cases hnone

def verdictOf (turn : TurnSide) (matched : Bool) : GameStatus :=
  match turn, matched with
  | .sequencer, true => .sequencerWon
  | .sequencer, false => .challengerWon
  | .challenger, true => .challengerWon
  | .challenger, false => .sequencerWon

theorem terminateOnSingleStep_effect {actionKind : UInt8} {actionFields : Bytes}
    {signer : UInt64} {cellProofs : List StepVM.CellProof} {claimedPostCommit : Bytes32}
    (hcall : terminateOnSingleStep deployment context state gameId actionKind
      actionFields signer cellProofs claimedPostCommit payout = .ok next) :
    (state.game.games gameId).status = .inProgress ∧
      (state.game.games gameId).low.idx < (state.game.games gameId).high.idx ∧
      (state.game.games gameId).hasPendingMidpoint = false ∧
      ∃ computed, StepVM.executeStep (state.game.games gameId).low.commit actionFields
          signer cellProofs actionKind = .ok computed ∧
        Settled state next gameId
          (verdictOf (state.game.games gameId).turn (decide (computed = claimedPostCommit))) := by
  simp only [terminateOnSingleStep, bind_eq_ok, revertIf_eq_ok, exists_const,
    checkedSub64_eq_ok, mapError_eq_ok, ne_eq, not_not, Bool.not_eq_true] at hcall
  obtain ⟨_, hstatus, gap, ⟨hle, hgap⟩, hone, hpending, _, computed, hcomputed, hsettle⟩ := hcall
  refine ⟨hstatus, ?_, hpending, computed, hcomputed, ?_⟩
  · have hne : (state.game.games gameId).low.idx ≠ (state.game.games gameId).high.idx := by
      intro heq
      rw [heq, hone] at hgap
      simp at hgap
    exact UInt64.lt_of_le_of_ne hle hne
  · by_cases hmatch : computed = claimedPostCommit
    · rw [if_pos hmatch] at hsettle
      cases hturn : (state.game.games gameId).turn <;>
        simpa [hturn, verdictOf, hmatch] using settle_effect hsettle
    · rw [if_neg hmatch] at hsettle
      cases hturn : (state.game.games gameId).turn <;>
        simpa [hturn, verdictOf, hmatch] using settle_effect hsettle

theorem claimTimeout_effect
    (hcall : claimTimeout deployment context state gameId payout = .ok next) :
    (state.game.games gameId).status = .inProgress ∧ Settled state next gameId
        (if (state.game.games gameId).turn = .sequencer
          then .timedOutSequencer else .timedOutChallenger) := by
  simp only [claimTimeout, bind_eq_ok, revertIf_eq_ok, exists_const, ne_eq, not_not] at hcall
  obtain ⟨_, hstatus, _, hsettle⟩ := hcall
  exact ⟨hstatus, settle_effect hsettle⟩

/-- When a game may end with the status.  The sequencer is favoured only in a
game with a range, or by a challenger who is late. -/
structure Ends (game : Game) (finalStatus : GameStatus) : Prop where
  running : game.status = .inProgress
  ended : finalStatus ≠ .inProgress
  favoured : finalStatus.challengerWins = false →
    game.turn = .challenger ∨ game.low.idx < game.high.idx

theorem callGame_cases {call : GameCall}
    (hcall : callGame deployment context state call = .ok next) :
    (∃ disputedLogIndex challengerCommit lowCommit lowLogIndex,
        call = .initiateChallenge disputedLogIndex challengerCommit lowCommit lowLogIndex ∧
        Opened deployment context state next disputedLogIndex lowCommit lowLogIndex) ∨
      (∃ gameId game, Moved state next gameId game) ∨
      (∃ gameId finalStatus, Ends (state.game.games gameId) finalStatus ∧
          Settled state next gameId finalStatus) := by
  cases call with
  | initiateChallenge =>
    exact .inl ⟨_, _, _, _, rfl, initiateChallenge_effect hcall⟩
  | submitMidpoint gameId =>
    exact .inr (.inl ⟨gameId, submitMidpoint_effect hcall⟩)
  | respondToMidpoint gameId =>
    exact .inr (.inl ⟨gameId, respondToMidpoint_effect hcall⟩)
  | terminateOnSingleStep gameId =>
    obtain ⟨hstatus, hrange, _, computed, _, hsettled⟩ := terminateOnSingleStep_effect hcall
    refine .inr (.inr ⟨gameId, _, ⟨hstatus, ?_, fun _ => .inr hrange⟩, hsettled⟩)
    unfold verdictOf
    split <;> simp
  | claimTimeout gameId =>
    obtain ⟨hstatus, hsettled⟩ := claimTimeout_effect hcall
    refine .inr (.inr ⟨gameId, _, ⟨hstatus, ?_, ?_⟩, hsettled⟩)
    · split <;> simp
    · cases hturn : (state.game.games gameId).turn with
      | sequencer => simp [GameStatus.challengerWins]
      | challenger => simp

end Effects

end FaultProof
end Canon
