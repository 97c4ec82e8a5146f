import Canon.FaultProofFinality

/-!
# The movement of bonds in one call

The submission contract keeps one bond for every root until the root is finalised or
the bond is slashed; the game contract keeps the bond of every challenger until the
game is settled.  A slash inside a settlement is tried and its failure is ignored;
whether it happens can be read off the state before the settlement.
-/

namespace Canon

open Function List

namespace StateRoots

section Accounts

variable {params : SubmissionParams} {context : CallContext} {state next : Submission}

variable {logIndex : UInt64} {stateCommit prevLogEntryHash : Bytes32} {payoutAccepted : Bool}

@[simp] theorem Submission.releaseOutstanding_setRoot
    (state : Submission) (logIndex : UInt64) (root : SubmittedRoot) (account : Address) :
    ((state.setRoot logIndex root).releaseOutstanding account).outstandingRootsCount =
      (state.releaseOutstanding account).outstandingRootsCount := by
  unfold Submission.releaseOutstanding Submission.setRoot
  split <;> rfl

theorem submitStateRoot_accounts (hcall : submitStateRoot params context state logIndex stateCommit
      prevLogEntryHash = .ok next) :
    context.value = params.submissionBond ∧
      next.balance = state.balance + params.submissionBond ∧
      (state.outstandingRootsCount params.sequencer).toNat + 1 < 2 ^ 64 ∧
      next.outstandingRootsCount = update state.outstandingRootsCount params.sequencer
        (state.outstandingRootsCount params.sequencer + 1) := by
  simp only [submitStateRoot, bind_eq_ok, revertIf_eq_ok, exists_const,
    checkedAdd64_eq_ok, pure_eq_ok, ne_eq, not_not] at hcall
  obtain ⟨_, hsender, hvalue, _, earliest, _, _, _, ⟨⟩, _, outstanding, ⟨hlt, hsum⟩, hnext⟩ := hcall
  rw [hsender] at hlt hsum
  rw [← hnext, ← hsum, hsender, hvalue]
  exact ⟨rfl, rfl, hlt, rfl⟩

theorem finaliseStateRoot_accounts
    (hcall : finaliseStateRoot params context state logIndex payoutAccepted = .ok next) :
    (state.roots logIndex).bond ≤ state.balance ∧
      next.balance = state.balance - (state.roots logIndex).bond ∧
      next.outstandingRootsCount = (state.releaseOutstanding
        (state.roots logIndex).sequencer).outstandingRootsCount := by
  simp only [finaliseStateRoot, bind_eq_ok, revertIf_eq_ok, exists_const, pure_eq_ok] at hcall
  obtain ⟨_, _, _, _, _, earliest, _, _, hpaid, hnext⟩ := hcall
  rw [← hnext]
  refine ⟨?_, rfl, state.releaseOutstanding_setRoot _ _ _⟩
  by_contra hshort
  exact hpaid ⟨by omega, .inr (by omega)⟩

theorem markDisputed_accounts (hcall : markDisputed params context state logIndex = .ok next) :
    next.balance = state.balance ∧
      next.outstandingRootsCount = state.outstandingRootsCount := by
  simp only [markDisputed, bind_eq_ok, revertIf_eq_ok, exists_const, pure_eq_ok] at hcall
  obtain ⟨_, _, _, _, _, _, hnext⟩ := hcall
  rw [← hnext]
  exact ⟨rfl, rfl⟩

def Submission.CanSlash (state : Submission) (entered : Bool) (logIndex : UInt64) : Prop :=
  entered = false ∧ state.IsSubmitted logIndex ∧ (state.roots logIndex).finalised = false ∧
    (state.roots logIndex).bond ≠ 0 ∧ (state.roots logIndex).bond ≤ state.balance

instance (state : Submission) (entered : Bool) (logIndex : UInt64) :
    Decidable (state.CanSlash entered logIndex) := inferInstanceAs (Decidable (_ ∧ _ ∧ _ ∧ _ ∧ _))

def Submission.afterSlash (state : Submission) (logIndex : UInt64) :
    Submission :=
  { (state.setRoot logIndex { state.roots logIndex with bond := 0 }
      ).releaseOutstanding (state.roots logIndex).sequencer with
    balance := state.balance - (state.roots logIndex).bond }

theorem slashSequencerBond_eq_ok_iff {recipient : Address}
    (hvalue : context.value = 0) (hsender : context.sender = params.faultProofGame)
    (hrecipient : recipient ≠ 0) :
    slashSequencerBond params context state logIndex recipient true = .ok next ↔
      state.CanSlash context.submissionEntered logIndex ∧ next = state.afterSlash logIndex := by
  simp only [slashSequencerBond, bind_eq_ok, revertIf_eq_ok, exists_const,
    pure_eq_ok, ne_eq, not_not, Bool.not_eq_true, hvalue, hsender, hrecipient,
    not_false_eq_true, true_and, Bool.true_eq_false, false_or, Nat.not_lt]
  constructor
  · rintro ⟨hentered, hsubmitted, hfinalised, hbond, hcovered, hnext⟩
    exact ⟨⟨hentered, hsubmitted, hfinalised, hbond, hcovered⟩, hnext.symm⟩
  · rintro ⟨⟨hentered, hsubmitted, hfinalised, hbond, hcovered⟩, hnext⟩
    exact ⟨hentered, hsubmitted, hfinalised, hbond, hcovered, hnext.symm⟩

@[simp] theorem Submission.afterSlash_roots (state : Submission) (logIndex : UInt64) :
    (state.afterSlash logIndex).roots = update state.roots logIndex
      { state.roots logIndex with bond := 0 } := by
  simp [Submission.afterSlash]

@[simp] theorem Submission.afterSlash_balance (state : Submission) (logIndex : UInt64) :
    (state.afterSlash logIndex).balance = state.balance - (state.roots logIndex).bond := rfl

@[simp] theorem Submission.afterSlash_outstanding (state : Submission) (logIndex : UInt64) :
    (state.afterSlash logIndex).outstandingRootsCount =
      (state.releaseOutstanding (state.roots logIndex).sequencer).outstandingRootsCount :=
  state.releaseOutstanding_setRoot _ _ _

theorem clearDisputed_eq_ok_iff {logIndex : UInt64} (hvalue : context.value = 0)
    (hsender : context.sender = params.faultProofGame) :
    clearDisputed params context state logIndex = .ok next ↔
      (context.submissionEntered = false ∧ state.IsSubmitted logIndex) ∧
        next = state.setRoot logIndex { state.roots logIndex with disputed := false } := by
  simp only [clearDisputed, bind_eq_ok, revertIf_eq_ok, exists_const,
    pure_eq_ok, ne_eq, not_not, Bool.not_eq_true, hvalue, hsender, true_and,
    Submission.IsSubmitted, and_assoc]
  rw [@eq_comm _ next]

structure Submission.SameAccounts (state other : Submission) : Prop where
  roots : other.roots = state.roots
  balance : other.balance = state.balance
  outstanding : other.outstandingRootsCount = state.outstandingRootsCount

def Submission.afterSettlement (state : Submission) (entered : Bool)
    (logIndex : UInt64) (challengerWins : Bool) : Submission :=
  if challengerWins then
    if state.CanSlash entered logIndex then state.afterSlash logIndex
    else state
  else if entered = false ∧ state.IsSubmitted logIndex then
    state.setRoot logIndex { state.roots logIndex with disputed := false }
  else state

/-- What one step can do to the records and the money of the contract: take a
fresh root with its bond, let the bond of a submitted root go, or set or clear
a mark. -/
inductive RootChange (params : SubmissionParams) (before after : Submission) : Prop
  | kept (haccounts : before.SameAccounts after)
  | submitted (logIndex : UInt64) (root : SubmittedRoot) (hfresh : ¬ before.IsSubmitted logIndex)
      (hchain : 0 < logIndex → before.IsSubmitted (logIndex - 1) ∧
        (before.roots (logIndex - 1)).expectedNextHash = root.prevLogEntryHash)
      (hroots : after.roots = update before.roots logIndex root)
      (hbond : root.bond = params.submissionBond) (hsequencer : root.sequencer = params.sequencer)
      (hbalance : after.balance = before.balance + params.submissionBond)
      (hcount : (before.outstandingRootsCount params.sequencer).toNat + 1 < 2 ^ 64)
      (houtstanding : after.outstandingRootsCount = update
        before.outstandingRootsCount params.sequencer
        (before.outstandingRootsCount params.sequencer + 1))
  | released (logIndex : UInt64) (finalised : Bool) (hsubmitted : before.IsSubmitted logIndex)
      (hroots : after.roots = update before.roots logIndex
        { before.roots logIndex with finalised := finalised, bond := 0 })
      (hkind : (finalised = true ∧ (before.roots logIndex).finalised = false) ∨
        (before.roots logIndex).bond ≠ 0) (hcovered : (before.roots logIndex).bond ≤ before.balance)
      (hbalance : after.balance = before.balance - (before.roots logIndex).bond)
      (houtstanding : after.outstandingRootsCount =
        (before.releaseOutstanding (before.roots logIndex).sequencer).outstandingRootsCount)
  | flagged (logIndex : UInt64) (disputed : Bool)
      (hroots : after.roots = update before.roots logIndex
        { before.roots logIndex with disputed := disputed })
      (hbalance : after.balance = before.balance)
      (houtstanding : after.outstandingRootsCount = before.outstandingRootsCount)

theorem RootChange.of_submit (hcall : submitStateRoot params context state logIndex stateCommit
      prevLogEntryHash = .ok next) : RootChange params state next := by
  obtain ⟨hsender, hfresh, hchain, _, hroots⟩ := submitStateRoot_effect hcall
  obtain ⟨hvalue, hbalance, hcount, houtstanding⟩ := submitStateRoot_accounts hcall
  refine .submitted logIndex _ hfresh hchain hroots ?_ hsender hbalance hcount houtstanding
  rw [hvalue]
  exact Nat.mod_eq_of_lt params.submissionBond_lt

theorem RootChange.of_finalise
    (hcall : finaliseStateRoot params context state logIndex payoutAccepted = .ok next) :
    RootChange params state next := by
  obtain ⟨hsubmitted, hopen, _, _, hroots⟩ := finaliseStateRoot_effect hcall
  obtain ⟨hcovered, hbalance, houtstanding⟩ := finaliseStateRoot_accounts hcall
  exact .released logIndex true hsubmitted hroots (.inl ⟨rfl, hopen⟩) hcovered hbalance houtstanding

theorem RootChange.of_settlement {entered : Bool} {challengerWins : Bool}
    (hafter : (state.afterSettlement entered logIndex challengerWins).SameAccounts next) :
    RootChange params state next := by
  unfold Submission.afterSettlement at hafter
  split at hafter
  · split at hafter
    · rename_i hcan
      refine .released logIndex (state.roots logIndex).finalised hcan.2.1 ?_
        (.inr hcan.2.2.2.1) hcan.2.2.2.2 ?_ ?_
      · rw [hafter.roots, Submission.afterSlash_roots]
      · rw [hafter.balance, Submission.afterSlash_balance]
      · rw [hafter.outstanding, Submission.afterSlash_outstanding]
    · exact .kept hafter
  · split at hafter
    · exact .flagged logIndex false hafter.roots hafter.balance hafter.outstanding
    · exact .kept hafter

end Accounts

end StateRoots

namespace FaultProof

open StateRoots

section Settlements

variable {deployment : Deployment} {context : CallContext} {state next : State} {gameId : ℕ}
  {finalStatus : GameStatus}

theorem trySlash_eq_ok_iff
    (hbond : (state.submission.roots (state.game.games gameId).disputedLogIndex).bond < 2 ^ 128) :
    trySlash deployment context state gameId = .ok next ↔
      if state.submission.CanSlash context.submissionEntered
          (state.game.games gameId).disputedLogIndex then
        (state.game.games gameId).sequencerBond +
            (state.submission.roots (state.game.games gameId).disputedLogIndex).bond < 2 ^ 128 ∧
          next = { state with
            game := { state.game with
              games := update state.game.games gameId
                { state.game.games gameId with
                  sequencerBond := (state.game.games gameId).sequencerBond +
                    (state.submission.roots (state.game.games gameId).disputedLogIndex).bond }
              balance := state.game.balance + (state.submission.roots
                (state.game.games gameId).disputedLogIndex).bond }
            submission := state.submission.afterSlash (state.game.games gameId).disputedLogIndex }
      else next = state := by
  have hslash : ∀ submission, slashSequencerBond deployment.submission
          (nestedContext deployment context) state.submission
          (state.game.games gameId).disputedLogIndex deployment.game.self true = .ok submission ↔
        state.submission.CanSlash context.submissionEntered
            (state.game.games gameId).disputedLogIndex ∧
          submission = state.submission.afterSlash (state.game.games gameId).disputedLogIndex := by
    intro submission
    have hself : deployment.game.self ≠ 0 := by
      rw [← deployment.wired]
      exact deployment.submission.faultProofGame_ne_zero
    exact slashSequencerBond_eq_ok_iff rfl deployment.wired.symm hself
  simp only [trySlash]
  split
  · rename_i error hcall
    have hcannot : ¬ state.submission.CanSlash context.submissionEntered
        (state.game.games gameId).disputedLogIndex := by
      intro hcan
      have hok := (hslash _).mpr ⟨hcan, rfl⟩
      rw [hcall] at hok
      cases hok
    rw [if_neg hcannot, Except.ok.injEq, eq_comm]
  · rename_i submission hcall
    obtain ⟨hcan, rfl⟩ := (hslash submission).mp hcall
    have hcovered := hcan.2.2.2.2
    rw [if_pos hcan]
    simp only [bind_eq_ok, checkedAdd_eq_ok, pure_eq_ok,
      Submission.afterSlash_balance, Nat.sub_sub_self hcovered, Nat.mod_eq_of_lt hbond]
    constructor
    · rintro ⟨bond, ⟨hlt, hsum⟩, hnext⟩
      rw [← hnext, ← hsum]
      exact ⟨hlt, rfl⟩
    · rintro ⟨hlt, hnext⟩
      exact ⟨_, ⟨hlt, rfl⟩, hnext.symm⟩

theorem tryRevert_accounts (gameId : ℕ) :
    state.submission.SameAccounts (tryRevert deployment context state gameId).submission := by
  unfold tryRevert
  split
  · exact ⟨rfl, rfl, rfl⟩
  · rename_i submission hcall
    simp only [revertStateRootsFrom, bind_eq_ok, revertIf_eq_ok, exists_const, pure_eq_ok] at hcall
    obtain ⟨_, _, _, hnext⟩ := hcall
    rw [← hnext]
    exact ⟨rfl, rfl, rfl⟩

theorem tryClear_submission (gameId : ℕ) :
    (tryClear deployment context state gameId).submission =
      state.submission.afterSettlement context.submissionEntered
        (state.game.games gameId).disputedLogIndex false := by
  have hclear := fun submission => @clearDisputed_eq_ok_iff
    deployment.submission (nestedContext deployment context)
    state.submission submission (state.game.games gameId).disputedLogIndex
    rfl deployment.wired.symm
  unfold tryClear Submission.afterSettlement
  simp only [Bool.false_eq_true, if_false]
  split
  · rename_i error hcall
    rw [if_neg]
    intro hfree
    have hok := (hclear _).mpr ⟨hfree, rfl⟩
    rw [hcall] at hok
    cases hok
  · rename_i submission hcall
    obtain ⟨hfree, hsubmission⟩ := (hclear submission).mp hcall
    exact hsubmission.trans (if_pos hfree).symm

def slashedBond (state : State) (entered : Bool) (gameId : ℕ) (finalStatus : GameStatus) : ℕ :=
  if finalStatus.challengerWins = true ∧
      state.submission.CanSlash entered (state.game.games gameId).disputedLogIndex then
    (state.submission.roots (state.game.games gameId).disputedLogIndex).bond
  else 0

def settlementPot (state : State) (entered : Bool) (gameId : ℕ) (finalStatus : GameStatus) : ℕ :=
  (state.game.games gameId).sequencerBond + slashedBond state entered gameId finalStatus +
    (state.game.games gameId).challengerBond

theorem settlementTransfers_sum (winner treasury : Address) (pot : ℕ) :
    ((settlementTransfers winner treasury pot).map Prod.snd).sum = pot := by
  have hle := winnerShare_le pot
  unfold settlementTransfers
  by_cases hwinner : 0 < winnerShare pot <;>
    by_cases htreasury : 0 < pot - winnerShare pot <;>
    simp only [filter_cons, filter_nil, hwinner, htreasury,
      decide_true, decide_false, if_true, Bool.false_eq_true, if_false,
      map_cons, map_nil, sum_cons, sum_nil] <;>
    omega

theorem informSubmission_accounts
    (hbond : (state.submission.roots (state.game.games gameId).disputedLogIndex).bond < 2 ^ 128)
    (hinform : informSubmission deployment context state gameId
      finalStatus.challengerWins = .ok next) :
    next.game = { state.game with
        games := update state.game.games gameId
          { state.game.games gameId with
            sequencerBond := (state.game.games gameId).sequencerBond +
              slashedBond state context.submissionEntered gameId finalStatus }
        balance := state.game.balance +
          slashedBond state context.submissionEntered gameId finalStatus } ∧
      next.blockNumber = state.blockNumber ∧
      (state.submission.afterSettlement context.submissionEntered
        (state.game.games gameId).disputedLogIndex
        finalStatus.challengerWins).SameAccounts next.submission := by
  unfold slashedBond
  cases hwins : finalStatus.challengerWins with
  | true =>
    rw [hwins] at hinform
    simp only [informSubmission, if_true, bind_eq_ok, pure_eq_ok] at hinform
    obtain ⟨slashed, hslash, hrevert⟩ := hinform
    obtain ⟨hgame, hblock, _⟩ := @tryRevert_effect deployment context slashed gameId
    have haccounts := @tryRevert_accounts deployment context slashed gameId
    rw [← hrevert, hgame, hblock]
    rw [trySlash_eq_ok_iff hbond] at hslash
    unfold Submission.afterSettlement
    by_cases hcan : state.submission.CanSlash context.submissionEntered
        (state.game.games gameId).disputedLogIndex
    · rw [if_pos hcan] at hslash
      rw [hslash.2] at haccounts ⊢
      simp only [hcan, and_self, if_true, true_and]
      exact haccounts
    · rw [if_neg hcan] at hslash
      rw [hslash] at haccounts ⊢
      simp only [hcan, and_false, if_false, if_true, Nat.add_zero, update_eq_self, true_and]
      exact haccounts
  | false =>
    rw [hwins] at hinform
    simp only [informSubmission, Bool.false_eq_true, if_false, Except.ok.injEq] at hinform
    obtain ⟨hgame, hblock, _⟩ := @tryClear_effect deployment context state gameId
    rw [← hinform, hgame, hblock, tryClear_submission]
    simp only [Bool.false_eq_true, false_and, if_false, Nat.add_zero, update_eq_self, true_and]
    exact ⟨rfl, rfl, rfl⟩

def Game.winner (game : Game) (finalStatus : GameStatus) : Address :=
  if finalStatus.challengerWins then game.challenger else game.sequencer

structure Settlement (deployment : Deployment) (entered : Bool)
    (state next : State) (gameId : ℕ) (finalStatus : GameStatus) : Prop where
  games : next.game.games = update state.game.games gameId
    { state.game.games gameId with
      status := finalStatus
      sequencerBond := (state.game.games gameId).sequencerBond +
        slashedBond state entered gameId finalStatus }
  nextGameId : next.game.nextGameId = state.game.nextGameId
  active : next.game.activeGameForLogIndex = update
    state.game.activeGameForLogIndex (state.game.games gameId).high.idx 0
  bounded : settlementPot state entered gameId finalStatus * 95 < 2 ^ 128
  covered : settlementPot state entered gameId finalStatus ≤
    state.game.balance + slashedBond state entered gameId finalStatus
  balance : next.game.balance = state.game.balance + slashedBond state entered gameId finalStatus -
    settlementPot state entered gameId finalStatus
  transfers : next.game.transfers = state.game.transfers ++
    settlementTransfers ((state.game.games gameId).winner finalStatus) deployment.game.treasury
      (settlementPot state entered gameId finalStatus)
  blockNumber : next.blockNumber = state.blockNumber
  submission : (state.submission.afterSettlement entered (state.game.games gameId).disputedLogIndex
    finalStatus.challengerWins).SameAccounts next.submission

theorem settle_accounts {payout : Payout}
    (hbond : (state.submission.roots (state.game.games gameId).disputedLogIndex).bond < 2 ^ 128)
    (hsettle : settle deployment context state gameId finalStatus payout = .ok next) :
    Settlement deployment context.submissionEntered state next gameId
      finalStatus := by
  simp only [settle, bind_eq_ok] at hsettle
  obtain ⟨informed, hinform, hpay⟩ := hsettle
  have hgame : (closeGame state gameId finalStatus).game.games gameId =
      { state.game.games gameId with status := finalStatus } := by
    simp [closeGame]
  have hslashed : slashedBond (closeGame state gameId finalStatus)
        context.submissionEntered gameId finalStatus =
      slashedBond state context.submissionEntered gameId finalStatus := by
    unfold slashedBond
    rw [hgame]
    rfl
  obtain ⟨hstorage, hblock, haccounts⟩ := informSubmission_accounts
    (by rw [hgame]; exact hbond) hinform
  rw [hslashed, hgame] at hstorage
  rw [hgame] at haccounts
  have hpot : settlementPot state context.submissionEntered gameId finalStatus =
      (informed.game.games gameId).sequencerBond + (informed.game.games gameId).challengerBond := by
    rw [hstorage]
    simp [settlementPot]
  obtain ⟨hbounded, hcovered, _, _, hnext⟩ := (payBonds_eq_ok_iff hpot).mp hpay
  rw [hstorage] at hcovered hnext
  rw [hnext]
  constructor
  · simp [closeGame]
  · rfl
  · rfl
  · exact hbounded
  · exact hcovered
  · rfl
  · rfl
  · exact hblock
  · exact haccounts

theorem settle_favouring_sequencer {gameId : ℕ} {finalStatus : GameStatus}
    (hwins : finalStatus.challengerWins = false)
    (hbounded : ((state.game.games gameId).sequencerBond +
      (state.game.games gameId).challengerBond) * 95 < 2 ^ 128)
    (hcovered : (state.game.games gameId).sequencerBond +
      (state.game.games gameId).challengerBond ≤ state.game.balance) :
    ∃ next, settle deployment context state gameId finalStatus ⟨true, true⟩ = .ok next := by
  have hgame : (tryClear deployment context (closeGame state gameId finalStatus) gameId).game =
        (closeGame state gameId finalStatus).game := (tryClear_effect gameId).1
  have hslot : (closeGame state gameId finalStatus).game.games gameId =
      { state.game.games gameId with status := finalStatus } := by
    simp [closeGame]
  have hpot : (state.game.games gameId).sequencerBond + (state.game.games gameId).challengerBond =
      ((tryClear deployment context (closeGame state gameId finalStatus)
          gameId).game.games gameId).sequencerBond +
        ((tryClear deployment context (closeGame state gameId finalStatus)
          gameId).game.games gameId).challengerBond := by
    rw [hgame, hslot]
  have hinform : informSubmission deployment context (closeGame state gameId finalStatus) gameId
      finalStatus.challengerWins = .ok (tryClear deployment context
        (closeGame state gameId finalStatus) gameId) := by
    rw [hwins]
    rfl
  exact ⟨_, bind_eq_ok.mpr ⟨_, hinform, (payBonds_eq_ok_iff hpot).mpr
    ⟨hbounded, by rw [hgame]; exact hcovered, fun _ => rfl, fun _ => rfl, rfl⟩⟩⟩

end Settlements

/-! ## The calls of the game -/

def GameCall.settles : GameCall → Option ℕ
  | .terminateOnSingleStep gameId _ _ _ _ _ _ => some gameId
  | .claimTimeout gameId _ => some gameId
  | _ => none

def SystemCall.settles : SystemCall → Option ℕ
  | .game _ _ _ call => call.settles
  | _ => none

section Calls

variable {deployment : Deployment} {context : CallContext} {state next : State}

theorem callGame_settle {call : GameCall} {gameId : ℕ}
    (hcall : callGame deployment context state call = .ok next)
    (hsettles : call.settles = some gameId) :
    ∃ finalStatus payout, Ends (state.game.games gameId) finalStatus ∧
      settle deployment context state gameId finalStatus payout = .ok next := by
  cases call with
  | terminateOnSingleStep _ _ _ _ _ _ payout =>
    cases hsettles
    have hends : ∀ finalStatus, finalStatus ≠ .inProgress →
        Ends (state.game.games gameId) finalStatus := by
      intro finalStatus hended
      obtain ⟨hstatus, hrange, _⟩ := terminateOnSingleStep_effect hcall
      exact ⟨hstatus, hended, fun _ => .inr hrange⟩
    simp only [callGame, terminateOnSingleStep, bind_eq_ok, revertIf_eq_ok, exists_const] at hcall
    obtain ⟨_, _, gap, _, _, _, _, computed, _, hsettle⟩ := hcall
    split at hsettle
    all_goals
      refine ⟨_, payout, hends _ ?_, hsettle⟩
      split <;> simp
  | claimTimeout _ payout =>
    cases hsettles
    have hstatus := (claimTimeout_effect hcall).1
    simp only [callGame, claimTimeout, bind_eq_ok, revertIf_eq_ok, exists_const] at hcall
    obtain ⟨_, _, _, hsettle⟩ := hcall
    refine ⟨_, payout, ⟨hstatus, ?_, ?_⟩, hsettle⟩
    · split <;> simp
    · cases hturn : (state.game.games gameId).turn with
      | sequencer => simp [GameStatus.challengerWins]
      | challenger => simp
  | _ => cases hsettles

structure OpenedAccounts (deployment : Deployment) (context : CallContext)
    (state next : State) : Prop where
  value : context.value = deployment.game.minChallengeBond
  balance : next.game.balance = state.game.balance + deployment.game.minChallengeBond
  transfers : next.game.transfers = state.game.transfers
  submissionBalance : next.submission.balance = state.submission.balance
  outstanding : next.submission.outstandingRootsCount = state.submission.outstandingRootsCount
  blockNumber : next.blockNumber = state.blockNumber

structure MoveKeeps (context : CallContext) (before after : Game) : Prop where
  sequencer : after.sequencer = before.sequencer
  challenger : after.challenger = before.challenger
  sequencerBond : after.sequencerBond = before.sequencerBond
  challengerBond : after.challengerBond = before.challengerBond
  inTime : context.blockNumber ≤ before.turnDeadline.toNat

theorem initiateChallenge_accounts
    {disputedLogIndex : UInt64} {challengerCommit lowCommit : Bytes32} {lowLogIndex : UInt64}
    (hcall : initiateChallenge deployment context state disputedLogIndex
      challengerCommit lowCommit lowLogIndex = .ok next) :
    OpenedAccounts deployment context state next := by
  simp only [initiateChallenge, bind_eq_ok, revertIf_eq_ok, exists_const,
    mapError_eq_ok, pure_eq_ok, ne_eq, not_not] at hcall
  obtain ⟨hvalue, _, _, _, _, _, gameId, _, turnDeadline, _, submission, hmark, hnext⟩ := hcall
  obtain ⟨hbalance, houtstanding⟩ := markDisputed_accounts hmark
  rw [← hnext]
  exact ⟨hvalue, by rw [hvalue], rfl, hbalance, houtstanding, rfl⟩

theorem checkMove_inTime {game : Game} {pending : Bool} {missing : GameError}
    (hcheck : checkMove deployment context game pending missing = .ok ()) :
    context.blockNumber ≤ game.turnDeadline.toNat := by
  simp only [checkMove, bind_eq_ok, revertIf_eq_ok, exists_const] at hcheck
  obtain ⟨_, _, hdeadline, _⟩ := hcheck
  exact Nat.not_lt.mp hdeadline

theorem callGame_unsettled {call : GameCall}
    (hcall : callGame deployment context state call = .ok next) (hsettles : call.settles = none) :
    (∃ disputedLogIndex lowCommit lowLogIndex,
        Opened deployment context state next disputedLogIndex lowCommit lowLogIndex ∧
        OpenedAccounts deployment context state next) ∨
      ∃ gameId game, Moved state next gameId game ∧
        MoveKeeps context (state.game.games gameId) game := by
  cases call with
  | initiateChallenge =>
    exact .inl ⟨_, _, _, initiateChallenge_effect hcall, initiateChallenge_accounts hcall⟩
  | submitMidpoint gameId =>
    obtain ⟨game, hmoved⟩ := submitMidpoint_effect hcall
    refine .inr ⟨gameId, game, hmoved, ?_⟩
    simp only [callGame, submitMidpoint, bind_eq_ok, revertIf_eq_ok,
      exists_const, pure_eq_ok] at hcall
    obtain ⟨⟨⟩, hcheck, sum, _, _, turnDeadline, _, hnext⟩ := hcall
    have hgame := congrArg (fun s => s.game.games gameId) (hnext.trans hmoved.next_eq)
    simp only [State.setGame, update_self] at hgame
    rw [← hgame]
    exact ⟨rfl, rfl, rfl, rfl, checkMove_inTime hcheck⟩
  | respondToMidpoint gameId =>
    obtain ⟨game, hmoved⟩ := respondToMidpoint_effect hcall
    refine .inr ⟨gameId, game, hmoved, ?_⟩
    simp only [callGame, respondToMidpoint, bind_eq_ok, revertIf_eq_ok,
      exists_const, pure_eq_ok] at hcall
    obtain ⟨⟨⟩, hcheck, depth, _, _, turnDeadline, _, hnext⟩ := hcall
    have hgame := congrArg (fun s => s.game.games gameId) (hnext.trans hmoved.next_eq)
    simp only [State.setGame, update_self] at hgame
    rw [← hgame]
    exact ⟨rfl, rfl, rfl, rfl, checkMove_inTime hcheck⟩
  | _ => cases hsettles

inductive SystemEffect (deployment : Deployment) (state next : State) : SystemCall → Prop
  | mined (blocks : ℕ) (hnext : next = { state with blockNumber := state.blockNumber + blocks }) :
      SystemEffect deployment state next (.mine blocks)
  | received (value : ℕ)
      (hnext : next = { state with
        game := { state.game with balance := state.game.balance + value } }) :
      SystemEffect deployment state next (.receiveEther value)
  | submitted (sender : Address) (value : ℕ) (logIndex : UInt64)
      (stateCommit prevLogEntryHash : Bytes32) (submission : Submission)
      (hcall : submitStateRoot deployment.submission
        ⟨sender, value, state.blockNumber, false⟩ state.submission logIndex
        stateCommit prevLogEntryHash = .ok submission)
      (hnext : next = { state with submission := submission }) :
      SystemEffect deployment state next (.submission sender value
        (.submitStateRoot logIndex stateCommit prevLogEntryHash))
  | finalised (sender : Address) (value : ℕ) (logIndex : UInt64)
      (payoutAccepted : Bool) (submission : Submission)
      (hcall : finaliseStateRoot deployment.submission
        ⟨sender, value, state.blockNumber, false⟩ state.submission logIndex
        payoutAccepted = .ok submission) (hnext : next = { state with submission := submission }) :
      SystemEffect deployment state next (.submission sender value
        (.finaliseStateRoot logIndex payoutAccepted))
  | opened (sender : Address) (value : ℕ) (reentered : Bool)
      (call : GameCall) (disputedLogIndex : UInt64) (lowCommit : Bytes32)
      (lowLogIndex : UInt64) (hsettles : call.settles = none)
      (hopened : Opened deployment ⟨sender, value, state.blockNumber, reentered⟩ state next
        disputedLogIndex lowCommit lowLogIndex)
      (haccounts : OpenedAccounts deployment
        ⟨sender, value, state.blockNumber, reentered⟩ state next) :
      SystemEffect deployment state next (.game sender value reentered call)
  | moved (sender : Address) (value : ℕ) (reentered : Bool)
      (call : GameCall) (gameId : ℕ) (game : Game) (hsettles : call.settles = none)
      (hmoved : Moved state next gameId game)
      (hkeeps : MoveKeeps ⟨sender, value, state.blockNumber, reentered⟩
        (state.game.games gameId) game) :
      SystemEffect deployment state next (.game sender value reentered call)
  | settled (sender : Address) (value : ℕ) (reentered : Bool)
      (call : GameCall) (gameId : ℕ) (finalStatus : GameStatus)
      (hsettles : call.settles = some gameId) (hends : Ends (state.game.games gameId) finalStatus)
      (hsettlement : Settlement deployment reentered state next gameId finalStatus) :
      SystemEffect deployment state next (.game sender value reentered call)

theorem systemStep_effect {call : SystemCall}
    (hbonds : ∀ logIndex, (state.submission.roots logIndex).bond < 2 ^ 128)
    (hstep : systemStep deployment state call = .ok next) :
    SystemEffect deployment state next call := by
  cases call with
  | mine blocks => exact .mined blocks (Except.ok.inj hstep).symm
  | receiveEther value => exact .received value (Except.ok.inj hstep).symm
  | submission sender value submissionCall =>
    obtain ⟨hsender, submission, hcall, hnext⟩ := systemStep_submission hstep
    rcases submissionCall_cases hsender hcall with
      ⟨logIndex, stateCommit, prevLogEntryHash, rfl, hsubmit⟩ |
      ⟨logIndex, payoutAccepted, rfl, hfinalise⟩
    · exact .submitted sender value logIndex stateCommit prevLogEntryHash submission hsubmit hnext
    · exact .finalised sender value logIndex payoutAccepted submission hfinalise hnext
  | game sender value reentered gameCall =>
    have hcall := mapError_eq_ok.mp hstep
    cases hsettles : gameCall.settles with
    | none =>
      rcases callGame_unsettled hcall hsettles with
        ⟨disputedLogIndex, lowCommit, lowLogIndex, hopened, haccounts⟩ |
        ⟨gameId, game, hmoved, hkeeps⟩
      · exact .opened sender value reentered gameCall disputedLogIndex
          lowCommit lowLogIndex hsettles hopened haccounts
      · exact .moved sender value reentered gameCall gameId game hsettles hmoved hkeeps
    | some gameId =>
      obtain ⟨finalStatus, payout, hends, hsettle⟩ := callGame_settle hcall hsettles
      exact .settled sender value reentered gameCall gameId finalStatus
        hsettles hends (settle_accounts (hbonds _) hsettle)

theorem SystemEffect.rootChange {call : SystemCall}
    (heffect : SystemEffect deployment state next call) :
    RootChange deployment.submission state.submission next.submission := by
  cases heffect with
  | mined _ hnext | received _ hnext =>
    rw [hnext]
    exact .kept ⟨rfl, rfl, rfl⟩
  | submitted _ _ _ _ _ _ hcall hnext =>
    rw [hnext]
    exact .of_submit hcall
  | finalised _ _ _ _ _ hcall hnext =>
    rw [hnext]
    exact .of_finalise hcall
  | opened _ _ _ _ disputedLogIndex _ _ _ hopened haccounts =>
    exact .flagged disputedLogIndex true hopened.roots
      haccounts.submissionBalance haccounts.outstanding
  | moved _ _ _ _ _ _ _ hmoved =>
    rw [hmoved.next_eq]
    exact .kept ⟨rfl, rfl, rfl⟩
  | settled _ _ _ _ _ _ _ _ hsettlement =>
    exact .of_settlement hsettlement.submission

end Calls

end FaultProof
end Canon
