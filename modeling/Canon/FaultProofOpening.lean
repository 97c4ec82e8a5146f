import Canon.FaultProofSettlement

/-!
# The starting point of a game

A challenger names the low end of the disputed range, its index and its commit.
`initiateChallenge` compares the index with the disputed one and nothing else,
so whether the low claim is a finalised root is decided by the arguments of the
call.
-/

namespace Canon
namespace FaultProof

open StateRoots Function

section Records

variable {deployment : Deployment} {state next : State} {context : CallContext}
  {trace : List (State × SystemCall)}

theorem submissionCall_cases {params : SubmissionParams} {before after : Submission}
    {call : SubmissionCall} (hsender : context.sender ≠ params.faultProofGame)
    (hcall : before.call params context call = .ok after) :
    (∃ logIndex stateCommit prevLogEntryHash,
        call = .submitStateRoot logIndex stateCommit prevLogEntryHash ∧
          submitStateRoot params context before logIndex stateCommit prevLogEntryHash = .ok after) ∨
      (∃ logIndex payoutAccepted, call = .finaliseStateRoot logIndex payoutAccepted ∧
          finaliseStateRoot params context before logIndex payoutAccepted = .ok after) := by
  cases call with
  | submitStateRoot =>
    exact .inl ⟨_, _, _, rfl, hcall⟩
  | finaliseStateRoot =>
    exact .inr ⟨_, _, rfl, hcall⟩
  | markDisputed =>
    exact absurd (markDisputed_effect hcall).1 hsender
  | clearDisputed =>
    exact absurd (clearDisputed_effect hcall).1 hsender
  | slashSequencerBond =>
    exact absurd (slashSequencerBond_effect hcall).1 hsender
  | revertStateRootsFrom =>
    exact absurd (revertStateRootsFrom_effect hcall).1 hsender

theorem submissionCall_root {params : SubmissionParams} {before after : Submission}
    {call : SubmissionCall} {logIndex : UInt64} (hsender : context.sender ≠ params.faultProofGame)
    (hcall : before.call params context call = .ok after)
    (hsubmitted : before.IsSubmitted logIndex) :
    after.roots logIndex = before.roots logIndex ∨
      after.roots logIndex = { before.roots logIndex with finalised := true, bond := 0 } := by
  rcases submissionCall_cases hsender hcall with
    ⟨fresh, stateCommit, prevLogEntryHash, _, hsubmit⟩ |
    ⟨finalised, payoutAccepted, _, hfinalise⟩
  · obtain ⟨_, hfresh, _, _, hroots⟩ := submitStateRoot_effect hsubmit
    have hindex : logIndex ≠ fresh := by
      intro heq
      exact hfresh (heq ▸ hsubmitted)
    rw [hroots]
    exact .inl (update_of_ne hindex _ _)
  · obtain ⟨_, _, _, _, hroots⟩ := finaliseStateRoot_effect hfinalise
    rw [hroots]
    by_cases hindex : logIndex = finalised
    · subst hindex
      exact .inr (update_self ..)
    · exact .inl (update_of_ne hindex _ _)

theorem systemStep_submission {sender : Address} {value : ℕ} {call : SubmissionCall}
    (hstep : systemStep deployment state (.submission sender value call) = .ok next) :
    sender ≠ deployment.submission.faultProofGame ∧
      ∃ submission, state.submission.call deployment.submission
          ⟨sender, value, state.blockNumber, false⟩ call = .ok submission ∧
        next = { state with submission := submission } := by
  simp only [systemStep, bind_eq_ok, revertIf_eq_ok, exists_const,
    mapError_eq_ok, pure_eq_ok] at hstep
  obtain ⟨hsender, submission, hcall, hnext⟩ := hstep
  exact ⟨by rwa [deployment.wired], submission, hcall, hnext.symm⟩

structure RecordKept (before after : SubmittedRoot) : Prop where
  stateCommit : after.stateCommit = before.stateCommit
  submittedAtBlock : after.submittedAtBlock = before.submittedAtBlock
  finalised : before.finalised = true → after.finalised = true

theorem RecordKept.refl (root : SubmittedRoot) : RecordKept root root := ⟨rfl, rfl, id⟩

theorem RecordKept.callGame {call : GameCall}
    (hcall : FaultProof.callGame deployment context state call = .ok next) (logIndex : UInt64) :
    RecordKept (state.submission.roots logIndex) (next.submission.roots logIndex) := by
  rcases callGame_cases hcall with
    ⟨disputedLogIndex, _, _, _, _, hopened⟩ | ⟨moved, game, hmoved⟩ |
    ⟨ended, finalStatus, _, hsettled⟩
  · obtain ⟨disputed, hroot⟩ := hopened.root_kept logIndex
    rw [hroot]
    exact ⟨rfl, rfl, id⟩
  · rw [hmoved.next_eq]
    exact .refl _
  · refine ⟨hsettled.roots.stateCommit _, hsettled.roots.submittedAtBlock _, ?_⟩
    rw [hsettled.roots.finalised]
    exact id

theorem RecordKept.step {call : SystemCall} {logIndex : UInt64}
    (hstep : systemStep deployment state call = .ok next)
    (hsubmitted : state.submission.IsSubmitted logIndex) :
    RecordKept (state.submission.roots logIndex) (next.submission.roots logIndex) := by
  cases call with
  | mine | receiveEther =>
    cases hstep
    exact .refl _
  | game =>
    exact .callGame (mapError_eq_ok.mp hstep) logIndex
  | submission =>
    obtain ⟨hsender, submission, hcall, hnext⟩ := systemStep_submission hstep
    subst hnext
    rcases submissionCall_root hsender hcall hsubmitted with hroot | hroot
    · simp only [hroot]
      exact .refl _
    · simp only [hroot]
      exact ⟨rfl, rfl, fun _ => rfl⟩

def FinalisedSubmitted (state : State) : Prop :=
  ∀ logIndex, (state.submission.roots logIndex).finalised = true →
    state.submission.IsSubmitted logIndex

theorem FinalisedSubmitted.step {call : SystemCall}
    (hstep : systemStep deployment state call = .ok next)
    (hinv : FinalisedSubmitted state) : FinalisedSubmitted next := by
  intro logIndex hfinalised
  by_cases hsubmitted : state.submission.IsSubmitted logIndex
  · have hkept := RecordKept.step hstep hsubmitted
    unfold Submission.IsSubmitted at hsubmitted ⊢
    rwa [hkept.submittedAtBlock]
  · cases call with
    | mine | receiveEther =>
      cases hstep
      exact hinv logIndex hfinalised
    | game =>
      exfalso
      apply hsubmitted
      apply hinv
      rcases callGame_cases (mapError_eq_ok.mp hstep) with
        ⟨disputedLogIndex, _, _, _, _, hopened⟩ | ⟨moved, game, hmoved⟩ |
        ⟨ended, finalStatus, _, hsettled⟩
      · have hindex : logIndex ≠ disputedLogIndex := by
          intro heq
          exact hsubmitted (heq ▸ hopened.submitted)
        rwa [hopened.roots, update_of_ne hindex] at hfinalised
      · rwa [hmoved.next_eq] at hfinalised
      · rwa [hsettled.roots.finalised] at hfinalised
    | submission =>
      obtain ⟨hsender, submission, hcall, hnext⟩ := systemStep_submission hstep
      subst hnext
      rcases submissionCall_cases hsender hcall with
        ⟨fresh, stateCommit, prevLogEntryHash, _, hsubmit⟩ |
        ⟨finalised, payoutAccepted, _, hfinalise⟩
      · obtain ⟨_, _, _, _, hroots⟩ := submitStateRoot_effect hsubmit
        simp only [hroots] at hfinalised
        by_cases hindex : logIndex = fresh
        · subst hindex
          simp at hfinalised
        · rw [update_of_ne hindex] at hfinalised
          exact absurd (hinv logIndex hfinalised) hsubmitted
      · obtain ⟨hold, _, _, _, hroots⟩ := finaliseStateRoot_effect hfinalise
        have hindex : logIndex ≠ finalised := by
          intro heq
          exact hsubmitted (heq ▸ hold)
        simp only [hroots, update_of_ne hindex] at hfinalised
        exact absurd (hinv logIndex hfinalised) hsubmitted

theorem FinalisedSubmitted.of_run {blockNumber : ℕ}
    (hrun : Run (systemStep deployment) (State.initial blockNumber) trace state) :
    FinalisedSubmitted state := by
  refine hrun.invariant (fun _ _ _ hstep hinv => hinv.step hstep) ?_
  intro logIndex hfinalised
  simp [State.initial, Submission.initial, SubmittedRoot.unset] at hfinalised

structure RecordsClaim (submission : Submission) (claim : Claim) : Prop where
  submitted : submission.IsSubmitted claim.idx
  finalised : (submission.roots claim.idx).finalised = true
  stateCommit : (submission.roots claim.idx).stateCommit = claim.commit

theorem RecordsClaim.step {call : SystemCall} {claim : Claim}
    (hstep : systemStep deployment state call = .ok next)
    (hrecords : RecordsClaim state.submission claim) : RecordsClaim next.submission claim := by
  have hkept := RecordKept.step hstep hrecords.submitted
  refine ⟨?_, hkept.finalised hrecords.finalised, hkept.stateCommit.trans hrecords.stateCommit⟩
  have hsubmitted := hrecords.submitted
  unfold Submission.IsSubmitted at hsubmitted ⊢
  rwa [hkept.submittedAtBlock]

theorem RecordsClaim.run {claim : Claim} (hrun : Run (systemStep deployment) state trace next)
    (hrecords : RecordsClaim state.submission claim) : RecordsClaim next.submission claim :=
  @Run.invariant _ _ _ _ (fun current => RecordsClaim current.submission claim)
    (fun _ _ _ hstep hinv => hinv.step hstep) _ _ _ hrun hrecords

end Records

section Openings

variable {deployment : Deployment} {state next : State} {gameId blockNumber : ℕ}
  {trace : List (State × SystemCall)}

structure OpenedBy (deployment : Deployment) (trace : List (State × SystemCall)) (gameId : ℕ)
    (before : State) (call : SystemCall) (after : State) : Prop where
  mem : (before, call) ∈ trace
  step : systemStep deployment before call = .ok after
  fresh : before.game.nextGameId < gameId
  allocated : gameId ≤ after.game.nextGameId

theorem challenge_of_allocates {call : SystemCall}
    (hstep : systemStep deployment state call = .ok next)
    (hfresh : state.game.nextGameId < gameId) (hallocated : gameId ≤ next.game.nextGameId) :
    ∃ sender value reentered disputedLogIndex challengerCommit lowCommit lowLogIndex,
      call = .game sender value reentered (.initiateChallenge
        disputedLogIndex challengerCommit lowCommit lowLogIndex) ∧
      gameId = state.game.nextGameId + 1 ∧ (next.game.games gameId).low = ⟨lowLogIndex, lowCommit⟩ ∧
      (next.game.games gameId).status = .inProgress := by
  cases call with
  | game sender value reentered =>
    rcases callGame_cases (mapError_eq_ok.mp hstep) with
      ⟨disputedLogIndex, challengerCommit, lowCommit, lowLogIndex, hcall,
        hopened⟩ | ⟨moved, game, hmoved⟩ | ⟨ended, status, _, hsettled⟩
    · have hid : gameId = state.game.nextGameId + 1 := by
        have := hopened.nextGameId
        omega
      obtain ⟨turnDeadline, hgames⟩ := hopened.games
      refine ⟨sender, value, reentered, disputedLogIndex,
        challengerCommit, lowCommit, lowLogIndex, by rw [hcall], hid, ?_, ?_⟩ <;>
        simp [hgames, hid, openedGame]
    · rw [hmoved.next_eq] at hallocated
      exact absurd hallocated (Nat.not_le.mpr hfresh)
    · rw [hsettled.nextGameId] at hallocated
      exact absurd hallocated (Nat.not_le.mpr hfresh)
  | _ =>
    rw [(systemStep_games hstep (by simp)).2] at hallocated
    exact absurd hallocated (Nat.not_le.mpr hfresh)

theorem exists_openedBy (hrun : Run (systemStep deployment) (State.initial blockNumber) trace state)
    (hpos : 0 < gameId) (hallocated : gameId ≤ state.game.nextGameId) :
    ∃ before call after, OpenedBy deployment trace gameId before call
      after := by
  induction hrun with
  | nil =>
    simp only [State.initial] at hallocated
    omega
  | @snoc trace before after call hprefix hlast ih =>
    by_cases hold : gameId ≤ before.game.nextGameId
    · obtain ⟨opening, opener, opened, hopened⟩ := ih hold
      exact ⟨opening, opener, opened, by simp [hopened.mem],
        hopened.step, hopened.fresh, hopened.allocated⟩
    · exact ⟨before, call, after, by simp, hlast, by omega, hallocated⟩

/-- Every running game of the state was opened by a step of the run, and its
first low claim was a recorded finalised root then and is one now. -/
def StartsAgreed (deployment : Deployment)
    (trace : List (State × SystemCall)) (state : State) : Prop :=
  ∀ gameId, 0 < gameId → gameId ≤ state.game.nextGameId →
    (state.game.games gameId).status = .inProgress →
    (∃ before call after, OpenedBy deployment trace gameId before call after) ∧
    ∀ before call after, OpenedBy deployment trace gameId before call after →
        RecordsClaim before.submission (after.game.games gameId).low ∧
          RecordsClaim state.submission (after.game.games gameId).low

/-- The check which `initiateChallenge` leaves out: the low claim is a
finalised root with its commit. -/
def namesRoot : State × SystemCall → Bool
  | (state, .game _ _ _ (.initiateChallenge _ _ lowCommit lowLogIndex)) =>
    (state.submission.roots lowLogIndex).finalised &&
      decide ((state.submission.roots lowLogIndex).stateCommit = lowCommit)
  | _ => true

def ChallengesNameRoots (trace : List (State × SystemCall)) : Prop :=
  ∀ step ∈ trace, namesRoot step = true

theorem ChallengesNameRoots.startsAgreed
    (hrun : Run (systemStep deployment) (State.initial blockNumber) trace state)
    (hnamed : ChallengesNameRoots trace) : StartsAgreed deployment trace state := by
  intro gameId hpos hallocated _
  refine ⟨exists_openedBy hrun hpos hallocated, ?_⟩
  intro before call after hopened
  obtain ⟨sender, value, reentered, disputedLogIndex, challengerCommit,
    lowCommit, lowLogIndex, hcall, _, hlow, _⟩ :=
    challenge_of_allocates hopened.step hopened.fresh hopened.allocated
  have hnames := hnamed _ hopened.mem
  simp only [hcall, namesRoot, Bool.and_eq_true, decide_eq_true_eq] at hnames
  obtain ⟨hfinalised, hcommit⟩ := hnames
  obtain ⟨earlier, later, middle, _, hearlier, hstep, hlater⟩ := hrun.split hopened.mem
  have hbefore : RecordsClaim before.submission (after.game.games gameId).low := by
    rw [hlow]
    exact ⟨FinalisedSubmitted.of_run hearlier _ hfinalised, hfinalised, hcommit⟩
  exact ⟨hbefore, (hbefore.step hstep).run hlater⟩

end Openings

/-- Through a whole run every running game starts from a recorded finalised
root exactly when every challenge of the run has named one. -/
theorem startsAgreed_throughout_iff {deployment : Deployment} {blockNumber : ℕ}
    {trace : List (State × SystemCall)} {final : State}
    (hrun : Run (systemStep deployment) (State.initial blockNumber) trace final) :
    (∀ earlier later state, trace = earlier ++ later →
        Run (systemStep deployment) (State.initial blockNumber) earlier state →
        StartsAgreed deployment earlier state) ↔ ChallengesNameRoots trace := by
  constructor
  · intro hagreed step hmem
    obtain ⟨before, call⟩ := step
    obtain ⟨earlier, later, after, htrace, hearlier, hstep, _⟩ := hrun.split hmem
    have hstarts := hagreed _ later after (by simp [htrace]) (hearlier.snoc hstep)
    by_cases hallocates : before.game.nextGameId < after.game.nextGameId
    · obtain ⟨sender, value, reentered, disputedLogIndex, challengerCommit,
        lowCommit, lowLogIndex, hcall, _, hlow, hstatus⟩ :=
        challenge_of_allocates hstep hallocates le_rfl
      have hrecords := ((hstarts after.game.nextGameId (by omega) le_rfl
        hstatus).2 before call after ⟨by simp, hstep, hallocates, le_rfl⟩).1
      rw [hlow] at hrecords
      simp [hcall, namesRoot, hrecords.finalised, hrecords.stateCommit]
    · unfold namesRoot
      split
      · rename_i heq
        cases heq
        have hopened := initiateChallenge_effect (mapError_eq_ok.mp hstep)
        exact absurd (by rw [hopened.nextGameId]; omega) hallocates
      · rfl
  · intro hnamed earlier later state htrace hearlier
    apply ChallengesNameRoots.startsAgreed hearlier
    intro step hmem
    apply hnamed
    rw [htrace]
    exact List.mem_append_left _ hmem

def unagreedChallenge : SystemCall := .game 0xC4A 500 false
    (.initiateChallenge 1 Bytes32.zero.perturb Bytes32.zero.perturb 0)

theorem challenge_from_unrecorded_commit :
    ∃ before after : State, Reachable (systemStep sampleDeployment) (State.initial 100) before ∧
        systemStep sampleDeployment before unagreedChallenge = .ok after ∧
        before.game.nextGameId = 0 ∧ after.game.nextGameId = 1 ∧
        (after.game.games 1).status = .inProgress ∧
        ¬ RecordsClaim before.submission (after.game.games 1).low := by
  obtain ⟨before, after, hreach, hcall, hbefore, hafter, hstatus, hcommit⟩ :=
    exists_call_of_traceOf (systemStep sampleDeployment) (State.initial 100)
      ((challengedRoots .zero .zero).take 3) unagreedChallenge
      (fun before after => before.game.nextGameId = 0 ∧ after.game.nextGameId = 1 ∧
        (after.game.games 1).status = .inProgress ∧
        (before.submission.roots (after.game.games 1).low.idx).stateCommit ≠
          (after.game.games 1).low.commit) (by decide +kernel)
  exact ⟨before, after, hreach, hcall, hbefore, hafter, hstatus,
    fun hrecords => hcommit hrecords.stateCommit⟩

def agreedChallenge : List SystemCall :=
  [.submission 0x5E9 1000 (.submitStateRoot 0 .zero .zero), .mine 60,
    .submission 0x5E9 0 (.finaliseStateRoot 0 true),
    .submission 0x5E9 1000 (.submitStateRoot 1 .zero (chainHash .zero .zero)), .game 0xC4A 500 false
      (.initiateChallenge 1 Bytes32.zero.perturb .zero 0)]

theorem agreedChallenge_startsAgreed :
    ∃ trace final, Run (systemStep sampleDeployment) (State.initial 100) trace final ∧
        final.game.nextGameId = 1 ∧ (final.game.games 1).status = .inProgress ∧
        StartsAgreed sampleDeployment trace final := by
  obtain ⟨trace, final, hrun, hid, hstatus, hnamed⟩ := exists_run_of_traceOf
    (systemStep sampleDeployment) (State.initial 100) agreedChallenge
    (fun trace final => final.game.nextGameId = 1 ∧ (final.game.games 1).status = .inProgress ∧
      ∀ entry ∈ trace, namesRoot entry = true) (by decide +kernel)
  exact ⟨trace, final, hrun, hid, hstatus,
    (startsAgreed_throughout_iff hrun).mpr hnamed trace [] final (by simp) hrun⟩

end FaultProof
end Canon
