import Canon.FaultProofGame
import Canon.StateRootRollback

/-!
# What a won single-step termination says about the disputed commit

The side to move names the post-state commit against which the re-execution is
compared.  A termination is always a move of the sequencer, and the disputed commit
itself is not read.
-/

namespace Canon
namespace FaultProof

open StateRoots Function

section Turns

variable {deployment : Deployment} {state next : State}

/-- In a running game the challenger is to move exactly while a midpoint is
pending. -/
def TurnInvariant (state : State) : Prop :=
  ∀ gameId, (state.game.games gameId).status = .inProgress →
    ((state.game.games gameId).hasPendingMidpoint = true ↔
      (state.game.games gameId).turn = .challenger)

theorem TurnInvariant.initial (blockNumber : ℕ) : TurnInvariant (State.initial blockNumber) := by
  intro gameId _
  simp [State.initial, Game.unset]

theorem TurnInvariant.callGame {context : CallContext} {call : GameCall}
    (hcall : callGame deployment context state call = .ok next)
    (hinv : TurnInvariant state) : TurnInvariant next := by
  intro gameId hstatus
  rcases callGame_cases hcall with
    ⟨disputedLogIndex, _, lowCommit, lowLogIndex, _, hopened⟩ |
    ⟨moved, game, hmoved⟩ | ⟨ended, finalStatus, hends, hsettled⟩
  · obtain ⟨turnDeadline, hgames⟩ := hopened.games
    rw [hgames] at hstatus ⊢
    by_cases hid : gameId = state.game.nextGameId + 1
    · subst hid
      simp [openedGame]
    · rw [update_of_ne hid] at hstatus ⊢
      exact hinv gameId hstatus
  · rw [hmoved.next_eq] at hstatus ⊢
    by_cases hid : gameId = moved
    · subst hid
      have hold := hinv gameId hmoved.running
      simp only [State.setGame, update_self, hmoved.pending, hmoved.turn]
      cases hturn : (state.game.games gameId).turn <;>
        cases hpending : (state.game.games gameId).hasPendingMidpoint <;>
        simp [hturn, hpending, TurnSide.flip] at hold ⊢
    · simp only [State.setGame, update_of_ne hid] at hstatus ⊢
      exact hinv gameId hstatus
  · obtain ⟨bond, hgames⟩ := hsettled.games
    rw [hgames] at hstatus ⊢
    by_cases hid : gameId = ended
    · subst hid
      simp only [update_self] at hstatus
      exact absurd hstatus hends.ended
    · rw [update_of_ne hid] at hstatus ⊢
      exact hinv gameId hstatus

theorem systemStep_games {call : SystemCall} (hstep : systemStep deployment state call = .ok next)
    (hother : ∀ sender value reentered gameCall, call ≠ .game sender value reentered gameCall) :
    next.game.games = state.game.games ∧
      next.game.nextGameId = state.game.nextGameId := by
  cases call with
  | mine | receiveEther =>
    cases hstep
    exact ⟨rfl, rfl⟩
  | game sender value reentered gameCall =>
    exact absurd rfl (hother sender value reentered gameCall)
  | submission =>
    simp only [systemStep, bind_eq_ok, revertIf_eq_ok, exists_const,
      mapError_eq_ok, pure_eq_ok] at hstep
    obtain ⟨_, submission, _, hnext⟩ := hstep
    subst hnext
    exact ⟨rfl, rfl⟩

theorem TurnInvariant.step {call : SystemCall} (hstep : systemStep deployment state call = .ok next)
    (hinv : TurnInvariant state) : TurnInvariant next := by
  cases call with
  | game =>
    exact hinv.callGame (mapError_eq_ok.mp hstep)
  | _ =>
    have hgames := (systemStep_games hstep (by simp)).1
    intro gameId
    rw [hgames]
    exact hinv gameId

theorem TurnInvariant.of_reachable {blockNumber : ℕ}
    (hreach : Reachable (systemStep deployment) (State.initial blockNumber) state) :
    TurnInvariant state := hreach.invariant (fun _ _ _ hstep hinv => hinv.step hstep)
    (.initial blockNumber)

end Turns

/-- A game which a termination settles as `SequencerWon` re-executes to the
disputed commit exactly when the sequencer has named the disputed commit. -/
theorem sequencerWon_reexecutes_iff {deployment : Deployment} {blockNumber : ℕ} {state next : State}
    {sender : Address} {value : ℕ} {reentered : Bool} {gameId : ℕ}
    {actionKind : UInt8} {actionFields : Bytes} {signer : UInt64}
    {cellProofs : List StepVM.CellProof} {claimedPostCommit : Bytes32} {payout : Payout}
    (hreach : Reachable (systemStep deployment) (State.initial blockNumber) state)
    (hcall : systemStep deployment state (.game sender value reentered
      (.terminateOnSingleStep gameId actionKind actionFields signer
        cellProofs claimedPostCommit payout)) = .ok next)
    (hwon : (next.game.games gameId).status = .sequencerWon) :
    StepVM.executeStep (state.game.games gameId).low.commit actionFields
        signer cellProofs actionKind = .ok (state.game.games gameId).high.commit ↔
      claimedPostCommit = (state.game.games gameId).high.commit := by
  obtain ⟨hstatus, _, hpending, computed, hcomputed, hsettled⟩ :=
    terminateOnSingleStep_effect (mapError_eq_ok.mp hcall)
  have hturn : (state.game.games gameId).turn = .sequencer := by
    have hinv := TurnInvariant.of_reachable hreach gameId hstatus
    cases hside : (state.game.games gameId).turn with
    | sequencer => rfl
    | challenger => simp [hside, hpending] at hinv
  have hmatch : computed = claimedPostCommit := by
    by_contra hdiffer
    obtain ⟨bond, hgames⟩ := hsettled.games
    simp [hgames, hturn, verdictOf, hdiffer] at hwon
  rw [hcomputed, hmatch, Except.ok.injEq]

/-! ## A disputed commit which the re-execution contradicts -/

def sampleDeployment : Deployment where
  game := {
    bisectionResponseTimeout := 100
    minChallengeBond := 500
    minBisectionStepIntervalBlocks := 1
    treasury := 0x7EA
    self := 0x6A3E
    minChallengeBond_lt := by decide
    treasury_ne_zero := by decide }
  submission := sampleSubmissionParams
  wired := rfl

def challengedRoots (secondCommit challengerCommit : Bytes32) : List SystemCall :=
  [.submission 0x5E9 1000 (.submitStateRoot 0 .zero .zero), .mine 10, .submission 0x5E9 1000
      (.submitStateRoot 1 secondCommit (chainHash .zero .zero)),
    .game 0xC4A 500 false (.initiateChallenge 1 challengerCommit .zero 0)]

def frozenCommit : Bytes32 :=
  keccak256 (Bytes32.zero.toBytes ++ StepVM.ActionKind.freezeResource.tag ++
    StepVM.packedUint64 0 ++ StepVM.packedUint64 0)

def freezeTermination (claimedPostCommit : Bytes32) : SystemCall :=
  .game 0x5E9 0 false (.terminateOnSingleStep 1 3 (List.replicate 8 0) 0 []
    claimedPostCommit ⟨true, true⟩)

/-- The sequencer has posted the zero commit for root 1, and wins the game on
it by naming the re-executed commit instead. -/
theorem sequencerWon_with_refuted_commit :
    ∃ state next : State, Reachable (systemStep sampleDeployment) (State.initial 100) state ∧
        systemStep sampleDeployment state (freezeTermination frozenCommit) = .ok next ∧
        (next.game.games 1).status = .sequencerWon ∧
        StepVM.executeStep (state.game.games 1).low.commit (List.replicate 8 0) 0 [] 3 ≠
            .ok (state.game.games 1).high.commit :=
  exists_call_of_traceOf _ _ (challengedRoots .zero frozenCommit) _ _ (by decide +kernel)

theorem sequencerWon_with_honest_commit :
    ∃ state next : State, systemStep sampleDeployment state (freezeTermination frozenCommit) =
          .ok next ∧
        StepVM.executeStep (state.game.games 1).low.commit (List.replicate 8 0) 0 [] 3 =
            .ok (state.game.games 1).high.commit := by
  obtain ⟨state, next, hreach, hcall, hwon, hhonest⟩ := exists_call_of_traceOf
    (systemStep sampleDeployment) (State.initial 100) (challengedRoots frozenCommit .zero)
    (freezeTermination frozenCommit)
    (fun state next => (next.game.games 1).status = .sequencerWon ∧
      frozenCommit = (state.game.games 1).high.commit) (by decide +kernel)
  exact ⟨state, next, hcall, (sequencerWon_reexecutes_iff hreach hcall hwon).mpr hhonest⟩

end FaultProof
end Canon
