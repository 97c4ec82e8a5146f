import Canon.FaultProofPayouts

/-!
# After a missed deadline

The two bisection moves compare the block number with the deadline of the turn,
and the timeout is the settlement against the side which has missed it.  The
single-step termination does not look at the deadline.
-/

namespace Canon
namespace FaultProof

open StateRoots Function

def TurnSide.lost : TurnSide → GameStatus → Prop
  | .sequencer, status =>
    status = .challengerWon ∨ status = .timedOutSequencer
  | .challenger, status =>
    status = .sequencerWon ∨ status = .timedOutChallenger

/-- Nothing has happened to the game but a settlement against the side to
move. -/
def Game.SettledAgainst (before after : Game) : Prop := ∃ status bond, before.turn.lost status ∧
    after = { before with status := status, sequencerBond := bond }

/-- Whatever is called later, the game stays as it is until the side to move
has lost it. -/
def Forfeited (deployment : Deployment) (state : State) (gameId : ℕ) : Prop :=
  ∀ later, Reachable (systemStep deployment) state later →
    later.game.games gameId = state.game.games gameId ∨
      (state.game.games gameId).SettledAgainst (later.game.games gameId)

def Game.SingleStep (game : Game) : Prop :=
  game.low.idx ≤ game.high.idx ∧ game.high.idx - game.low.idx = 1

section Deadlines

variable {deployment : Deployment} {state next : State} {call : SystemCall} {gameId : ℕ}

theorem TurnSide.lost_ne_inProgress {side : TurnSide} {status : GameStatus}
    (hlost : side.lost status) : status ≠ .inProgress := by
  cases side <;> rcases hlost with rfl | rfl <;> simp

theorem SystemEffect.game_cases (heffect : SystemEffect deployment state next call)
    (hallocated : state.Allocated gameId) :
    (next.Allocated gameId ∧ state.blockNumber ≤ next.blockNumber) ∧
      (next.game.games gameId = state.game.games gameId ∨
        ((state.game.games gameId).status = .inProgress ∧
          state.blockNumber ≤ (state.game.games gameId).turnDeadline.toNat) ∨
        ∃ reentered finalStatus, call.settles = some gameId ∧
          Ends (state.game.games gameId) finalStatus ∧
          Settlement deployment reentered state next gameId finalStatus) := by
  cases heffect with
  | mined _ hnext =>
    subst hnext
    exact ⟨⟨hallocated, Nat.le_add_right _ _⟩, .inl rfl⟩
  | received _ hnext | submitted _ _ _ _ _ _ _ hnext | finalised _ _ _ _ _ _ hnext =>
    subst hnext
    exact ⟨⟨hallocated, le_rfl⟩, .inl rfl⟩
  | opened _ _ _ _ _ _ _ hsettles hopened haccounts =>
    obtain ⟨turnDeadline, hgames⟩ := hopened.games
    have hid : gameId ≠ state.game.nextGameId + 1 := by
      simp only [State.Allocated] at hallocated
      omega
    refine ⟨⟨?_, haccounts.blockNumber.ge⟩, .inl ?_⟩
    · exact (hopened.allocated_iff hid).mpr hallocated
    · rw [hgames, update_of_ne hid]
  | moved _ _ _ _ moved _ _ hmoved hkeeps =>
    have hnext := hmoved.next_eq
    subst hnext
    refine ⟨⟨hallocated, le_rfl⟩, ?_⟩
    by_cases hid : gameId = moved
    · subst hid
      exact .inr (.inl ⟨hmoved.running, hkeeps.inTime⟩)
    · exact .inl (update_of_ne hid _ _)
  | settled _ _ reentered _ ended finalStatus hsettles hends hsettlement =>
    refine ⟨⟨?_, hsettlement.blockNumber.ge⟩, ?_⟩
    · exact (State.allocated_iff_of_eq hsettlement.nextGameId gameId).mpr hallocated
    · by_cases hid : gameId = ended
      · subst hid
        exact .inr (.inr ⟨reentered, finalStatus, hsettles, hends, hsettlement⟩)
      · refine .inl ?_
        rw [hsettlement.games, update_of_ne hid]

theorem settled_status (hstep : systemStep deployment state call = .ok next)
    (hsettles : call.settles = some gameId) :
    (state.game.games gameId).turn.lost (next.game.games gameId).status ∨
      ((state.game.games gameId).hasPendingMidpoint = false ∧
        (state.game.games gameId).SingleStep) := by
  cases call with
  | game _ _ _ gameCall =>
    have hcall := mapError_eq_ok.mp hstep
    cases gameCall with
    | claimTimeout =>
      cases hsettles
      obtain ⟨bond, hgames⟩ := (claimTimeout_effect hcall).2.games
      left
      rw [hgames, update_self]
      cases (state.game.games gameId).turn with
      | sequencer | challenger => exact .inr rfl
    | terminateOnSingleStep =>
      cases hsettles
      simp only [callGame, terminateOnSingleStep, bind_eq_ok,
        revertIf_eq_ok, exists_const, checkedSub64_eq_ok, ne_eq, not_not, Bool.not_eq_true] at hcall
      obtain ⟨_, _, gap, ⟨hle, hgap⟩, hone, hpending, _⟩ := hcall
      exact .inr ⟨hpending, hle, hgap.trans hone⟩
    | _ => cases hsettles
  | _ => cases hsettles

def Game.Lost (game : Game) : Prop := game.hasPendingMidpoint = true ∨ ¬ game.SingleStep ∨
    2 ^ 128 ≤ game.challengerBond * 95

theorem settledAgainst_of_lost {reentered : Bool} {finalStatus : GameStatus}
    (hstep : systemStep deployment state call = .ok next) (hsettles : call.settles = some gameId)
    (hsettlement : Settlement deployment reentered state next gameId finalStatus)
    (hlost : (state.game.games gameId).Lost) :
    (state.game.games gameId).SettledAgainst (next.game.games gameId) := by
  have hstatus : (next.game.games gameId).status = finalStatus := by
    rw [hsettlement.games, update_self]
  refine ⟨finalStatus, _, ?_, by
    rw [hsettlement.games, update_self]⟩
  rcases settled_status hstep hsettles with hturn | ⟨hpending, hsingle⟩
  · rw [hstatus] at hturn
    exact hturn
  · rcases hlost with hmidpoint | hrange | hbond
    · rw [hpending] at hmidpoint
      cases hmidpoint
    · exact absurd hsingle hrange
    · have hbounded := hsettlement.bounded
      unfold settlementPot at hbounded
      omega

theorem forfeited_of_lost {blockNumber : ℕ}
    (hreach : Reachable (systemStep deployment) (State.initial blockNumber) state)
    (hallocated : state.Allocated gameId)
    (hlate : (state.game.games gameId).turnDeadline.toNat < state.blockNumber)
    (hlost : (state.game.games gameId).Lost) : Forfeited deployment state gameId := by
  rintro later ⟨trace, hrun⟩
  have hinv : (later.Allocated gameId ∧
      state.blockNumber ≤ later.blockNumber) ∧
        (later.game.games gameId = state.game.games gameId ∨
          (state.game.games gameId).SettledAgainst (later.game.games gameId)) := by
    induction hrun with
    | nil => exact ⟨⟨hallocated, le_rfl⟩, .inl rfl⟩
    | @snoc trace before after call hearlier hlast ih =>
      obtain ⟨⟨hbefore, hblock⟩, hgame⟩ := ih
      have heffect := systemStep_effect_of_reachable (hearlier.reachable hreach) hlast
      obtain ⟨⟨hafter, hadvance⟩, hcases⟩ := heffect.game_cases hbefore
      refine ⟨⟨hafter, hblock.trans hadvance⟩, ?_⟩
      rcases hgame with hsame | ⟨status, bond, hagainst, hsettled⟩
      · rcases hcases with hkept | ⟨_, hintime⟩ |
          ⟨reentered, finalStatus, hsettles, hends, hsettlement⟩
        · exact .inl (hkept.trans hsame)
        · rw [hsame] at hintime
          omega
        · have hresult := settledAgainst_of_lost hlast hsettles
            hsettlement (by rw [hsame]; exact hlost)
          rw [hsame] at hresult
          exact .inr hresult
      · have hended : (before.game.games gameId).status ≠ .inProgress := by
          rw [hsettled]
          exact TurnSide.lost_ne_inProgress hagainst
        rcases hcases with hkept | ⟨hrunning, _⟩ | ⟨_, _, _, hends, _⟩
        · exact .inr ⟨status, bond, hagainst, hkept.trans hsettled⟩
        · exact absurd hrunning hended
        · exact absurd hends.running hended
  exact hinv.2

theorem freezeResource_executes (preStateCommit : Bytes32) :
    ∃ computed, StepVM.executeStep preStateCommit (List.replicate 8 0) 0 [] 3 = .ok computed :=
  ⟨_, rfl⟩

theorem sequencer_wins_single_step (hinv : BondInvariant deployment state)
    (hallocated : state.Allocated gameId)
    (hrunning : (state.game.games gameId).status = .inProgress)
    (hturn : (state.game.games gameId).turn = .sequencer)
    (hpending : (state.game.games gameId).hasPendingMidpoint = false)
    (hsingle : (state.game.games gameId).SingleStep)
    (hbond : (state.game.games gameId).challengerBond * 95 < 2 ^ 128) :
    ∃ call next, systemStep deployment state call = .ok next ∧
      (next.game.games gameId).status = .sequencerWon := by
  obtain ⟨computed, hcomputed⟩ := freezeResource_executes (state.game.games gameId).low.commit
  have hunslashed := hinv.slots.unslashed gameId hrunning
  have hcovered : (state.game.games gameId).challengerBond ≤ state.game.balance := by
    apply le_trans _ hinv.reserve
    have hkept : (state.game.games gameId).keptBond =
        (state.game.games gameId).challengerBond := if_pos hrunning
    rw [← hkept]
    exact Finset.single_le_sum (fun i _ => Nat.zero_le (state.game.games i).keptBond)
      (Finset.mem_Icc.mpr hallocated)
  obtain ⟨next, hsettle⟩ := @settle_favouring_sequencer deployment
    ⟨(state.game.games gameId).sequencer, 0, state.blockNumber, false⟩ state
    gameId .sequencerWon rfl (by rw [hunslashed, Nat.zero_add]; exact hbond)
    (by rw [hunslashed, Nat.zero_add]; exact hcovered)
  obtain ⟨bond, hgames⟩ := (settle_effect hsettle).games
  refine ⟨.game (state.game.games gameId).sequencer 0 false
    (.terminateOnSingleStep gameId 3 (List.replicate 8 0) 0 [] computed
      ⟨true, true⟩), next, mapError_eq_ok.mpr ?_, ?_⟩
  · simp only [callGame, terminateOnSingleStep, bind_eq_ok, revertIf_eq_ok,
      exists_const, checkedSub64_eq_ok, mapError_eq_ok, ne_eq, not_not, Bool.not_eq_true]
    refine ⟨trivial, hrunning, 1, hsingle, rfl, hpending, ?_, computed, hcomputed, ?_⟩
    · rw [Game.responsible, hturn]
    · rw [if_pos rfl, if_pos hturn]
      exact hsettle
  · rw [hgames, update_self]

end Deadlines

/-- A game whose deadline has passed can only be lost by the side to move,
exactly when a midpoint is pending, or the range is not a single step, or the
bonds are too large to be paid out at all. -/
theorem missed_deadline_forfeits_iff {deployment : Deployment} {blockNumber : ℕ} {state : State}
    {gameId : ℕ} (hreach : Reachable (systemStep deployment) (State.initial blockNumber) state)
    (hallocated : state.Allocated gameId)
    (hrunning : (state.game.games gameId).status = .inProgress)
    (hlate : (state.game.games gameId).turnDeadline.toNat < state.blockNumber) :
    Forfeited deployment state gameId ↔
      (state.game.games gameId).hasPendingMidpoint = true ∨ ¬ (state.game.games gameId).SingleStep ∨
        2 ^ 128 ≤ (state.game.games gameId).challengerBond * 95 := by
  constructor
  · intro hforfeited
    by_contra hopen
    rw [not_or, not_or, not_not, Bool.not_eq_true, Nat.not_le] at hopen
    obtain ⟨hpending, hsingle, hbond⟩ := hopen
    have hturn : (state.game.games gameId).turn = .sequencer := by
      have hside := TurnInvariant.of_reachable hreach gameId hrunning
      cases hmove : (state.game.games gameId).turn with
      | sequencer => rfl
      | challenger =>
        rw [hmove, hpending] at hside
        simp at hside
    obtain ⟨call, next, hstep, hwon⟩ := sequencer_wins_single_step
      (BondInvariant.of_reachable hreach) hallocated hrunning hturn hpending hsingle hbond
    rcases hforfeited next ((Reachable.refl state).tail hstep) with
      hsame | ⟨status, bond, hlost, hgame⟩
    · rw [hsame, hrunning] at hwon
      cases hwon
    · rw [hgame] at hwon
      rw [hturn] at hlost
      rcases hlost with hlost | hlost
      all_goals cases hlost.symm.trans hwon
  · intro hlost
    exact forfeited_of_lost hreach hallocated hlate hlost

/-- Game 1 is late by one block, and the sequencer still wins it. -/
theorem late_sequencer_wins :
    ∃ state next : State, Reachable (systemStep sampleDeployment) (State.initial 100) state ∧
        (state.game.games 1).status = .inProgress ∧ (state.game.games 1).turn = .sequencer ∧
        (state.game.games 1).turnDeadline.toNat < state.blockNumber ∧
        systemStep sampleDeployment state (freezeTermination frozenCommit) = .ok next ∧
        (next.game.games 1).status = .sequencerWon := by
  obtain ⟨state, next, hreach, hcall, hrunning, hturn, hlate, hwon⟩ := exists_call_of_traceOf
    (systemStep sampleDeployment) (State.initial 100) lateSequencer
    (freezeTermination frozenCommit)
    (fun state next => (state.game.games 1).status = .inProgress ∧
      (state.game.games 1).turn = .sequencer ∧
      (state.game.games 1).turnDeadline.toNat < state.blockNumber ∧
      (next.game.games 1).status = .sequencerWon) (by decide +kernel)
  exact ⟨state, next, hreach, hrunning, hturn, hlate, hcall, hwon⟩

def lateOnWideRange : List SystemCall := (challengedRoots .zero Bytes32.zero.perturb).take 3 ++
    [.mine 10, .submission 0x5E9 1000 (.submitStateRoot 2 .zero
        (chainHash (chainHash .zero .zero) .zero)), .game 0xC4A 500 false
        (.initiateChallenge 2 Bytes32.zero.perturb .zero 0), .mine 101]

theorem lateOnWideRange_forfeited :
    ∃ state : State, Reachable (systemStep sampleDeployment) (State.initial 100) state ∧
        (state.game.games 1).status = .inProgress ∧ Forfeited sampleDeployment state 1 := by
  obtain ⟨trace, state, hrun, hallocated, hrunning, hlate, hwide⟩ := exists_run_of_traceOf
    (systemStep sampleDeployment) (State.initial 100) lateOnWideRange
    (fun _ state => state.Allocated 1 ∧ (state.game.games 1).status = .inProgress ∧
      (state.game.games 1).turnDeadline.toNat < state.blockNumber ∧
      (state.game.games 1).high.idx - (state.game.games 1).low.idx ≠ 1) (by decide +kernel)
  exact ⟨state, ⟨trace, hrun⟩, hrunning,
    (missed_deadline_forfeits_iff ⟨trace, hrun⟩ hallocated hrunning
      hlate).mpr (.inr (.inl fun hsingle => hwide hsingle.2))⟩

/-- A settled game is never touched again, and no later call settles it a second time. -/
theorem settled_game_final {deployment : Deployment} {blockNumber : ℕ} {state final : State}
    {gameId : ℕ} {trace : List (State × SystemCall)}
    (hreach : Reachable (systemStep deployment) (State.initial blockNumber) state)
    (hallocated : state.Allocated gameId) (hended : (state.game.games gameId).status ≠ .inProgress)
    (hrun : Run (systemStep deployment) state trace final) :
    final.game.games gameId = state.game.games gameId ∧
      ∀ entry ∈ trace, entry.2.settles ≠ some gameId := by
  refine (?_ : final.Allocated gameId ∧ _).2
  induction hrun with
  | nil => exact ⟨hallocated, rfl, by simp⟩
  | @snoc trace before after call hearlier hlast ih =>
    obtain ⟨hbefore, hsame, hnone⟩ := ih
    have heffect := systemStep_effect_of_reachable (hearlier.reachable hreach) hlast
    rw [← hsame] at hended
    obtain ⟨⟨hafter, _⟩, hcases⟩ := heffect.game_cases hbefore
    have hcall : call.settles ≠ some gameId := by
      intro hsettles
      cases heffect with
      | settled _ _ _ _ _ _ hother hends =>
        cases hother.symm.trans hsettles
        exact hended hends.running
      | opened _ _ _ _ _ _ _ hother | moved _ _ _ _ _ _ hother => cases hother.symm.trans hsettles
      | mined | received | submitted | finalised => cases hsettles
    refine ⟨hafter, ?_, ?_⟩
    · rcases hcases with hgame | ⟨hrunning, _⟩ | ⟨_, _, hsettles, _⟩
      · exact hgame.trans hsame
      · exact absurd hrunning hended
      · exact absurd hsettles hcall
    · intro entry hmem
      rcases List.mem_append.mp hmem with hmem | hmem
      · exact hnone entry hmem
      · rw [List.mem_singleton.mp hmem]
        exact hcall

theorem lateSequencer_settled_final :
    ∃ state final : State, Reachable (systemStep sampleDeployment) (State.initial 100) state ∧
        (state.game.games 1).status = .sequencerWon ∧
        systemStep sampleDeployment state (.mine 101) = .ok final ∧
        final.game.games 1 = state.game.games 1 := by
  obtain ⟨state, final, hreach, hcall, hallocated, hwon⟩ := exists_call_of_traceOf
    (systemStep sampleDeployment) (State.initial 100)
    (lateSequencer ++ [freezeTermination frozenCommit]) (.mine 101)
    (fun state _ => state.Allocated 1 ∧ (state.game.games 1).status = .sequencerWon)
    (by decide +kernel)
  have hended : (state.game.games 1).status ≠ .inProgress := by
    rw [hwon]
    decide
  exact ⟨state, final, hreach, hwon, hcall,
    (settled_game_final hreach hallocated hended (Run.nil.snoc hcall)).1⟩

end FaultProof
end Canon
