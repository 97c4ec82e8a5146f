import Canon.FaultProofBonds

/-!
# What every settlement pays

A settlement pays the challenger's bond together with whatever it could slash.
This file adds the payments of a whole run up, game by game.  The sequencer's bond
is slashed for a game which a challenge has opened, unless the settlement is made
from within a payout of the submission contract.
-/

namespace Canon
namespace FaultProof

open StateRoots Function

instance (state : State) (gameId : ℕ) : Decidable (state.Allocated gameId) :=
  inferInstanceAs (Decidable (_ ∧ _))

def settlementAmount (deployment : Deployment)
    (amount : State → State → ℕ) (gameId : ℕ) (before : State) (call : SystemCall) : ℕ :=
  if call.settles = some gameId ∧ before.Allocated gameId then
    match systemStep deployment before call with
    | .error _ => 0
    | .ok after => amount before after
  else 0

def payouts (deployment : Deployment) (gameId : ℕ) (before after : State) : ℕ :=
  let game := after.game.games gameId
  (((after.game.transfers.drop before.game.transfers.length).filter
    fun transfer => transfer.1 = game.winner game.status ∨
      transfer.1 = deployment.game.treasury).map Prod.snd).sum

def slashed (before after : State) : ℕ := before.submission.balance - after.submission.balance

def State.settledValue (state : State) (value : Game → ℕ) (gameId : ℕ) : ℕ :=
  if state.Allocated gameId ∧ (state.game.games gameId).status ≠ .inProgress
    then value (state.game.games gameId)
  else 0

section Settlements

variable {deployment : Deployment} {state next : State} {call : SystemCall}

variable {gameId : ℕ} {reentered : Bool} {finalStatus : GameStatus}

theorem settledValue_eq_of_same {value : Game → ℕ}
    (hgame : next.game.games gameId = state.game.games gameId)
    (hallocated : next.Allocated gameId ↔ state.Allocated gameId) :
    next.settledValue value gameId = state.settledValue value gameId := by
  unfold State.settledValue
  rw [hgame]
  simp only [hallocated]

theorem settledValue_effect (heffect : SystemEffect deployment state next call)
    (value : Game → ℕ) (gameId : ℕ) :
    next.settledValue value gameId =
      state.settledValue value gameId +
        if call.settles = some gameId ∧ state.Allocated gameId then
          value (next.game.games gameId)
        else 0 := by
  cases heffect with
  | mined _ hnext | received _ hnext | submitted _ _ _ _ _ _ _ hnext
  | finalised _ _ _ _ _ _ hnext =>
    subst hnext
    rfl
  | opened _ _ _ _ _ _ _ hsettles hopened haccounts =>
    obtain ⟨turnDeadline, hgames⟩ := hopened.games
    simp only [SystemCall.settles, hsettles, reduceCtorEq, false_and, if_false, Nat.add_zero]
    by_cases hid : gameId = state.game.nextGameId + 1
    · have hbefore : ¬ state.Allocated gameId := by
        simp only [State.Allocated]
        omega
      have hrunning : (next.game.games gameId).status = .inProgress := by
        rw [hgames, hid, update_self]
        rfl
      simp [State.settledValue, hbefore, hrunning]
    · apply settledValue_eq_of_same
      · rw [hgames, update_of_ne hid]
      · exact hopened.allocated_iff hid
  | moved _ _ _ _ moved _ hsettles hmoved =>
    have hnext := hmoved.next_eq
    subst hnext
    simp only [SystemCall.settles, hsettles, reduceCtorEq, false_and, if_false, Nat.add_zero]
    by_cases hid : gameId = moved
    · simp [State.settledValue, State.setGame, hid, hmoved.status, hmoved.running]
    · apply settledValue_eq_of_same
      · simp only [State.setGame, update_of_ne hid]
      · exact Iff.rfl
  | settled _ _ _ _ ended _ hsettles hends hsettlement =>
    have hkept := State.allocated_iff_of_eq hsettlement.nextGameId gameId
    simp only [SystemCall.settles, hsettles, Option.some.injEq]
    by_cases hid : ended = gameId
    · subst hid
      have hended : (next.game.games ended).status ≠ .inProgress := by
        rw [hsettlement.games, update_self]
        exact hends.ended
      simp [State.settledValue, hkept, hended, hends.running]
    · simp only [hid, false_and, if_false, Nat.add_zero]
      apply settledValue_eq_of_same _ hkept
      rw [hsettlement.games, update_of_ne (Ne.symm hid)]

theorem traceTotal_settlementAmount
    {blockNumber : ℕ} {trace : List (State × SystemCall)} {final : State}
    {gameId : ℕ} {amount : State → State → ℕ} {value : Game → ℕ}
    (hamount : ∀ (before after : State) (reentered : Bool) (finalStatus : GameStatus),
      BondInvariant deployment before → Ends (before.game.games gameId) finalStatus →
      Settlement deployment reentered before after gameId finalStatus →
      amount before after = value (after.game.games gameId))
    (hrun : Run (systemStep deployment) (State.initial blockNumber) trace final) :
    traceTotal (settlementAmount deployment amount gameId) trace =
      final.settledValue value gameId := by
  have hstep : ∀ before call after,
      Reachable (systemStep deployment) (State.initial blockNumber) before →
      systemStep deployment before call = .ok after →
      after.settledValue value gameId =
        before.settledValue value gameId +
          settlementAmount deployment amount gameId before call := by
    intro before call after hreach hcall
    have heffect := systemStep_effect_of_reachable hreach hcall
    rw [settledValue_effect heffect]
    congr 1
    unfold settlementAmount
    rw [hcall]
    by_cases hsettled : call.settles = some gameId ∧ before.Allocated gameId
    · rw [if_pos hsettled, if_pos hsettled]
      have hsettles := hsettled.1
      cases heffect with
      | settled _ _ reentered _ ended finalStatus hid hends hsettlement =>
        have hsame : ended = gameId := by
          rw [SystemCall.settles, hid] at hsettles
          exact Option.some.inj hsettles
        subst hsame
        exact (hamount before after reentered finalStatus
          (BondInvariant.of_reachable hreach) hends hsettlement).symm
      | opened _ _ _ _ _ _ _ hnone | moved _ _ _ _ _ _ hnone =>
        rw [SystemCall.settles, hnone] at hsettles
        cases hsettles
      | _ => cases hsettles
    · rw [if_neg hsettled, if_neg hsettled]
  have hcollects := Run.collects hstep hrun
  have hstart : (State.initial blockNumber).settledValue value gameId = 0 :=
    if_neg fun hsettled => hsettled.2 rfl
  rw [hstart, Nat.zero_add] at hcollects
  exact hcollects.symm

theorem slashed_eq_slashedBond
    (hsettlement : Settlement deployment reentered state next gameId finalStatus) :
    slashed state next = slashedBond state reentered gameId finalStatus := by
  unfold slashed slashedBond
  rw [hsettlement.submission.balance]
  unfold Submission.afterSettlement
  by_cases hwins : finalStatus.challengerWins = true
  · by_cases hcan : state.submission.CanSlash reentered (state.game.games gameId).disputedLogIndex
    · have hcovered := hcan.2.2.2.2
      simp only [hwins, hcan, if_true, and_self, Submission.afterSlash_balance]
      omega
    · simp [hwins, hcan]
  · have hnone : ¬ (finalStatus.challengerWins = true ∧
        state.submission.CanSlash reentered (state.game.games gameId).disputedLogIndex) :=
      fun hboth => hwins hboth.1
    rw [if_neg hwins, if_neg hnone]
    split <;> simp [Submission.setRoot]

theorem slashed_eq_sequencerBond
    (hinv : BondInvariant deployment state) (hends : Ends (state.game.games gameId) finalStatus)
    (hsettlement : Settlement deployment reentered state next gameId finalStatus) :
    slashed state next = (next.game.games gameId).sequencerBond := by
  rw [slashed_eq_slashedBond hsettlement, hsettlement.games,
    update_self, hinv.slots.unslashed gameId hends.running, Nat.zero_add]

theorem payouts_eq_bonds
    (hsettlement : Settlement deployment reentered state next gameId finalStatus) :
    payouts deployment gameId state next =
      (next.game.games gameId).challengerBond + (next.game.games gameId).sequencerBond := by
  have hgame : next.game.games gameId =
      { state.game.games gameId with
        status := finalStatus
        sequencerBond := (state.game.games gameId).sequencerBond +
          slashedBond state reentered gameId finalStatus } := by
    rw [hsettlement.games, update_self]
  have hwinner : (next.game.games gameId).winner (next.game.games gameId).status =
        (state.game.games gameId).winner finalStatus := by
    rw [hgame]
    rfl
  have hnew : next.game.transfers.drop state.game.transfers.length =
      settlementTransfers ((state.game.games gameId).winner finalStatus) deployment.game.treasury
        (settlementPot state reentered gameId finalStatus) := by
    rw [hsettlement.transfers, List.drop_left]
  unfold payouts
  simp only [hwinner, hnew]
  rw [List.filter_eq_self.mpr, settlementTransfers_sum, hgame]
  · unfold settlementPot
    simp only
    omega
  · intro transfer hmem
    have hpair := List.mem_of_mem_filter hmem
    simp only [List.mem_cons, List.not_mem_nil, or_false] at hpair
    rcases hpair with hfirst | hsecond
    · simp [hfirst]
    · simp [hsecond]

def RootBonded (submission : Submission) (logIndex : UInt64) : Prop :=
  submission.IsSubmitted logIndex ∧ (submission.roots logIndex).finalised = false ∧
    (submission.roots logIndex).bond ≠ 0

/-- A settlement against the sequencer takes exactly one bond, outside of
payouts and for games which were opened or while root 0 has its bond. -/
theorem slashed_eq_submissionBond_iff
    (hinv : BondInvariant deployment state) (hends : Ends (state.game.games gameId) finalStatus)
    (hwins : finalStatus.challengerWins = true)
    (hsettlement : Settlement deployment reentered state next gameId finalStatus) :
    slashed state next = deployment.submission.submissionBond ↔
      reentered = false ∧ (state.Allocated gameId ∨ RootBonded state.submission 0) := by
  have hpositive := deployment.submission.submissionBond_ne_zero
  have hcan : state.submission.CanSlash reentered (state.game.games gameId).disputedLogIndex ↔
      reentered = false ∧ (state.Allocated gameId ∨ RootBonded state.submission 0) := by
    have hcovered := hinv.bond_le_balance (state.game.games gameId).disputedLogIndex
    have hbonded : state.submission.CanSlash reentered (state.game.games gameId).disputedLogIndex ↔
        reentered = false ∧ RootBonded state.submission
          (state.game.games gameId).disputedLogIndex := by
      simp only [Submission.CanSlash, RootBonded, hcovered, and_true]
    rw [hbonded]
    by_cases hallocated : state.Allocated gameId
    · obtain ⟨hopen, hbond⟩ := hinv.running gameId hallocated hends.running
      have hmarked := hinv.dispute.marked gameId _ ⟨hallocated, .inl hends.running, rfl⟩
      simp only [RootBonded, hmarked.1, hopen, ne_eq, hbond,
        not_false_eq_true, and_self, hallocated, true_or]
    · rw [(hinv.slots.blank gameId hallocated).2.1]
      simp only [hallocated, false_or]
  rw [slashed_eq_slashedBond hsettlement, ← hcan]
  unfold slashedBond
  constructor
  · intro hbond
    by_contra hcannot
    rw [if_neg (fun hboth => hcannot hboth.2)] at hbond
    exact hpositive hbond.symm
  · intro hslash
    rw [if_pos ⟨hwins, hslash⟩]
    rcases hinv.full (state.game.games gameId).disputedLogIndex with
      hzero | hfull
    · exact absurd hzero hslash.2.2.2.1
    · exact hfull

end Settlements

/-- Running games and their roots: one game for a root, the root marked and
open with its whole bond, and the challengers' bonds in the contract. -/
structure JointBonds (deployment : Deployment) (state : State) : Prop where
  single : ∀ gameId other, state.Allocated gameId → state.Allocated other →
    (state.game.games gameId).status = .inProgress → (state.game.games other).status = .inProgress →
    (state.game.games gameId).disputedLogIndex =
      (state.game.games other).disputedLogIndex → gameId = other
  kept : ∀ gameId, state.Allocated gameId → (state.game.games gameId).status = .inProgress →
    (state.submission.roots (state.game.games gameId).disputedLogIndex).disputed = true ∧
      (state.submission.roots (state.game.games gameId).disputedLogIndex).finalised = false ∧
      (state.submission.roots (state.game.games gameId).disputedLogIndex).bond =
          deployment.submission.submissionBond
  reserve : state.runningBonds ≤ state.game.balance

theorem JointBonds.of_invariant {deployment : Deployment} {state : State}
    (hinv : BondInvariant deployment state) : JointBonds deployment state := by
  constructor
  · intro gameId other hgame hother hrunning hrunning' hsame
    exact hinv.dispute.unique gameId other _ ⟨hgame, .inl hrunning, rfl⟩
      ⟨hother, .inl hrunning', hsame.symm⟩
  · intro gameId hgame hrunning
    obtain ⟨hopen, hbond⟩ := hinv.running gameId hgame hrunning
    refine ⟨(hinv.dispute.marked gameId _ ⟨hgame, .inl hrunning, rfl⟩).2, hopen, ?_⟩
    exact (hinv.full _).resolve_left hbond
  · exact hinv.reserve

/-- The joint bonds at the end of a run, what every settled game has paid, and
when a settlement against the sequencer has slashed exactly one bond. -/
theorem bonds_of_run {deployment : Deployment} {blockNumber : ℕ}
    {trace : List (State × SystemCall)} {final : State}
    (hrun : Run (systemStep deployment) (State.initial blockNumber) trace final) :
    JointBonds deployment final ∧
      (∀ gameId, final.Allocated gameId → (final.game.games gameId).status ≠ .inProgress →
        traceTotal (settlementAmount deployment (fun _ _ => 1) gameId) trace = 1 ∧
          traceTotal (settlementAmount deployment (payouts deployment gameId) gameId) trace =
            (final.game.games gameId).challengerBond +
              traceTotal (settlementAmount deployment slashed gameId) trace) ∧
      ∀ before sender value reentered call after gameId,
        (before, .game sender value reentered call) ∈ trace → call.settles = some gameId →
        systemStep deployment before (.game sender value reentered call) = .ok after →
        (after.game.games gameId).status.challengerWins = true →
        (slashed before after = deployment.submission.submissionBond ↔
          reentered = false ∧ (before.Allocated gameId ∨ RootBonded before.submission 0)) := by
  refine ⟨.of_invariant (.of_reachable ⟨trace, hrun⟩), ?_, ?_⟩
  · intro gameId hallocated hsettled
    have hvalue : ∀ value : Game → ℕ, final.settledValue value gameId =
        value (final.game.games gameId) := fun value => if_pos ⟨hallocated, hsettled⟩
    have hcount := @traceTotal_settlementAmount deployment blockNumber trace
      final gameId (fun _ _ => 1) (fun _ => 1) (fun _ _ _ _ _ _ _ => rfl) hrun
    have hpaid := @traceTotal_settlementAmount deployment blockNumber trace
      final gameId (payouts deployment gameId)
      (fun game => game.challengerBond + game.sequencerBond)
      (fun _ _ _ _ _ _ hsettlement => payouts_eq_bonds hsettlement) hrun
    have hslash := @traceTotal_settlementAmount deployment blockNumber trace
      final gameId slashed Game.sequencerBond
      (fun _ _ _ _ hinv hends hsettlement =>
        slashed_eq_sequencerBond hinv hends hsettlement) hrun
    rw [hvalue] at hcount hpaid hslash
    exact ⟨hcount, by rw [hpaid, hslash]⟩
  · intro before sender value reentered call after gameId hmem hsettles hstep hwins
    obtain ⟨earlier, later, middle, _, hearlier, _, _⟩ := hrun.split hmem
    have hinv := BondInvariant.of_reachable ⟨earlier, hearlier⟩
    obtain ⟨finalStatus, payout, hends, hsettle⟩ :=
      callGame_settle (mapError_eq_ok.mp hstep) hsettles
    have hsettlement := settle_accounts (hinv.bond_lt _) hsettle
    have hstatus : (after.game.games gameId).status = finalStatus := by
      rw [hsettlement.games, update_self]
    rw [hstatus] at hwins
    exact slashed_eq_submissionBond_iff hinv hends hwins hsettlement

/-! ## A settlement inside a payout, and a settlement of nothing -/

def lateSequencer : List SystemCall := challengedRoots .zero Bytes32.zero.perturb ++ [.mine 101]

def timeout (reentered : Bool) (gameId : ℕ) : SystemCall :=
  .game 0x5E9 0 reentered (.claimTimeout gameId ⟨true, true⟩)

/-- The sequencer claims the timeout of game 1 while it receives the bond of
root 0: it loses the game and its bond is not slashed.  Nothing is slashed
either when somebody times out an id which was never opened. -/
theorem settlements_without_slash :
    (∃ start before after : State,
      Reachable (systemStep sampleDeployment) (State.initial 100) start ∧
        systemStep sampleDeployment start
          (.submission 0x5E9 0 (.finaliseStateRoot 0 true)) = .ok before ∧
        systemStep sampleDeployment before (timeout true 1) = .ok after ∧ before.Allocated 1 ∧
        (after.game.games 1).status = .timedOutSequencer ∧ slashed before after = 0) ∧
      ∃ after : State, systemStep sampleDeployment (State.initial 100) (timeout false 7) =
            .ok after ∧ (after.game.games 7).status = .timedOutSequencer ∧
          slashed (State.initial 100) after = 0 := by
  constructor
  · obtain ⟨start, before, hreach, hfinalise, hpasses⟩ := exists_call_of_traceOf
      (systemStep sampleDeployment) (State.initial 100) lateSequencer
      (.submission 0x5E9 0 (.finaliseStateRoot 0 true))
      (fun _ before => callPasses (systemStep sampleDeployment) (timeout true 1)
        (fun before after => before.Allocated 1 ∧
          (after.game.games 1).status = .timedOutSequencer ∧ slashed before after = 0)
        before = true) (by decide +kernel)
    obtain ⟨after, hcall, hfinal⟩ := callPasses_eq_true.mp hpasses
    exact ⟨start, before, after, hreach, hfinalise, hcall, of_decide_eq_true hfinal⟩
  · have hblank : callPasses (systemStep sampleDeployment) (timeout false 7)
        (fun before after => (after.game.games 7).status = .timedOutSequencer ∧
          slashed before after = 0) (State.initial 100) = true := by
      decide +kernel
    obtain ⟨after, hcall, hfinal⟩ := callPasses_eq_true.mp hblank
    exact ⟨after, hcall, of_decide_eq_true hfinal⟩

theorem lateSequencer_bonds :
    ∃ trace final, Run (systemStep sampleDeployment) (State.initial 100) trace final ∧
        JointBonds sampleDeployment final ∧
        traceTotal (settlementAmount sampleDeployment
          (payouts sampleDeployment 1) 1) trace = 1500 := by
  obtain ⟨trace, final, hrun, hallocated, hsettled, hbond, hslashed⟩ := exists_run_of_traceOf
    (systemStep sampleDeployment) (State.initial 100) (lateSequencer ++ [timeout false 1])
    (fun trace final => final.Allocated 1 ∧ (final.game.games 1).status ≠ .inProgress ∧
      (final.game.games 1).challengerBond = 500 ∧
      traceTotal (settlementAmount sampleDeployment slashed 1) trace = 1000) (by decide +kernel)
  obtain ⟨hjoint, hpaid, _⟩ := bonds_of_run hrun
  refine ⟨trace, final, hrun, hjoint, ?_⟩
  rw [(hpaid 1 hallocated hsettled).2, hbond, hslashed]

end FaultProof
end Canon
