import Canon.FaultProofBonds

/-!
# The lock of a disputed root

`activeGameForLogIndex` is set at the disputed index when a game opens.  A
settlement clears it at the upper end of the range which the bisection has
reached.  The two are the same index as long as every midpoint was agreed.
-/

namespace Canon
namespace FaultProof

open StateRoots Function

structure RunsOn (state : State) (gameId : ℕ) (logIndex : UInt64) : Prop where
  allocated : state.Allocated gameId
  running : (state.game.games gameId).status = .inProgress
  disputed : (state.game.games gameId).disputedLogIndex = logIndex

/-- A lock which is set is a running game on its root, and every running game
holds the lock of its root. -/
structure LockInvariant (state : State) : Prop where
  locked_iff : ∀ logIndex, state.game.activeGameForLogIndex logIndex ≠ 0 ↔
      RunsOn state (state.game.activeGameForLogIndex logIndex) logIndex
  found : ∀ gameId logIndex, RunsOn state gameId logIndex →
    state.game.activeGameForLogIndex logIndex = gameId

def clearsOwnLock (before : State) (call : SystemCall) : Bool :=
  match call.settles with
  | none => true
  | some gameId => decide ((before.game.games gameId).high.idx =
      (before.game.games gameId).disputedLogIndex)

section Locks

variable {deployment : Deployment} {state next : State} {call : SystemCall}

variable {gameId ended : ℕ} {logIndex disputedLogIndex lowLogIndex : UInt64} {lowCommit : Bytes32}
  {reentered : Bool} {finalStatus : GameStatus} {context : CallContext} {sender : Address}
  {challengerCommit : Bytes32}

theorem RunsOn.ne_zero
    (hruns : RunsOn state gameId logIndex) : gameId ≠ 0 := Nat.pos_iff_ne_zero.mp hruns.allocated.1

theorem LockInvariant.of_held
    (hheld : ∀ logIndex, state.game.activeGameForLogIndex logIndex ≠ 0 →
      RunsOn state (state.game.activeGameForLogIndex logIndex) logIndex)
    (hfound : ∀ gameId logIndex, RunsOn state gameId logIndex →
      state.game.activeGameForLogIndex logIndex = gameId) : LockInvariant state :=
  ⟨fun logIndex => ⟨hheld logIndex, RunsOn.ne_zero⟩, hfound⟩

theorem LockInvariant.initial (blockNumber : ℕ) : LockInvariant (State.initial blockNumber) := by
  apply LockInvariant.of_held
  · intro logIndex hlocked
    exact absurd rfl hlocked
  · intro gameId logIndex hruns
    have hbounds := hruns.allocated
    simp only [State.Allocated, State.initial] at hbounds
    omega

theorem LockInvariant.of_same (hinv : LockInvariant state)
    (hactive : next.game.activeGameForLogIndex = state.game.activeGameForLogIndex)
    (hruns : ∀ gameId logIndex, RunsOn next gameId logIndex ↔ RunsOn state gameId logIndex) :
    LockInvariant next := by
  constructor
  · intro logIndex
    rw [hactive, hruns]
    exact hinv.locked_iff logIndex
  · intro gameId logIndex hnext
    rw [hactive]
    exact hinv.found gameId logIndex ((hruns gameId logIndex).mp hnext)

theorem RunsOn.of_games (hgames : next.game.games = state.game.games)
    (hid : next.game.nextGameId = state.game.nextGameId) :
    RunsOn next gameId logIndex ↔ RunsOn state gameId logIndex := by
  constructor
  · rintro ⟨hallocated, hrunning, hdisputed⟩
    rw [State.Allocated, hid] at hallocated
    rw [hgames] at hrunning hdisputed
    exact ⟨hallocated, hrunning, hdisputed⟩
  · rintro ⟨hallocated, hrunning, hdisputed⟩
    rw [State.Allocated, ← hid] at hallocated
    rw [← hgames] at hrunning hdisputed
    exact ⟨hallocated, hrunning, hdisputed⟩

theorem RunsOn.opened_iff
    (hopened : Opened deployment context state next disputedLogIndex lowCommit lowLogIndex) :
    RunsOn next gameId logIndex ↔
      (gameId = state.game.nextGameId + 1 ∧ logIndex = disputedLogIndex) ∨
        RunsOn state gameId logIndex := by
  obtain ⟨turnDeadline, hgames⟩ := hopened.games
  by_cases hid : gameId = state.game.nextGameId + 1
  · subst hid
    constructor
    · intro hruns
      have hindex := hruns.disputed
      rw [hgames, update_self] at hindex
      exact .inl ⟨rfl, hindex.symm⟩
    · rintro (⟨_, hindex⟩ | hruns)
      · refine ⟨?_, ?_, ?_⟩
        · exact hopened.allocated_new
        · rw [hgames, update_self]
          rfl
        · rw [hgames, update_self, hindex]
          rfl
      · have hbounds := hruns.allocated
        simp only [State.Allocated] at hbounds
        omega
  · have hallocated := hopened.allocated_iff hid
    have hgame : next.game.games gameId = state.game.games gameId := by
      rw [hgames, update_of_ne hid]
    constructor
    · rintro ⟨hnext, hrunning, hindex⟩
      rw [hgame] at hrunning hindex
      exact .inr ⟨hallocated.mp hnext, hrunning, hindex⟩
    · rintro (⟨heq, _⟩ | ⟨hbefore, hrunning, hindex⟩)
      · exact absurd heq hid
      · rw [← hgame] at hrunning hindex
        exact ⟨hallocated.mpr hbefore, hrunning, hindex⟩

theorem RunsOn.moved_iff {moved : ℕ} {game : Game} (hmoved : Moved state next moved game) :
    RunsOn next gameId logIndex ↔ RunsOn state gameId logIndex := by
  have hnext := hmoved.next_eq
  subst hnext
  have hstatus : ((state.setGame moved game).game.games gameId).status =
        .inProgress ↔ (state.game.games gameId).status = .inProgress := by
    by_cases hid : gameId = moved
    · simp [State.setGame, hid, hmoved.status, hmoved.running]
    · simp [State.setGame, hid]
  have hindex : ((state.setGame moved game).game.games gameId).disputedLogIndex =
        (state.game.games gameId).disputedLogIndex := by
    by_cases hid : gameId = moved
    · simp [State.setGame, hid, hmoved.disputed]
    · simp [State.setGame, hid]
  constructor
  · rintro ⟨hallocated, hrunning, hdisputed⟩
    exact ⟨hallocated, hstatus.mp hrunning, hindex ▸ hdisputed⟩
  · rintro ⟨hallocated, hrunning, hdisputed⟩
    exact ⟨hallocated, hstatus.mpr hrunning, hindex.trans hdisputed⟩

theorem RunsOn.settled_iff (hends : Ends (state.game.games ended) finalStatus)
    (hsettlement : Settlement deployment reentered state next ended finalStatus) :
    RunsOn next gameId logIndex ↔ gameId ≠ ended ∧ RunsOn state gameId logIndex := by
  have hallocated := State.allocated_iff_of_eq hsettlement.nextGameId gameId
  by_cases hid : gameId = ended
  · subst hid
    simp only [ne_eq, not_true_eq_false, false_and, iff_false]
    intro hruns
    have hstatus := hruns.running
    rw [hsettlement.games, update_self] at hstatus
    exact hends.ended hstatus
  · have hgame : next.game.games gameId = state.game.games gameId := by
      rw [hsettlement.games, update_of_ne hid]
    simp only [ne_eq, hid, not_false_eq_true, true_and]
    constructor
    · rintro ⟨hnext, hrunning, hindex⟩
      rw [hgame] at hrunning hindex
      exact ⟨hallocated.mp hnext, hrunning, hindex⟩
    · rintro ⟨hbefore, hrunning, hindex⟩
      rw [← hgame] at hrunning hindex
      exact ⟨hallocated.mpr hbefore, hrunning, hindex⟩

theorem LockInvariant.opened
    (hopened : Opened deployment context state next disputedLogIndex lowCommit lowLogIndex)
    (hinv : LockInvariant state) : LockInvariant next := by
  apply LockInvariant.of_held
  · intro logIndex hlocked
    rw [RunsOn.opened_iff hopened]
    rw [hopened.active] at hlocked ⊢
    by_cases hindex : logIndex = disputedLogIndex
    · rw [hindex, update_self]
      exact .inl ⟨rfl, rfl⟩
    · rw [update_of_ne hindex] at hlocked ⊢
      exact .inr ((hinv.locked_iff logIndex).mp hlocked)
  · intro gameId logIndex hruns
    rw [hopened.active]
    rcases (RunsOn.opened_iff hopened).mp hruns with
      ⟨hid, hindex⟩ | hbefore
    · rw [hid, hindex, update_self]
    · have hlock := hinv.found gameId logIndex hbefore
      have hindex : logIndex ≠ disputedLogIndex := by
        intro heq
        rw [heq, hopened.unlocked] at hlock
        exact hbefore.ne_zero hlock.symm
      rw [update_of_ne hindex]
      exact hlock

theorem LockInvariant.settled_iff (hends : Ends (state.game.games ended) finalStatus)
    (hsettlement : Settlement deployment reentered state next ended finalStatus)
    (hslots : SlotInvariant state) (hinv : LockInvariant state) :
    LockInvariant next ↔
      (state.game.games ended).high.idx = (state.game.games ended).disputedLogIndex := by
  constructor
  · intro hnext
    by_cases hallocated : state.Allocated ended
    · by_contra hother
      have hlock := hinv.found ended _ ⟨hallocated, hends.running, rfl⟩
      have hkept : next.game.activeGameForLogIndex
          (state.game.games ended).disputedLogIndex = ended := by
        rw [hsettlement.active, update_of_ne (Ne.symm hother)]
        exact hlock
      have hruns := (hnext.locked_iff (state.game.games ended).disputedLogIndex).mp
          (by rw [hkept]; exact Nat.pos_iff_ne_zero.mp hallocated.1)
      rw [hkept] at hruns
      exact ((RunsOn.settled_iff hends hsettlement).mp hruns).1 rfl
    · obtain ⟨hhigh, hdisputed, _⟩ := hslots.blank ended hallocated
      rw [hhigh, hdisputed]
  · intro hown
    have hactive := hsettlement.active
    rw [hown] at hactive
    apply LockInvariant.of_held
    · intro logIndex hlocked
      rw [hactive] at hlocked ⊢
      have hindex : logIndex ≠ (state.game.games ended).disputedLogIndex := by
        intro heq
        rw [heq, update_self] at hlocked
        exact hlocked rfl
      rw [update_of_ne hindex] at hlocked ⊢
      have hruns := (hinv.locked_iff logIndex).mp hlocked
      rw [RunsOn.settled_iff hends hsettlement]
      refine ⟨?_, hruns⟩
      intro heq
      have hdisputed := hruns.disputed
      rw [heq] at hdisputed
      exact hindex hdisputed.symm
    · intro gameId logIndex hruns
      obtain ⟨hid, hbefore⟩ := (RunsOn.settled_iff hends hsettlement).mp hruns
      have hlock := hinv.found gameId logIndex hbefore
      have hindex : logIndex ≠ (state.game.games ended).disputedLogIndex := by
        intro heq
        by_cases hallocated : state.Allocated ended
        · have hsame := hinv.found ended logIndex ⟨hallocated, hends.running, heq.symm⟩
          exact hid (hlock.symm.trans hsame)
        · have hpos := hslots.indexed gameId hbefore.allocated
          rw [hbefore.disputed, heq, (hslots.blank ended hallocated).2.1] at hpos
          exact absurd hpos (UInt64.lt_irrefl 0)
      rw [hactive, update_of_ne hindex]
      exact hlock

theorem LockInvariant.effect_iff (heffect : SystemEffect deployment state next call)
    (hslots : SlotInvariant state) (hinv : LockInvariant state) :
    LockInvariant next ↔ clearsOwnLock state call = true := by
  cases heffect with
  | mined _ hnext | received _ hnext | submitted _ _ _ _ _ _ _ hnext
  | finalised _ _ _ _ _ _ hnext =>
    subst hnext
    exact iff_of_true (hinv.of_same rfl fun _ _ => RunsOn.of_games rfl rfl) rfl
  | opened _ _ _ _ _ _ _ hsettles hopened =>
    apply iff_of_true (hinv.opened hopened)
    simp [clearsOwnLock, SystemCall.settles, hsettles]
  | moved _ _ _ _ _ _ hsettles hmoved =>
    have hactive : next.game.activeGameForLogIndex = state.game.activeGameForLogIndex := by
      rw [hmoved.next_eq]
      rfl
    apply iff_of_true (hinv.of_same hactive fun _ _ =>
      RunsOn.moved_iff hmoved)
    simp [clearsOwnLock, SystemCall.settles, hsettles]
  | settled _ _ _ _ _ _ hsettles hends hsettlement =>
    rw [hinv.settled_iff hends hsettlement hslots]
    simp [clearsOwnLock, SystemCall.settles, hsettles]

theorem markDisputed_eq_ok {params : SubmissionParams} {context : CallContext}
    {submission : Submission} {logIndex : UInt64} (hvalue : context.value = 0)
    (hentered : context.submissionEntered = false)
    (hsender : context.sender = params.faultProofGame)
    (hsubmitted : submission.IsSubmitted logIndex)
    (hopen : (submission.roots logIndex).finalised = false)
    (hfree : (submission.roots logIndex).disputed = false) :
    markDisputed params context submission logIndex =
      .ok (submission.setRoot logIndex { submission.roots logIndex with disputed := true }) := by
  simp only [markDisputed, bind_eq_ok, revertIf_eq_ok, exists_const,
    pure_eq_ok, ne_eq, not_not, Bool.not_eq_true]
  exact ⟨hvalue, hentered, hsender, hsubmitted, hopen, hfree, trivial⟩

theorem initiateChallenge_succeeds_iff (hlow : lowLogIndex < disputedLogIndex)
    (hcommit : challengerCommit ≠ (state.submission.roots disputedLogIndex).stateCommit)
    (hid : state.game.nextGameId + 1 < 2 ^ 256)
    (hdeadline : (UInt64.ofNat state.blockNumber).toNat +
      deployment.game.bisectionResponseTimeout.toNat < 2 ^ 64) :
    (∃ next, systemStep deployment state (.game sender
        deployment.game.minChallengeBond false (.initiateChallenge
          disputedLogIndex challengerCommit lowCommit lowLogIndex)) = .ok next) ↔
      state.game.activeGameForLogIndex disputedLogIndex = 0 ∧
        state.submission.IsSubmitted disputedLogIndex ∧
        (state.submission.roots disputedLogIndex).finalised = false ∧
        (state.submission.roots disputedLogIndex).disputed = false := by
  constructor
  · rintro ⟨next, hstep⟩
    have hopened := initiateChallenge_effect (mapError_eq_ok.mp hstep)
    exact ⟨hopened.unlocked, hopened.submitted, hopened.unfinalised, hopened.undisputed⟩
  · rintro ⟨hunlocked, hsubmitted, hopen, hfree⟩
    have hmark := @markDisputed_eq_ok deployment.submission (nestedContext deployment
        ⟨sender, deployment.game.minChallengeBond, state.blockNumber, false⟩)
      state.submission disputedLogIndex rfl rfl deployment.wired.symm hsubmitted hopen hfree
    simp only [systemStep, callGame, mapError_eq_ok, initiateChallenge,
      newDeadline, hmark, bind_eq_ok, revertIf_eq_ok, exists_const,
      checkedAdd_eq_ok, checkedAdd64_eq_ok, pure_eq_ok, ne_eq, not_not, Bool.not_eq_true]
    exact ⟨_, trivial, hunlocked, UInt64.not_le.mpr hlow, hsubmitted, hopen,
      hcommit, _, ⟨hid, rfl⟩, _, ⟨hdeadline, rfl⟩, _, rfl, rfl⟩

theorem rechallenge_iff (hinv : BondInvariant deployment state)
    (hallocated : state.Allocated ended) (hends : Ends (state.game.games ended) finalStatus)
    (hloses : finalStatus.challengerWins = false)
    (hsettlement : Settlement deployment reentered state next ended finalStatus)
    (hown : (state.game.games ended).high.idx = (state.game.games ended).disputedLogIndex)
    (hlow : lowLogIndex < (state.game.games ended).disputedLogIndex)
    (hcommit : challengerCommit ≠ (next.submission.roots
      (state.game.games ended).disputedLogIndex).stateCommit)
    (hid : next.game.nextGameId + 1 < 2 ^ 256) (hdeadline : (UInt64.ofNat next.blockNumber).toNat +
      deployment.game.bisectionResponseTimeout.toNat < 2 ^ 64) :
    (∃ later, systemStep deployment next (.game sender
        deployment.game.minChallengeBond false (.initiateChallenge
          (state.game.games ended).disputedLogIndex challengerCommit
          lowCommit lowLogIndex)) = .ok later) ↔ reentered = false := by
  rw [initiateChallenge_succeeds_iff hlow hcommit hid hdeadline]
  obtain ⟨hsubmitted, hmarked⟩ := hinv.dispute.marked ended _ ⟨hallocated, .inl hends.running, rfl⟩
  have hopen := (hinv.running ended hallocated hends.running).1
  have hunlocked : next.game.activeGameForLogIndex
      (state.game.games ended).disputedLogIndex = 0 := by
    rw [hsettlement.active, hown, update_self]
  have hstill : next.submission.IsSubmitted (state.game.games ended).disputedLogIndex := by
    unfold Submission.IsSubmitted at hsubmitted ⊢
    rw [hsettlement.submission.roots, afterSettlement_submitted]
    exact hsubmitted
  have hunfinalised : (next.submission.roots
      (state.game.games ended).disputedLogIndex).finalised = false := by
    rw [hsettlement.submission.roots, afterSettlement_finalised]
    exact hopen
  have hmark : (next.submission.roots
      (state.game.games ended).disputedLogIndex).disputed = reentered := by
    rw [hsettlement.submission.roots, hloses]
    unfold Submission.afterSettlement
    cases reentered with
    | true => simpa using hmarked
    | false => simp [hsubmitted]
  simp only [hunlocked, hstill, hunfinalised, hmark, true_and]

end Locks

/-- The locks are right through a run exactly when every settlement of the run
clears its own lock; and then a settlement touches no other game's lock, and a
root defended by the sequencer can be challenged again unless the settlement
was made inside a payout. -/
theorem locks_throughout_iff {deployment : Deployment} {blockNumber : ℕ}
    {trace : List (State × SystemCall)} {final : State}
    (hrun : Run (systemStep deployment) (State.initial blockNumber) trace final) :
    ((∀ earlier later state, trace = earlier ++ later →
        Run (systemStep deployment) (State.initial blockNumber) earlier
          state → LockInvariant state) ↔ ∀ entry ∈ trace, clearsOwnLock entry.1 entry.2 = true) ∧
    ((∀ entry ∈ trace, clearsOwnLock entry.1 entry.2 = true) →
      ∀ before sender value reentered call after gameId,
        (before, .game sender value reentered call) ∈ trace → call.settles = some gameId →
        systemStep deployment before (.game sender value reentered call) = .ok after →
        (∀ other logIndex, other ≠ gameId → RunsOn before other logIndex →
          after.game.activeGameForLogIndex logIndex = other) ∧
        (before.Allocated gameId → (after.game.games gameId).status.challengerWins = false →
          ∀ challenger challengerCommit lowCommit lowLogIndex,
            lowLogIndex < (before.game.games gameId).disputedLogIndex →
            challengerCommit ≠ (after.submission.roots
              (before.game.games gameId).disputedLogIndex).stateCommit →
            after.game.nextGameId + 1 < 2 ^ 256 →
            (UInt64.ofNat after.blockNumber).toNat +
              deployment.game.bisectionResponseTimeout.toNat < 2 ^ 64 →
            ((∃ later, systemStep deployment after (.game challenger
                deployment.game.minChallengeBond false (.initiateChallenge
                  (before.game.games gameId).disputedLogIndex
                  challengerCommit lowCommit lowLogIndex)) = .ok later) ↔ reentered = false))) := by
  have hlocks : (∀ earlier later state, trace = earlier ++ later →
        Run (systemStep deployment) (State.initial blockNumber) earlier
          state → LockInvariant state) ↔ ∀ entry ∈ trace, clearsOwnLock entry.1 entry.2 = true := by
    refine @Run.throughout_iff _ _ _ (systemStep deployment) LockInvariant
      (fun before call => clearsOwnLock before call = true) _ _ _ (.initial blockNumber) ?_ hrun
    intro before call after hreach hstep hinv
    exact hinv.effect_iff (systemStep_effect_of_reachable hreach hstep)
      (BondInvariant.of_reachable hreach).slots
  refine ⟨hlocks, ?_⟩
  intro hclears before sender value reentered call after gameId hmem hsettles hstep
  obtain ⟨earlier, later, middle, htrace, hearlier, hmiddle, _⟩ := hrun.split hmem
  have hinv := BondInvariant.of_reachable ⟨earlier, hearlier⟩
  obtain ⟨finalStatus, payout, hends, hsettle⟩ := callGame_settle (mapError_eq_ok.mp hstep) hsettles
  have hsettlement := settle_accounts (hinv.bond_lt _) hsettle
  have hafter : LockInvariant after := by
    apply hlocks.mpr hclears _ later after _ (hearlier.snoc hstep)
    rw [htrace]
    simp
  have hown : (before.game.games gameId).high.idx =
      (before.game.games gameId).disputedLogIndex := by
    have hclear := hclears _ hmem
    simpa [clearsOwnLock, SystemCall.settles, hsettles] using hclear
  constructor
  · intro other logIndex hother hruns
    exact hafter.found other logIndex ((RunsOn.settled_iff hends hsettlement).mpr ⟨hother, hruns⟩)
  · intro hallocated hloses challenger challengerCommit lowCommit
      lowLogIndex hlow hcommit hid hdeadline
    have hstatus : (after.game.games gameId).status = finalStatus := by
      rw [hsettlement.games, update_self]
    rw [hstatus] at hloses
    exact rechallenge_iff hinv hallocated hends hloses hsettlement hown hlow hcommit hid hdeadline

/-! ## Two games and a disagreement -/

/-- Roots 0, 1 and 2; game 1 disputes root 2 and game 2 disputes root 1.  In
game 1 the sequencer names a commit at index 1 and the challenger disagrees. -/
def disagreement : List SystemCall := (challengedRoots .zero Bytes32.zero.perturb).take 3 ++
    [.mine 10, .submission 0x5E9 1000 (.submitStateRoot 2 .zero
        (chainHash (chainHash .zero .zero) .zero)), .game 0xC4A 500 false
        (.initiateChallenge 2 Bytes32.zero.perturb .zero 0), .game 0xC4B 500 false
        (.initiateChallenge 1 Bytes32.zero.perturb .zero 0), .mine 1,
      .game 0x5E9 0 false (.submitMidpoint 1 .zero), .mine 1,
      .game 0xC4A 0 false (.respondToMidpoint 1 false)]

/-- The sequencer wins game 1 in one step.  The lock of root 2 stays with the
settled game 1, and the lock of root 1 is cleared under the running game 2. -/
theorem disagreement_breaks_locks :
    ∃ before after : State, Reachable (systemStep sampleDeployment) (State.initial 100) before ∧
        systemStep sampleDeployment before (freezeTermination frozenCommit) = .ok after ∧
        (after.game.games 1).status = .sequencerWon ∧ after.game.activeGameForLogIndex 2 = 1 ∧
        RunsOn before 2 1 ∧ RunsOn after 2 1 ∧ before.game.activeGameForLogIndex 1 = 2 ∧
        after.game.activeGameForLogIndex 1 = 0 := by
  obtain ⟨before, after, hreach, hcall, hwon, hstuck, hlock, hcleared, hbefore, hafter, hrunning,
    hrunning', hindex, hindex'⟩ := exists_call_of_traceOf
    (systemStep sampleDeployment) (State.initial 100) disagreement
    (freezeTermination frozenCommit)
    (fun before after => (after.game.games 1).status = .sequencerWon ∧
      after.game.activeGameForLogIndex 2 = 1 ∧ before.game.activeGameForLogIndex 1 = 2 ∧
      after.game.activeGameForLogIndex 1 = 0 ∧ before.game.nextGameId = 2 ∧ after.game.nextGameId = 2 ∧
      (before.game.games 2).status = .inProgress ∧ (after.game.games 2).status = .inProgress ∧
      (before.game.games 2).disputedLogIndex = 1 ∧ (after.game.games 2).disputedLogIndex = 1)
    (by decide +kernel)
  have hallocated : ∀ state : State, state.game.nextGameId = 2 → state.Allocated 2 := by
    intro state hnext
    exact ⟨by decide, by rw [hnext]⟩
  exact ⟨before, after, hreach, hcall, hwon, hstuck, ⟨hallocated before hbefore, hrunning, hindex⟩,
    ⟨hallocated after hafter, hrunning', hindex'⟩, hlock, hcleared⟩

theorem agreement_keeps_locks :
    ∃ trace final, Run (systemStep sampleDeployment) (State.initial 100) trace final ∧
        (final.game.games 1).status = .sequencerWon ∧ LockInvariant final := by
  obtain ⟨trace, final, hrun, hwon, hclears⟩ := exists_run_of_traceOf
    (systemStep sampleDeployment) (State.initial 100)
    (challengedRoots frozenCommit .zero ++ [freezeTermination frozenCommit])
    (fun trace final => (final.game.games 1).status = .sequencerWon ∧
      ∀ entry ∈ trace, clearsOwnLock entry.1 entry.2 = true) (by decide +kernel)
  exact ⟨trace, final, hrun, hwon,
    (locks_throughout_iff hrun).1.mpr hclears trace [] final (by simp) hrun⟩

end FaultProof
end Canon
