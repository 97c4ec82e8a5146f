import Canon.FaultProofOpening

/-!
# Finalisation and the games on a root

A game locks the root it disputes: the root is marked disputed while the game
runs, and stays marked when the challenger wins.  `finaliseStateRoot` reads the mark
of its own root only.

Ids which were never allocated are blank games.  They can time out, and then
the sequencer loses; they never release a lock.
-/

namespace Canon
namespace FaultProof

open StateRoots Function

def GameStatus.Locks (status : GameStatus) : Prop :=
  status = .inProgress ∨ status = .challengerWon ∨ status = .timedOutSequencer

theorem GameStatus.locks_iff (status : GameStatus) :
    status.Locks ↔ status.challengerWins = true := by
  cases status <;> simp [GameStatus.Locks, GameStatus.challengerWins]

def State.Allocated (state : State) (gameId : ℕ) : Prop :=
  0 < gameId ∧ gameId ≤ state.game.nextGameId

structure LocksRoot (state : State) (gameId : ℕ) (logIndex : UInt64) : Prop where
  allocated : state.Allocated gameId
  locks : (state.game.games gameId).status.Locks
  disputed : (state.game.games gameId).disputedLogIndex = logIndex

structure DisputeInvariant (state : State) : Prop where
  blank : ∀ gameId, ¬ state.Allocated gameId →
    (state.game.games gameId).turn = .sequencer ∧
      (state.game.games gameId).hasPendingMidpoint = false ∧
      ¬ (state.game.games gameId).low.idx < (state.game.games gameId).high.idx
  marked : ∀ gameId logIndex, LocksRoot state gameId logIndex →
    state.submission.IsSubmitted logIndex ∧ (state.submission.roots logIndex).disputed = true
  unique : ∀ gameId other logIndex, LocksRoot state gameId logIndex →
    LocksRoot state other logIndex → gameId = other

section Steps

variable {deployment : Deployment} {context : CallContext} {state next : State}

variable {disputedLogIndex lowLogIndex : UInt64} {lowCommit : Bytes32} {gameId ended : ℕ}
  {finalStatus : GameStatus}

theorem DisputeInvariant.initial (blockNumber : ℕ) :
    DisputeInvariant (State.initial blockNumber) := by
  have hnone : ∀ gameId logIndex, ¬ LocksRoot (State.initial blockNumber) gameId logIndex := by
    intro gameId logIndex hlocks
    have hbounds := hlocks.allocated
    simp only [State.Allocated, State.initial] at hbounds
    omega
  constructor
  · intro gameId _
    simp [State.initial, Game.unset]
  · intro gameId logIndex hlocks
    exact absurd hlocks (hnone gameId logIndex)
  · intro gameId other logIndex hlocks
    exact absurd hlocks (hnone gameId logIndex)

theorem State.allocated_iff_of_eq
    (hcount : next.game.nextGameId = state.game.nextGameId) (gameId : ℕ) :
    next.Allocated gameId ↔ state.Allocated gameId := by
  rw [State.Allocated, State.Allocated, hcount]

section

variable (hopened : Opened deployment context state next disputedLogIndex lowCommit lowLogIndex)
include hopened

theorem Opened.allocated_new : next.Allocated (state.game.nextGameId + 1) := by
  rw [State.Allocated, hopened.nextGameId]
  exact ⟨Nat.succ_pos _, le_rfl⟩

theorem Opened.allocated_iff (hid : gameId ≠ state.game.nextGameId + 1) :
    next.Allocated gameId ↔ state.Allocated gameId := by
  rw [State.Allocated, State.Allocated, hopened.nextGameId]
  omega

theorem LocksRoot.of_opened {logIndex : UInt64}
    (hinv : DisputeInvariant state) (hlocks : LocksRoot next gameId logIndex) :
    (gameId = state.game.nextGameId + 1 ∧ logIndex = disputedLogIndex) ∨
      (LocksRoot state gameId logIndex ∧ logIndex ≠ disputedLogIndex) := by
  obtain ⟨turnDeadline, hgames⟩ := hopened.games
  have hbounds := hlocks.allocated
  have hstatus := hlocks.locks
  have hindex := hlocks.disputed
  rw [hgames] at hstatus hindex
  by_cases hid : gameId = state.game.nextGameId + 1
  · rw [hid, update_self] at hindex
    exact .inl ⟨hid, hindex.symm⟩
  · rw [update_of_ne hid] at hstatus hindex
    have hbefore : LocksRoot state gameId logIndex :=
      ⟨(hopened.allocated_iff hid).mp hbounds, hstatus, hindex⟩
    refine .inr ⟨hbefore, ?_⟩
    intro heq
    have hmarked := (hinv.marked gameId logIndex hbefore).2
    rw [heq, hopened.undisputed] at hmarked
    cases hmarked

theorem DisputeInvariant.opened (hinv : DisputeInvariant state) : DisputeInvariant next := by
  constructor
  · intro gameId hfree
    obtain ⟨turnDeadline, hgames⟩ := hopened.games
    have hid : gameId ≠ state.game.nextGameId + 1 := by
      intro heq
      exact hfree (heq ▸ hopened.allocated_new)
    rw [hgames, update_of_ne hid]
    exact hinv.blank gameId ((hopened.allocated_iff hid).not.mp hfree)
  · intro gameId logIndex hlocks
    unfold Submission.IsSubmitted
    rw [hopened.roots]
    rcases hlocks.of_opened hopened hinv with ⟨_, hindex⟩ | ⟨hbefore, hne⟩
    · rw [hindex, update_self]
      exact ⟨hopened.submitted, rfl⟩
    · rw [update_of_ne hne]
      exact hinv.marked gameId logIndex hbefore
  · intro gameId other logIndex hlocks hother
    rcases hlocks.of_opened hopened hinv with ⟨hid, hindex⟩ | ⟨hbefore, hne⟩
    · rcases hother.of_opened hopened hinv with ⟨hid', _⟩ | ⟨_, hne'⟩
      · rw [hid, hid']
      · exact absurd hindex hne'
    · rcases hother.of_opened hopened hinv with
        ⟨_, hindex'⟩ | ⟨hbefore', _⟩
      · exact absurd hindex' hne
      · exact hinv.unique gameId other logIndex hbefore hbefore'

end

theorem DisputeInvariant.of_locks (hinv : DisputeInvariant state)
    (hblank : ∀ gameId, ¬ next.Allocated gameId →
      (next.game.games gameId).turn = .sequencer ∧
        (next.game.games gameId).hasPendingMidpoint = false ∧
        ¬ (next.game.games gameId).low.idx < (next.game.games gameId).high.idx)
    (hlocks : ∀ gameId logIndex, LocksRoot next gameId logIndex → LocksRoot state gameId logIndex)
    (hmarks : ∀ gameId logIndex, LocksRoot next gameId logIndex →
      (next.submission.roots logIndex).submittedAtBlock =
          (state.submission.roots logIndex).submittedAtBlock ∧
        (next.submission.roots logIndex).disputed = (state.submission.roots logIndex).disputed) :
    DisputeInvariant next := by
  constructor
  · exact hblank
  · intro gameId logIndex hnext
    obtain ⟨hsubmitted, hdisputed⟩ := hinv.marked gameId logIndex (hlocks gameId logIndex hnext)
    obtain ⟨hblock, hmark⟩ := hmarks gameId logIndex hnext
    unfold Submission.IsSubmitted at hsubmitted ⊢
    rw [hblock, hmark]
    exact ⟨hsubmitted, hdisputed⟩
  · intro gameId other logIndex hnext hother
    exact hinv.unique gameId other logIndex (hlocks gameId logIndex hnext)
      (hlocks other logIndex hother)

theorem DisputeInvariant.moved {moved : ℕ} {game : Game} (hmoved : Moved state next moved game)
    (hinv : DisputeInvariant state) : DisputeInvariant next := by
  have hallocated : state.Allocated moved := by
    by_contra hfree
    obtain ⟨_, hpending, hrange⟩ := hinv.blank moved hfree
    exact hrange (hmoved.midpoint hpending)
  have hnext := hmoved.next_eq
  subst hnext
  apply hinv.of_locks
  · intro gameId hfree
    have hid : gameId ≠ moved := by
      intro heq
      exact hfree (heq ▸ hallocated)
    simp only [State.setGame, update_of_ne hid]
    exact hinv.blank gameId hfree
  · intro gameId logIndex hlocks
    by_cases hid : gameId = moved
    · subst hid
      have hindex := hlocks.disputed
      simp only [State.setGame, update_self, hmoved.disputed] at hindex
      exact ⟨hallocated, .inl hmoved.running, hindex⟩
    · have hstatus := hlocks.locks
      have hindex := hlocks.disputed
      simp only [State.setGame, update_of_ne hid] at hstatus hindex
      exact ⟨hlocks.allocated, hstatus, hindex⟩
  · intro gameId logIndex _
    exact ⟨rfl, rfl⟩

section

variable (hends : Ends (state.game.games ended) finalStatus)
include hends

theorem LocksRoot.of_settled {logIndex : UInt64}
    (hsettled : Settled state next ended finalStatus) (hlocks : LocksRoot next gameId logIndex) :
    LocksRoot state gameId logIndex := by
  obtain ⟨bond, hgames⟩ := hsettled.games
  have hallocated := hlocks.allocated
  have hstatus := hlocks.locks
  have hindex := hlocks.disputed
  rw [State.Allocated, hsettled.nextGameId] at hallocated
  rw [hgames] at hstatus hindex
  by_cases hid : gameId = ended
  · subst hid
    rw [update_self] at hindex
    exact ⟨hallocated, .inl hends.running, hindex⟩
  · rw [update_of_ne hid] at hstatus hindex
    exact ⟨hallocated, hstatus, hindex⟩

theorem DisputeInvariant.allocated_of_favoured (hwins : finalStatus.challengerWins = false)
    (hinv : DisputeInvariant state) : state.Allocated ended := by
  by_contra hfree
  obtain ⟨hturn, _, hrange⟩ := hinv.blank ended hfree
  rcases hends.favoured hwins with hside | hlow
  · rw [hturn] at hside
    cases hside
  · exact hrange hlow

theorem DisputeInvariant.settled (hsettled : Settled state next ended finalStatus)
    (hinv : DisputeInvariant state) : DisputeInvariant next := by
  obtain ⟨bond, hgames⟩ := hsettled.games
  apply hinv.of_locks
  · intro gameId hfree
    rw [State.Allocated, hsettled.nextGameId] at hfree
    have hblank := hinv.blank gameId hfree
    rw [hgames]
    by_cases hid : gameId = ended
    · subst hid
      rw [update_self]
      exact hblank
    · rw [update_of_ne hid]
      exact hblank
  · intro gameId logIndex hlocks
    exact hlocks.of_settled hends hsettled
  · intro gameId logIndex hlocks
    refine ⟨hsettled.roots.submittedAtBlock logIndex, hsettled.roots.disputed logIndex ?_⟩
    cases hwins : finalStatus.challengerWins with
    | true => exact .inl rfl
    | false =>
      right
      intro heq
      have hended : LocksRoot state ended logIndex :=
        ⟨hinv.allocated_of_favoured hends hwins, .inl hends.running, heq.symm⟩
      have hsame := hinv.unique gameId ended logIndex (hlocks.of_settled hends hsettled) hended
      have hstatus := hlocks.locks
      rw [hgames, hsame, update_self, GameStatus.locks_iff, hwins] at hstatus
      cases hstatus

end

theorem DisputeInvariant.submissionStep {sender : Address} {value : ℕ} {call : SubmissionCall}
    (hstep : systemStep deployment state (.submission sender value call) = .ok next)
    (hinv : DisputeInvariant state) : DisputeInvariant next := by
  obtain ⟨hsender, submission, hcall, hnext⟩ := systemStep_submission hstep
  subst hnext
  have hlocks : ∀ gameId logIndex,
      LocksRoot { state with submission := submission } gameId logIndex →
      LocksRoot state gameId logIndex := fun _ _ h => ⟨h.allocated, h.locks, h.disputed⟩
  refine hinv.of_locks ?_ hlocks ?_
  · exact hinv.blank
  intro gameId logIndex hnext
  have hsubmitted := (hinv.marked gameId logIndex (hlocks gameId logIndex hnext)).1
  rcases submissionCall_root hsender hcall hsubmitted with hroot | hroot
  · simp only [hroot, and_self]
  · simp only [hroot, and_self]

theorem DisputeInvariant.step {call : SystemCall}
    (hstep : systemStep deployment state call = .ok next)
    (hinv : DisputeInvariant state) : DisputeInvariant next := by
  cases call with
  | mine | receiveEther =>
    cases hstep
    exact hinv.of_locks hinv.blank (fun _ _ h => ⟨h.allocated, h.locks, h.disputed⟩)
      (fun _ _ _ => ⟨rfl, rfl⟩)
  | submission =>
    exact hinv.submissionStep hstep
  | game =>
    rcases callGame_cases (mapError_eq_ok.mp hstep) with
      ⟨_, _, _, _, _, hopened⟩ | ⟨_, _, hmoved⟩ |
      ⟨_, _, hends, hsettled⟩
    · exact hinv.opened hopened
    · exact hinv.moved hmoved
    · exact hinv.settled hends hsettled

theorem DisputeInvariant.of_reachable {blockNumber : ℕ}
    (hreach : Reachable (systemStep deployment) (State.initial blockNumber) state) :
    DisputeInvariant state := hreach.invariant (fun _ _ _ hstep hinv => hinv.step hstep)
    (.initial blockNumber)

end Steps

end FaultProof
end Canon
