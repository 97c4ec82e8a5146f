import Mathlib.Data.FinEnum
import Canon.BondMovements
import Canon.RunAccounting

/-!
# The bonds of both contracts together

A running game keeps the bond of its challenger in the game contract, and the
root it disputes keeps its bond in the submission contract.  It is the mark of the
root, in the other contract, which keeps a second game away from the root and the
root from being finalised.

Ids which were never allocated are blank games on root 0.  They can be timed out
as well, and the settlement then takes the bond of root 0, or nothing.
-/

namespace Canon
namespace FaultProof

open StateRoots Function

structure SlotInvariant (state : State) : Prop where
  blank : ∀ gameId, ¬ state.Allocated gameId →
    (state.game.games gameId).high.idx = 0 ∧ (state.game.games gameId).disputedLogIndex = 0 ∧
      (state.game.games gameId).challengerBond = 0
  indexed : ∀ gameId, state.Allocated gameId → 0 < (state.game.games gameId).disputedLogIndex
  unslashed : ∀ gameId, (state.game.games gameId).status = .inProgress →
    (state.game.games gameId).sequencerBond = 0

def Game.keptBond (game : Game) : ℕ :=
  if game.status = .inProgress then game.challengerBond else 0

def State.runningBonds (state : State) : ℕ := ∑ gameId ∈ Finset.Icc 1 state.game.nextGameId,
    (state.game.games gameId).keptBond

def State.recordedBonds (state : State) : ℕ := ∑ logIndex, (state.submission.roots logIndex).bond

structure BondInvariant (deployment : Deployment) (state : State) : Prop where
  slots : SlotInvariant state
  dispute : DisputeInvariant state
  full : ∀ logIndex, (state.submission.roots logIndex).bond = 0 ∨
    (state.submission.roots logIndex).bond = deployment.submission.submissionBond
  covered : state.recordedBonds ≤ state.submission.balance
  free : ∀ logIndex, 0 < logIndex → state.submission.IsSubmitted logIndex →
    (state.submission.roots logIndex).finalised = false →
    (state.submission.roots logIndex).disputed = false → (state.submission.roots logIndex).bond ≠ 0
  running : ∀ gameId, state.Allocated gameId → (state.game.games gameId).status = .inProgress →
    (state.submission.roots (state.game.games gameId).disputedLogIndex).finalised = false ∧
      (state.submission.roots (state.game.games gameId).disputedLogIndex).bond ≠ 0
  reserve : state.runningBonds ≤ state.game.balance

section Settled

variable {submission : Submission} {entered challengerWins : Bool} {logIndex other : UInt64}

theorem afterSettlement_roots_of_ne (hne : other ≠ logIndex) :
    (submission.afterSettlement entered logIndex challengerWins).roots other =
      submission.roots other := by
  unfold Submission.afterSettlement
  split_ifs <;> simp [hne]

theorem afterSettlement_finalised :
    ((submission.afterSettlement entered logIndex challengerWins).roots
        other).finalised = (submission.roots other).finalised := by
  unfold Submission.afterSettlement
  by_cases hother : other = logIndex <;> split_ifs <;> simp [hother]

theorem afterSettlement_submitted :
    ((submission.afterSettlement entered logIndex challengerWins).roots other).submittedAtBlock =
      (submission.roots other).submittedAtBlock := by
  unfold Submission.afterSettlement
  by_cases hother : other = logIndex <;> split_ifs <;> simp [hother]

theorem afterSettlement_disputed (hwins : challengerWins = true) :
    ((submission.afterSettlement entered logIndex challengerWins).roots
        other).disputed = (submission.roots other).disputed := by
  unfold Submission.afterSettlement
  by_cases hother : other = logIndex <;> split_ifs <;> simp_all

theorem afterSettlement_bond (hwins : challengerWins = false) :
    ((submission.afterSettlement entered logIndex challengerWins).roots
        other).bond = (submission.roots other).bond := by
  unfold Submission.afterSettlement
  by_cases hother : other = logIndex <;> split_ifs <;> simp_all

end Settled

section Invariant

variable {deployment : Deployment} {state next : State} {call : SystemCall} {logIndex : UInt64}
  {blockNumber : ℕ}

theorem BondInvariant.bond_lt (hinv : BondInvariant deployment state) (logIndex : UInt64) :
    (state.submission.roots logIndex).bond < 2 ^ 128 := by
  have hbound := deployment.submission.submissionBond_lt
  rcases hinv.full logIndex with hzero | hfull
  · rw [hzero]
    exact Nat.two_pow_pos 128
  · rw [hfull]
    exact hbound

theorem BondInvariant.bond_le_balance (hinv : BondInvariant deployment state) (logIndex : UInt64) :
    (state.submission.roots logIndex).bond ≤ state.submission.balance := by
  apply le_trans _ hinv.covered
  exact Finset.single_le_sum (fun i _ => Nat.zero_le (state.submission.roots i).bond)
    (Finset.mem_univ logIndex)

theorem BondInvariant.initial (deployment : Deployment) (blockNumber : ℕ) :
    BondInvariant deployment (State.initial blockNumber) := by
  have hnone : ∀ gameId, ¬ (State.initial blockNumber).Allocated gameId := by
    intro gameId hallocated
    simp only [State.Allocated, State.initial] at hallocated
    omega
  constructor
  · constructor
    · intro gameId _
      exact ⟨rfl, rfl, rfl⟩
    · intro gameId hallocated
      exact absurd hallocated (hnone gameId)
    · intro gameId _
      rfl
  · exact .initial blockNumber
  · intro logIndex
    exact .inl rfl
  · simp [State.recordedBonds, State.initial, Submission.initial, SubmittedRoot.unset]
  · intro logIndex _ hsubmitted
    exact absurd rfl hsubmitted
  · intro gameId hallocated
    exact absurd hallocated (hnone gameId)
  · simp [State.runningBonds, State.initial]

theorem SlotInvariant.update {place : ℕ} {game : Game}
    (hgames : next.game.games = update state.game.games place game)
    (hallocated : ∀ gameId, gameId ≠ place → (next.Allocated gameId ↔ state.Allocated gameId))
    (hblank : ¬ next.Allocated place → game.high.idx = 0 ∧
      game.disputedLogIndex = 0 ∧ game.challengerBond = 0)
    (hindexed : next.Allocated place → 0 < game.disputedLogIndex)
    (hunslashed : game.status = .inProgress → game.sequencerBond = 0)
    (hinv : SlotInvariant state) : SlotInvariant next := by
  have hself : next.game.games place = game := by
    rw [hgames, update_self]
  have hother : ∀ gameId, gameId ≠ place → next.game.games gameId = state.game.games gameId := by
    intro gameId hid
    rw [hgames, update_of_ne hid]
  constructor
  · intro gameId hfree
    by_cases hid : gameId = place
    · subst hid
      rw [hself]
      exact hblank hfree
    · rw [hother gameId hid]
      exact hinv.blank gameId ((hallocated gameId hid).not.mp hfree)
  · intro gameId hgame
    by_cases hid : gameId = place
    · subst hid
      rw [hself]
      exact hindexed hgame
    · rw [hother gameId hid]
      exact hinv.indexed gameId ((hallocated gameId hid).mp hgame)
  · intro gameId hstatus
    by_cases hid : gameId = place
    · subst hid
      rw [hself] at hstatus ⊢
      exact hunslashed hstatus
    · rw [hother gameId hid] at hstatus ⊢
      exact hinv.unslashed gameId hstatus

theorem SlotInvariant.effect (heffect : SystemEffect deployment state next call)
    (hdispute : DisputeInvariant state) (hinv : SlotInvariant state) : SlotInvariant next := by
  cases heffect with
  | mined _ hnext | received _ hnext | submitted _ _ _ _ _ _ _ hnext
  | finalised _ _ _ _ _ _ hnext =>
    rw [hnext]
    exact ⟨hinv.blank, hinv.indexed, hinv.unslashed⟩
  | opened _ _ _ _ _ _ _ _ hopened =>
    obtain ⟨turnDeadline, hgames⟩ := hopened.games
    refine hinv.update hgames (fun _ hid => hopened.allocated_iff hid)
      (absurd hopened.allocated_new) ?_ (fun _ => rfl)
    intro _
    exact UInt64.lt_of_le_of_lt UInt64.zero_le hopened.low_lt
  | moved _ _ _ _ moved _ _ hmoved hkeeps =>
    have hallocated : state.Allocated moved := by
      by_contra hfree
      obtain ⟨_, hpending, hrange⟩ := hdispute.blank moved hfree
      exact hrange (hmoved.midpoint hpending)
    have hnext := hmoved.next_eq
    subst hnext
    refine hinv.update rfl (fun _ _ => Iff.rfl) (absurd hallocated) ?_ ?_
    · intro _
      rw [hmoved.disputed]
      exact hinv.indexed moved hallocated
    · intro _
      rw [hkeeps.sequencerBond]
      exact hinv.unslashed moved hmoved.running
  | settled _ _ _ _ ended _ _ hends hsettlement =>
    have hkept := State.allocated_iff_of_eq hsettlement.nextGameId
    refine hinv.update hsettlement.games (fun gameId _ => hkept gameId) ?_ ?_ ?_
    · intro hfree
      exact hinv.blank ended ((hkept ended).not.mp hfree)
    · intro hallocated
      exact hinv.indexed ended ((hkept ended).mp hallocated)
    · intro hstatus
      exact absurd hstatus hends.ended

theorem BondInvariant.full_change (hchange : RootChange deployment.submission state.submission
      next.submission)
    (hinv : BondInvariant deployment state) (logIndex : UInt64) :
    (next.submission.roots logIndex).bond = 0 ∨
      (next.submission.roots logIndex).bond = deployment.submission.submissionBond := by
  have hold := hinv.full logIndex
  cases hchange with
  | kept haccounts =>
    rw [haccounts.roots]
    exact hold
  | submitted fresh _ _ _ hroots hbond =>
    rw [hroots]
    by_cases hindex : logIndex = fresh
    · rw [hindex, update_self]
      exact .inr hbond
    · rw [update_of_ne hindex]
      exact hold
  | released gone _ _ hroots =>
    rw [hroots]
    by_cases hindex : logIndex = gone
    · rw [hindex, update_self]
      exact .inl rfl
    · rw [update_of_ne hindex]
      exact hold
  | flagged marked _ hroots =>
    rw [hroots]
    by_cases hindex : logIndex = marked
    · subst hindex
      rw [update_self]
      exact hold
    · rw [update_of_ne hindex]
      exact hold

theorem recordedBonds_of_update {root : SubmittedRoot}
    (hroots : next.submission.roots = update state.submission.roots logIndex root) :
    next.recordedBonds + (state.submission.roots logIndex).bond =
      state.recordedBonds + root.bond := by
  unfold State.recordedBonds
  rw [hroots]
  exact sum_exchange_entry SubmittedRoot.bond state.submission.roots
    Finset.univ root (Finset.mem_univ logIndex)

theorem BondInvariant.covered_change (hchange : RootChange deployment.submission state.submission
      next.submission)
    (hinv : BondInvariant deployment state) :
    next.recordedBonds ≤ next.submission.balance := by
  have hold := hinv.covered
  cases hchange with
  | kept haccounts =>
    have hsame : next.recordedBonds = state.recordedBonds := by
      unfold State.recordedBonds
      rw [haccounts.roots]
    rw [hsame, haccounts.balance]
    exact hold
  | submitted _ _ hfresh hchain hroots hbond hsequencer hbalance hcount houtstanding =>
    have hsum := recordedBonds_of_update hroots
    omega
  | released _ _ hsubmitted hroots hkind hcovered hbalance houtstanding
  | flagged _ _ hroots hbalance houtstanding =>
    have hsum := recordedBonds_of_update hroots
    simp only at hsum
    omega

theorem BondInvariant.running_effect (heffect : SystemEffect deployment state next call)
    (hinv : BondInvariant deployment state) {gameId : ℕ} (hallocated : next.Allocated gameId)
    (hstatus : (next.game.games gameId).status = .inProgress) :
    (next.submission.roots (next.game.games gameId).disputedLogIndex).finalised = false ∧
      (next.submission.roots (next.game.games gameId).disputedLogIndex).bond ≠ 0 := by
  cases heffect with
  | mined _ hnext | received _ hnext =>
    subst hnext
    exact hinv.running gameId hallocated hstatus
  | submitted _ _ fresh _ _ _ hcall hnext =>
    subst hnext
    obtain ⟨_, hfresh, _, _, hroots⟩ := submitStateRoot_effect hcall
    have hsubmitted := (hinv.dispute.marked gameId _ ⟨hallocated, .inl hstatus, rfl⟩).1
    have hindex : (state.game.games gameId).disputedLogIndex ≠ fresh := by
      intro heq
      exact hfresh (heq ▸ hsubmitted)
    simp only [hroots, update_of_ne hindex]
    exact hinv.running gameId hallocated hstatus
  | finalised _ _ logIndex _ _ hcall hnext =>
    subst hnext
    obtain ⟨_, _, hundisputed, _, hroots⟩ := finaliseStateRoot_effect hcall
    have hmarked := (hinv.dispute.marked gameId _ ⟨hallocated, .inl hstatus, rfl⟩).2
    have hindex : (state.game.games gameId).disputedLogIndex ≠ logIndex := by
      intro heq
      rw [heq, hundisputed] at hmarked
      cases hmarked
    simp only [hroots, update_of_ne hindex]
    exact hinv.running gameId hallocated hstatus
  | opened _ _ _ _ disputedLogIndex _ _ _ hopened =>
    obtain ⟨turnDeadline, hgames⟩ := hopened.games
    obtain ⟨disputed, hroot⟩ := hopened.root_kept (next.game.games gameId).disputedLogIndex
    rw [hroot]
    rw [hgames] at hstatus ⊢
    by_cases hid : gameId = state.game.nextGameId + 1
    · rw [hid, update_self]
      have hpos : 0 < disputedLogIndex := UInt64.lt_of_le_of_lt UInt64.zero_le hopened.low_lt
      exact ⟨hopened.unfinalised, hinv.free disputedLogIndex hpos
        hopened.submitted hopened.unfinalised hopened.undisputed⟩
    · rw [update_of_ne hid] at hstatus ⊢
      exact hinv.running gameId ((hopened.allocated_iff hid).mp hallocated) hstatus
  | moved _ _ _ _ moved _ _ hmoved =>
    have hnext := hmoved.next_eq
    subst hnext
    simp only [State.setGame] at hstatus ⊢
    by_cases hid : gameId = moved
    · subst hid
      rw [update_self, hmoved.disputed]
      exact hinv.running gameId hallocated hmoved.running
    · rw [update_of_ne hid] at hstatus ⊢
      exact hinv.running gameId hallocated hstatus
  | settled _ _ _ _ ended _ _ hends hsettlement =>
    rw [State.allocated_iff_of_eq hsettlement.nextGameId] at hallocated
    rw [hsettlement.games] at hstatus ⊢
    have hid : gameId ≠ ended := by
      intro heq
      subst heq
      rw [update_self] at hstatus
      exact hends.ended hstatus
    rw [update_of_ne hid] at hstatus ⊢
    have hother : (state.game.games gameId).disputedLogIndex ≠
        (state.game.games ended).disputedLogIndex := by
      intro heq
      by_cases hended : state.Allocated ended
      · exact hid (hinv.dispute.unique gameId ended _ ⟨hallocated, .inl hstatus, rfl⟩
          ⟨hended, .inl hends.running, heq.symm⟩)
      · have hpos := hinv.slots.indexed gameId hallocated
        rw [heq, (hinv.slots.blank ended hended).2.1] at hpos
        exact absurd hpos (UInt64.lt_irrefl 0)
    rw [hsettlement.submission.roots, afterSettlement_roots_of_ne hother]
    exact hinv.running gameId hallocated hstatus

theorem BondInvariant.free_effect (heffect : SystemEffect deployment state next call)
    (hinv : BondInvariant deployment state) (hpos : 0 < logIndex)
    (hsubmitted : next.submission.IsSubmitted logIndex)
    (hopen : (next.submission.roots logIndex).finalised = false)
    (hfree : (next.submission.roots logIndex).disputed = false) :
    (next.submission.roots logIndex).bond ≠ 0 := by
  unfold Submission.IsSubmitted at hsubmitted
  cases heffect with
  | mined _ hnext | received _ hnext =>
    subst hnext
    exact hinv.free logIndex hpos hsubmitted hopen hfree
  | submitted _ _ fresh _ _ _ hcall hnext =>
    subst hnext
    obtain ⟨_, _, _, _, hroots⟩ := submitStateRoot_effect hcall
    obtain ⟨hvalue, _, _, _⟩ := submitStateRoot_accounts hcall
    simp only [hroots] at hsubmitted hopen hfree ⊢
    by_cases hindex : logIndex = fresh
    · simp only [hindex, update_self]
      simp only at hvalue
      rw [hvalue, Nat.mod_eq_of_lt deployment.submission.submissionBond_lt]
      exact deployment.submission.submissionBond_ne_zero
    · rw [update_of_ne hindex] at hsubmitted hopen hfree ⊢
      exact hinv.free logIndex hpos hsubmitted hopen hfree
  | finalised _ _ gone _ _ hcall hnext =>
    subst hnext
    obtain ⟨_, _, _, _, hroots⟩ := finaliseStateRoot_effect hcall
    simp only [hroots] at hsubmitted hopen hfree ⊢
    by_cases hindex : logIndex = gone
    · simp [hindex] at hopen
    · rw [update_of_ne hindex] at hsubmitted hopen hfree ⊢
      exact hinv.free logIndex hpos hsubmitted hopen hfree
  | opened _ _ _ _ disputedLogIndex _ _ _ hopened =>
    rw [hopened.roots] at hsubmitted hopen hfree ⊢
    by_cases hindex : logIndex = disputedLogIndex
    · simp [hindex] at hfree
    · rw [update_of_ne hindex] at hsubmitted hopen hfree ⊢
      exact hinv.free logIndex hpos hsubmitted hopen hfree
  | moved _ _ _ _ _ _ _ hmoved =>
    have hnext := hmoved.next_eq
    subst hnext
    exact hinv.free logIndex hpos hsubmitted hopen hfree
  | settled _ _ _ _ ended finalStatus _ hends hsettlement =>
    rw [hsettlement.submission.roots] at hsubmitted hopen hfree ⊢
    rw [afterSettlement_submitted] at hsubmitted
    rw [afterSettlement_finalised] at hopen
    by_cases hindex : logIndex = (state.game.games ended).disputedLogIndex
    · have hended : state.Allocated ended := by
        by_contra hblank
        rw [hindex, (hinv.slots.blank ended hblank).2.1] at hpos
        exact absurd hpos (UInt64.lt_irrefl 0)
      have hlocks : LocksRoot state ended logIndex := ⟨hended, .inl hends.running, hindex.symm⟩
      cases hwins : finalStatus.challengerWins with
      | true =>
        rw [hwins, afterSettlement_disputed rfl,
          (hinv.dispute.marked ended logIndex hlocks).2] at hfree
        cases hfree
      | false =>
        rw [afterSettlement_bond rfl, hindex]
        exact (hinv.running ended hended hends.running).2
    · rw [afterSettlement_roots_of_ne hindex] at hfree ⊢
      exact hinv.free logIndex hpos hsubmitted hopen hfree

theorem BondInvariant.reserve_settled {reentered : Bool} {ended : ℕ} {finalStatus : GameStatus}
    (hends : Ends (state.game.games ended) finalStatus)
    (hsettlement : Settlement deployment reentered state next ended finalStatus)
    (hinv : BondInvariant deployment state) :
    next.runningBonds ≤ next.game.balance := by
  have hold := hinv.reserve
  have hcovered := hsettlement.covered
  have hunslashed := hinv.slots.unslashed ended hends.running
  rw [hsettlement.balance]
  unfold settlementPot at hcovered ⊢
  unfold State.runningBonds at hold ⊢
  rw [hsettlement.nextGameId, hsettlement.games]
  by_cases hallocated : state.Allocated ended
  · have hmem : ended ∈ Finset.Icc 1 state.game.nextGameId := Finset.mem_Icc.mpr hallocated
    have hsum := sum_exchange_entry Game.keptBond state.game.games
      (Finset.Icc 1 state.game.nextGameId)
      { state.game.games ended with
        status := finalStatus
        sequencerBond := (state.game.games ended).sequencerBond +
          slashedBond state reentered ended finalStatus } hmem
    have hbefore : (state.game.games ended).keptBond =
        (state.game.games ended).challengerBond := if_pos hends.running
    have hafter : Game.keptBond { state.game.games ended with
        status := finalStatus
        sequencerBond := (state.game.games ended).sequencerBond +
          slashedBond state reentered ended finalStatus } = 0 :=
      if_neg hends.ended
    omega
  · have hmem : ended ∉ Finset.Icc 1 state.game.nextGameId := by
      intro hin
      exact hallocated (Finset.mem_Icc.mp hin)
    rw [sum_entry_outside Game.keptBond state.game.games _ hmem]
    rw [(hinv.slots.blank ended hallocated).2.2] at hcovered ⊢
    omega

theorem BondInvariant.reserve_effect (heffect : SystemEffect deployment state next call)
    (hinv : BondInvariant deployment state) :
    next.runningBonds ≤ next.game.balance := by
  have hold := hinv.reserve
  cases heffect with
  | mined _ hnext =>
    subst hnext
    exact hold
  | received _ hnext =>
    subst hnext
    exact le_trans hold (Nat.le_add_right _ _)
  | submitted _ _ _ _ _ _ _ hnext =>
    subst hnext
    exact hold
  | finalised _ _ _ _ _ _ hnext =>
    subst hnext
    exact hold
  | opened sender value reentered _ disputedLogIndex lowCommit lowLogIndex
      hsettles hopened haccounts =>
    obtain ⟨turnDeadline, hgames⟩ := hopened.games
    have hvalue := haccounts.value
    simp only at hvalue
    rw [haccounts.balance]
    unfold State.runningBonds at hold ⊢
    rw [hopened.nextGameId, hgames, Finset.sum_Icc_succ_top (by omega),
      sum_entry_outside Game.keptBond state.game.games _ (by simp), update_self]
    have hnew : Game.keptBond (openedGame deployment ⟨sender, value, state.blockNumber, reentered⟩
        (state.game.games (state.game.nextGameId + 1))
        (state.submission.roots disputedLogIndex) disputedLogIndex
        lowCommit lowLogIndex turnDeadline) = deployment.game.minChallengeBond := by
      simp only [Game.keptBond, openedGame, if_true, hvalue]
      exact Nat.mod_eq_of_lt deployment.game.minChallengeBond_lt
    omega
  | moved _ _ _ _ moved game _ hmoved hkeeps =>
    have hkept : ∀ gameId, (update state.game.games moved game gameId).keptBond =
          (state.game.games gameId).keptBond := by
      intro gameId
      by_cases hid : gameId = moved
      · rw [hid, update_self]
        unfold Game.keptBond
        rw [hmoved.status, hmoved.running, hkeeps.challengerBond]
      · rw [update_of_ne hid]
    have hsame : next.runningBonds = state.runningBonds := by
      rw [hmoved.next_eq]
      exact Finset.sum_congr rfl fun gameId _ => hkept gameId
    rw [hsame, hmoved.next_eq]
    exact hold
  | settled _ _ _ _ _ _ _ hends hsettlement =>
    exact hinv.reserve_settled hends hsettlement

theorem BondInvariant.step (hstep : systemStep deployment state call = .ok next)
    (hinv : BondInvariant deployment state) : BondInvariant deployment next := by
  have heffect := systemStep_effect hinv.bond_lt hstep
  exact {
    slots := hinv.slots.effect heffect hinv.dispute
    dispute := hinv.dispute.step hstep
    full := hinv.full_change heffect.rootChange
    covered := hinv.covered_change heffect.rootChange
    free := fun _ hpos hsubmitted hopen hfree =>
      hinv.free_effect heffect hpos hsubmitted hopen hfree
    running := fun _ hallocated hstatus =>
      hinv.running_effect heffect hallocated hstatus
    reserve := hinv.reserve_effect heffect }

theorem BondInvariant.of_reachable
    (hreach : Reachable (systemStep deployment) (State.initial blockNumber) state) :
    BondInvariant deployment state := hreach.invariant (fun _ _ _ hstep hinv => hinv.step hstep)
    (.initial deployment blockNumber)

theorem systemStep_effect_of_reachable
    (hreach : Reachable (systemStep deployment) (State.initial blockNumber) state)
    (hstep : systemStep deployment state call = .ok next) :
    SystemEffect deployment state next call :=
  systemStep_effect (BondInvariant.of_reachable hreach).bond_lt hstep

end Invariant

end FaultProof
end Canon
