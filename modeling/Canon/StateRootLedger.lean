import Canon.FaultProofBonds

/-!
# The ledger of submitted roots

The submitted roots form a chain without gaps, and every bond leaves the contract once.
The contract also counts the roots which still have a bond.  It counts down when a root
is finalised without asking whether the root has a bond, and a submission whose block
number is zero in `uint64` is counted without being recorded.
-/

namespace Canon

open Function

namespace StateRoots

structure SubmittedRoot.HashesKept (before after : SubmittedRoot) : Prop where
  sequencer : after.sequencer = before.sequencer
  stateCommit : after.stateCommit = before.stateCommit
  prevLogEntryHash : after.prevLogEntryHash = before.prevLogEntryHash
  expectedNextHash : after.expectedNextHash = before.expectedNextHash
  submittedAtBlock : after.submittedAtBlock = before.submittedAtBlock

theorem SubmittedRoot.HashesKept.refl (root : SubmittedRoot) : root.HashesKept root :=
  ⟨rfl, rfl, rfl, rfl, rfl⟩

theorem SubmittedRoot.HashesKept.trans {first second third : SubmittedRoot}
    (hfirst : first.HashesKept second) (hsecond : second.HashesKept third) :
    first.HashesKept third where
  sequencer := hsecond.sequencer.trans hfirst.sequencer
  stateCommit := hsecond.stateCommit.trans hfirst.stateCommit
  prevLogEntryHash := hsecond.prevLogEntryHash.trans hfirst.prevLogEntryHash
  expectedNextHash := hsecond.expectedNextHash.trans hfirst.expectedNextHash
  submittedAtBlock := hsecond.submittedAtBlock.trans hfirst.submittedAtBlock

def SubmittedRoot.held (root : SubmittedRoot) : ℕ :=
  if root.submittedAtBlock ≠ 0 ∧ root.bond ≠ 0 then 1 else 0

def SubmittedRoot.spent (root : SubmittedRoot) : ℕ :=
  if root.submittedAtBlock ≠ 0 ∧ root.bond = 0 then 1 else 0

def bondGone (before after : SubmittedRoot) : ℕ :=
  if before.bond ≠ 0 ∧ after.bond = 0 then 1 else 0

def Submission.heldRoots (state : Submission) : ℕ :=
  (Finset.univ.filter fun logIndex => state.IsSubmitted logIndex ∧
    (state.roots logIndex).bond ≠ 0).card

theorem Submission.heldRoots_eq_sum (state : Submission) :
    state.heldRoots = ∑ logIndex, (state.roots logIndex).held := Finset.card_filter _ _

section Changes

variable {params : SubmissionParams} {before after : Submission} {logIndex : UInt64}

theorem RootChange.hashesKept (hchange : RootChange params before after)
    (hsubmitted : before.IsSubmitted logIndex) :
    (before.roots logIndex).HashesKept (after.roots logIndex) := by
  cases hchange with
  | kept haccounts =>
    rw [haccounts.roots]
    exact .refl _
  | submitted fresh _ hfresh _ hroots =>
    have hindex : logIndex ≠ fresh := by
      intro heq
      exact hfresh (heq ▸ hsubmitted)
    rw [hroots, update_of_ne hindex]
    exact .refl _
  | released gone _ _ hroots =>
    rw [hroots]
    by_cases hindex : logIndex = gone
    · subst hindex
      rw [update_self]
      exact ⟨rfl, rfl, rfl, rfl, rfl⟩
    · rw [update_of_ne hindex]
      exact .refl _
  | flagged marked _ hroots =>
    rw [hroots]
    by_cases hindex : logIndex = marked
    · subst hindex
      rw [update_self]
      exact ⟨rfl, rfl, rfl, rfl, rfl⟩
    · rw [update_of_ne hindex]
      exact .refl _

theorem RootChange.isSubmitted (hchange : RootChange params before after)
    (hsubmitted : before.IsSubmitted logIndex) : after.IsSubmitted logIndex := by
  have hkept := hchange.hashesKept hsubmitted
  unfold Submission.IsSubmitted at hsubmitted ⊢
  rwa [hkept.submittedAtBlock]

structure Appended (params : SubmissionParams) (before after : Submission)
    (logIndex : UInt64) : Prop where
  chain : 0 < logIndex → before.IsSubmitted (logIndex - 1) ∧
    (before.roots (logIndex - 1)).expectedNextHash = (after.roots logIndex).prevLogEntryHash
  sequencer : (after.roots logIndex).sequencer = params.sequencer
  others : ∀ other, other ≠ logIndex → after.roots other = before.roots other

theorem RootChange.appended (hchange : RootChange params before after)
    (hold : ¬ before.IsSubmitted logIndex) (hnew : after.IsSubmitted logIndex) :
    Appended params before after logIndex := by
  unfold Submission.IsSubmitted at hold hnew
  cases hchange with
  | kept haccounts =>
    rw [haccounts.roots] at hnew
    exact absurd hnew hold
  | submitted fresh _ _ hchain hroots _ hsequencer =>
    have hindex : logIndex = fresh := by
      by_contra hother
      rw [hroots, update_of_ne hother] at hnew
      exact hold hnew
    subst hindex
    constructor
    · rw [hroots, update_self]
      exact hchain
    · rw [hroots, update_self]
      exact hsequencer
    · intro other hother
      rw [hroots, update_of_ne hother]
  | released gone _ _ hroots =>
    rw [hroots] at hnew
    by_cases hindex : logIndex = gone
    · subst hindex
      rw [update_self] at hnew
      exact absurd hnew hold
    · rw [update_of_ne hindex] at hnew
      exact absurd hnew hold
  | flagged marked _ hroots =>
    rw [hroots] at hnew
    by_cases hindex : logIndex = marked
    · subst hindex
      rw [update_self] at hnew
      exact absurd hnew hold
    · rw [update_of_ne hindex] at hnew
      exact absurd hnew hold

/-- The submitted roots are the first ones, each continues the one before, and
all are the sequencer's. -/
structure RootChain (params : SubmissionParams) (state : Submission) : Prop where
  segment : ∃ count, ∀ logIndex, state.IsSubmitted logIndex ↔ logIndex.toNat < count
  chained : ∀ logIndex, 0 < logIndex → state.IsSubmitted logIndex →
    (state.roots logIndex).prevLogEntryHash = (state.roots (logIndex - 1)).expectedNextHash
  sequencer : ∀ logIndex, state.IsSubmitted logIndex →
    (state.roots logIndex).sequencer = params.sequencer

theorem toNat_pred_lt (hpos : 0 < logIndex) : (logIndex - 1).toNat + 1 = logIndex.toNat := by
  have hle : (1 : UInt64) ≤ logIndex := by
    exact hpos
  rw [UInt64.toNat_sub_of_le _ _ hle]
  exact Nat.sub_add_cancel hle

theorem RootChain.predecessor (hinv : RootChain params before) (hpos : 0 < logIndex)
    (hsubmitted : before.IsSubmitted logIndex) : before.IsSubmitted (logIndex - 1) := by
  obtain ⟨count, hcount⟩ := hinv.segment
  rw [hcount] at hsubmitted ⊢
  have hpred := toNat_pred_lt hpos
  omega

theorem Appended.toNat_eq {count : ℕ} (happended : Appended params before after logIndex)
    (hcount : ∀ i, before.IsSubmitted i ↔ i.toNat < count) (hold : ¬ before.IsSubmitted logIndex) :
    logIndex.toNat = count := by
  rw [hcount] at hold
  by_cases hpos : 0 < logIndex
  · have hpred := (hcount _).mp (happended.chain hpos).1
    have hsucc := toNat_pred_lt hpos
    omega
  · have hzero : logIndex.toNat = 0 := by
      exact Nat.eq_zero_of_not_pos hpos
    omega

theorem RootChain.change (hchange : RootChange params before after)
    (hinv : RootChain params before) : RootChain params after := by
  constructor
  · obtain ⟨count, hcount⟩ := hinv.segment
    by_cases hnew : ∃ fresh, ¬ before.IsSubmitted fresh ∧ after.IsSubmitted fresh
    · obtain ⟨fresh, hold, hfresh⟩ := hnew
      have happended := hchange.appended hold hfresh
      have hnext := happended.toNat_eq hcount hold
      refine ⟨count + 1, ?_⟩
      intro logIndex
      by_cases hindex : logIndex = fresh
      · subst hindex
        simp only [hfresh, true_iff]
        omega
      · have hne : logIndex.toNat ≠ count := by
          intro heq
          exact hindex (UInt64.toNat.inj (heq.trans hnext.symm))
        have hsame : after.IsSubmitted logIndex ↔ before.IsSubmitted logIndex := by
          unfold Submission.IsSubmitted
          rw [happended.others logIndex hindex]
        rw [hsame, hcount]
        omega
    · refine ⟨count, ?_⟩
      intro logIndex
      rw [← hcount]
      constructor
      · intro hafter
        by_contra hold
        exact hnew ⟨logIndex, hold, hafter⟩
      · exact hchange.isSubmitted
  · intro logIndex hpos hafter
    by_cases hold : before.IsSubmitted logIndex
    · have hkept := hchange.hashesKept hold
      have hpred := hchange.hashesKept (hinv.predecessor hpos hold)
      rw [hkept.prevLogEntryHash, hpred.expectedNextHash]
      exact hinv.chained logIndex hpos hold
    · have happended := hchange.appended hold hafter
      have hother : logIndex - 1 ≠ logIndex := by
        intro heq
        have hsucc := toNat_pred_lt hpos
        rw [heq] at hsucc
        omega
      rw [happended.others _ hother, (happended.chain hpos).2]
  · intro logIndex hafter
    by_cases hold : before.IsSubmitted logIndex
    · rw [(hchange.hashesKept hold).sequencer]
      exact hinv.sequencer logIndex hold
    · exact (hchange.appended hold hafter).sequencer

theorem spent_of_same_bond {old new : SubmittedRoot}
    (hblock : new.submittedAtBlock = old.submittedAtBlock) (hbond : new.bond = old.bond) :
    new.spent = old.spent + bondGone old new := by
  unfold SubmittedRoot.spent bondGone
  rw [hblock, hbond]
  by_cases hzero : old.bond = 0 <;> simp [hzero]

theorem RootChange.spent_step (hchange : RootChange params before after) (logIndex : UInt64) :
    (after.roots logIndex).spent =
      (before.roots logIndex).spent + bondGone (before.roots logIndex) (after.roots logIndex) := by
  cases hchange with
  | kept haccounts =>
    rw [haccounts.roots]
    exact spent_of_same_bond rfl rfl
  | submitted fresh root hfresh _ hroots hbond =>
    rw [hroots]
    by_cases hindex : logIndex = fresh
    · subst hindex
      have hunset : (before.roots logIndex).submittedAtBlock = 0 := not_not.mp hfresh
      have hpaid : root.bond ≠ 0 := by
        rw [hbond]
        exact params.submissionBond_ne_zero
      simp [SubmittedRoot.spent, bondGone, hpaid, hunset]
    · rw [update_of_ne hindex]
      exact spent_of_same_bond rfl rfl
  | released gone _ hgone hroots =>
    rw [hroots]
    by_cases hindex : logIndex = gone
    · subst hindex
      unfold Submission.IsSubmitted at hgone
      by_cases hzero : (before.roots logIndex).bond = 0 <;>
        simp [SubmittedRoot.spent, bondGone, hzero, hgone]
    · rw [update_of_ne hindex]
      exact spent_of_same_bond rfl rfl
  | flagged marked _ hroots =>
    rw [hroots]
    by_cases hindex : logIndex = marked
    · subst hindex
      rw [update_self]
      exact spent_of_same_bond rfl rfl
    · rw [update_of_ne hindex]
      exact spent_of_same_bond rfl rfl

theorem RootChange.balance_drop (hchange : RootChange params before after)
    (hdrop : after.balance < before.balance) :
    ∃ logIndex, (before.roots logIndex).bond ≠ 0 ∧ (after.roots logIndex).bond = 0 := by
  cases hchange with
  | kept haccounts =>
    rw [haccounts.balance] at hdrop
    exact absurd hdrop (lt_irrefl _)
  | submitted _ _ hfresh hchain hroots hbond hsequencer hbalance hcount houtstanding =>
    omega
  | released gone _ hgone hroots hkind hcovered hbalance houtstanding =>
    refine ⟨gone, by omega, ?_⟩
    rw [hroots, update_self]
  | flagged _ _ _ hbalance =>
    rw [hbalance] at hdrop
    exact absurd hdrop (lt_irrefl _)

theorem RootChange.balance_of_release (hchange : RootChange params before after)
    (hbond : (before.roots logIndex).bond ≠ 0) (hgone : (after.roots logIndex).bond = 0) :
    after.balance + (before.roots logIndex).bond = before.balance := by
  cases hchange with
  | kept haccounts =>
    rw [haccounts.roots] at hgone
    exact absurd hgone hbond
  | submitted fresh _ _ _ hroots hpaid =>
    rw [hroots] at hgone
    by_cases hindex : logIndex = fresh
    · rw [hindex, update_self, hpaid] at hgone
      exact absurd hgone params.submissionBond_ne_zero
    · rw [update_of_ne hindex] at hgone
      exact absurd hgone hbond
  | released gone _ hsubmitted hroots hkind hcovered hbalance houtstanding =>
    by_cases hindex : logIndex = gone
    · subst hindex
      omega
    · rw [hroots, update_of_ne hindex] at hgone
      exact absurd hgone hbond
  | flagged marked _ hroots =>
    rw [hroots] at hgone
    by_cases hindex : logIndex = marked
    · subst hindex
      rw [update_self] at hgone
      exact absurd hgone hbond
    · rw [update_of_ne hindex] at hgone
      exact absurd hgone hbond

theorem Submission.heldRoots_of_update {root : SubmittedRoot}
    (hroots : after.roots = update before.roots logIndex root) :
    after.heldRoots + (before.roots logIndex).held = before.heldRoots + root.held := by
  rw [Submission.heldRoots_eq_sum, Submission.heldRoots_eq_sum, hroots]
  exact sum_exchange_entry SubmittedRoot.held before.roots Finset.univ root
    (Finset.mem_univ logIndex)

theorem Submission.releaseOutstanding_toNat (state : Submission) (account : Address) :
    ((state.releaseOutstanding account).outstandingRootsCount account).toNat =
      (state.outstandingRootsCount account).toNat - 1 := by
  unfold Submission.releaseOutstanding
  by_cases hpos : 0 < state.outstandingRootsCount account
  · have hsucc := toNat_pred_lt hpos
    rw [if_pos hpos]
    simp only [update_self]
    omega
  · rw [if_neg hpos]
    have hzero : (state.outstandingRootsCount account).toNat = 0 := Nat.eq_zero_of_not_pos hpos
    omega

end Changes

/-- The contract's counter is the number of roots which have a bond. -/
def CountExact (params : SubmissionParams) (state : Submission) : Prop :=
  (state.outstandingRootsCount params.sequencer).toNat = state.heldRoots

section Counts

variable {params : SubmissionParams} {before after : Submission} {logIndex : UInt64}

theorem countExact_of_same (hheld : after.heldRoots = before.heldRoots)
    (houtstanding : after.outstandingRootsCount = before.outstandingRootsCount) :
    CountExact params after ↔ CountExact params before := by
  unfold CountExact
  rw [hheld, houtstanding]

theorem countExact_of_release {finalised : Bool} (hchain : RootChain params before)
    (hexact : CountExact params before) (hsubmitted : before.IsSubmitted logIndex)
    (hroots : after.roots = update before.roots logIndex
      { before.roots logIndex with finalised := finalised, bond := 0 })
    (houtstanding : after.outstandingRootsCount =
      (before.releaseOutstanding (before.roots logIndex).sequencer).outstandingRootsCount) :
    CountExact params after ↔
      (before.roots logIndex).bond ≠ 0 ∨ before.outstandingRootsCount params.sequencer = 0 := by
  have hheld := Submission.heldRoots_of_update hroots
  have hcount := before.releaseOutstanding_toNat params.sequencer
  have hzero : before.outstandingRootsCount params.sequencer = 0 ↔
      (before.outstandingRootsCount params.sequencer).toNat = 0 := by
    rw [← UInt64.toNat_inj]
    rfl
  have hnone : SubmittedRoot.held { before.roots logIndex with
      finalised := finalised, bond := 0 } = 0 := by
    simp [SubmittedRoot.held]
  unfold CountExact at hexact ⊢
  rw [houtstanding, hchain.sequencer logIndex hsubmitted, hcount, hexact, hzero, hexact]
  unfold Submission.IsSubmitted at hsubmitted
  by_cases hbond : (before.roots logIndex).bond = 0
  · have hold : (before.roots logIndex).held = 0 := by
      simp [SubmittedRoot.held, hbond]
    omega
  · have hold : (before.roots logIndex).held = 1 := by
      simp [SubmittedRoot.held, hbond, hsubmitted]
    omega

end Counts

end StateRoots

namespace FaultProof

open StateRoots

def releases (deployment : Deployment) (logIndex : UInt64) (before : State)
    (call : SystemCall) : ℕ :=
  match systemStep deployment before call with
  | .error _ => 0
  | .ok after => bondGone (before.submission.roots logIndex) (after.submission.roots logIndex)

inductive ReleasedBy (before after : State) (logIndex : UInt64) : SystemCall → Prop
  | finalised (sender : Address) (value : ℕ) (payoutAccepted : Bool) :
      ReleasedBy before after logIndex (.submission sender value
        (.finaliseStateRoot logIndex payoutAccepted))
  | slashed (call : SystemCall) (gameId : ℕ) (hsettles : call.settles = some gameId)
      (hdisputed : (before.game.games gameId).disputedLogIndex = logIndex)
      (hwins : (after.game.games gameId).status.challengerWins = true) :
      ReleasedBy before after logIndex call

/-- A submission is recorded under a block number which is not zero, and a
finalised root has a bond unless there is nothing to count down. -/
def regularStep (deployment : Deployment) (before : State) : SystemCall → Bool
  | .submission _ _ (.submitStateRoot _ _ _) =>
    decide (UInt64.ofNat before.blockNumber ≠ 0)
  | .submission _ _ (.finaliseStateRoot logIndex _) =>
    decide ((before.submission.roots logIndex).bond ≠ 0 ∨
      before.submission.outstandingRootsCount deployment.submission.sequencer = 0)
  | _ => true

section Ledgers

variable {deployment : Deployment} {state next : State} {call : SystemCall}

variable {blockNumber : ℕ} {trace : List (State × SystemCall)} {logIndex : UInt64}

theorem releasedBy_of_bondGone (heffect : SystemEffect deployment state next call)
    (hbond : (state.submission.roots logIndex).bond ≠ 0)
    (hgone : (next.submission.roots logIndex).bond = 0) : ReleasedBy state next logIndex call := by
  cases heffect with
  | mined _ hnext | received _ hnext =>
    subst hnext
    exact absurd hgone hbond
  | submitted _ _ _ _ _ _ hcall hnext =>
    have hbalance := (RootChange.of_submit hcall).balance_of_release hbond
      (by rw [hnext] at hgone; exact hgone)
    have hpaid := (submitStateRoot_accounts hcall).2.1
    omega
  | finalised sender value gone payoutAccepted _ hcall hnext =>
    subst hnext
    have hroots := (finaliseStateRoot_effect hcall).2.2.2.2
    by_cases hindex : logIndex = gone
    · subst hindex
      exact .finalised sender value payoutAccepted
    · simp only [hroots, update_of_ne hindex] at hgone
      exact absurd hgone hbond
  | opened _ _ _ _ _ _ _ _ hopened =>
    obtain ⟨disputed, hroot⟩ := hopened.root_kept logIndex
    rw [hroot] at hgone
    exact absurd hgone hbond
  | moved _ _ _ _ _ _ _ hmoved =>
    rw [hmoved.next_eq] at hgone
    exact absurd hgone hbond
  | settled _ _ _ _ gameId _ hsettles _ hsettlement =>
    rw [hsettlement.submission.roots] at hgone
    refine .slashed _ gameId hsettles ?_ ?_
    · by_contra hother
      rw [afterSettlement_roots_of_ne (Ne.symm hother)] at hgone
      exact hbond hgone
    · rw [hsettlement.games, update_self]
      by_contra hloses
      rw [afterSettlement_bond (Bool.not_eq_true _ ▸ hloses)] at hgone
      exact hbond hgone

theorem countExact_effect (heffect : SystemEffect deployment state next call)
    (hchain : RootChain deployment.submission state.submission)
    (hexact : CountExact deployment.submission state.submission) :
    CountExact deployment.submission next.submission ↔
      regularStep deployment state call = true := by
  cases heffect with
  | mined _ hnext | received _ hnext =>
    subst hnext
    simpa [regularStep] using hexact
  | submitted _ _ fresh _ _ _ hcall hnext =>
    subst hnext
    obtain ⟨_, hfresh, _, _, hroots⟩ := submitStateRoot_effect hcall
    obtain ⟨hvalue, _, hcount, houtstanding⟩ := submitStateRoot_accounts hcall
    simp only at hvalue
    have hheld := Submission.heldRoots_of_update hroots
    have hunset : (state.submission.roots fresh).held = 0 := by
      have hzero : (state.submission.roots fresh).submittedAtBlock = 0 := not_not.mp hfresh
      simp [SubmittedRoot.held, hzero]
    have hsucc : (state.submission.outstandingRootsCount
        deployment.submission.sequencer + 1).toNat =
          (state.submission.outstandingRootsCount deployment.submission.sequencer).toNat + 1 := by
      exact Nat.mod_eq_of_lt hcount
    have hbond : deployment.submission.submissionBond % 2 ^ 128 ≠ 0 := by
      rw [Nat.mod_eq_of_lt deployment.submission.submissionBond_lt]
      exact deployment.submission.submissionBond_ne_zero
    unfold CountExact at hexact ⊢
    simp only [houtstanding, update_self, hsucc, hexact, regularStep, decide_eq_true_eq]
    rw [hunset] at hheld
    by_cases hblock : UInt64.ofNat state.blockNumber = 0
    · simp only [SubmittedRoot.held, hblock, ne_eq, not_true_eq_false, false_and, if_false] at hheld
      simp only [hblock, ne_eq, not_true_eq_false, iff_false]
      omega
    · simp only [SubmittedRoot.held, hblock, hvalue, hbond, ne_eq,
        not_false_eq_true, and_self, if_true] at hheld
      simp only [hblock, ne_eq, not_false_eq_true, iff_true]
      omega
  | finalised _ _ _ _ _ hcall hnext =>
    subst hnext
    obtain ⟨hsubmitted, _, _, _, hroots⟩ := finaliseStateRoot_effect hcall
    obtain ⟨_, _, houtstanding⟩ := finaliseStateRoot_accounts hcall
    simp only [regularStep, decide_eq_true_eq]
    exact countExact_of_release hchain hexact hsubmitted hroots houtstanding
  | opened _ _ _ _ _ _ _ hsettles hopened haccounts =>
    have hheld := Submission.heldRoots_of_update hopened.roots
    simp only [regularStep, iff_true]
    refine (countExact_of_same ?_ haccounts.outstanding).mpr hexact
    simp only [SubmittedRoot.held] at hheld
    omega
  | moved _ _ _ _ _ _ hsettles hmoved hkeeps =>
    rw [hmoved.next_eq]
    simpa [regularStep, State.setGame] using hexact
  | settled _ _ _ _ _ _ hsettles hends hsettlement =>
    have hafter := hsettlement.submission
    simp only [regularStep, iff_true]
    unfold Submission.afterSettlement at hafter
    split at hafter
    · split at hafter
      · rename_i hcan
        have hroots := hafter.roots
        have houtstanding := hafter.outstanding
        rw [Submission.afterSlash_roots] at hroots
        rw [Submission.afterSlash_outstanding] at houtstanding
        exact (countExact_of_release hchain hexact hcan.2.1 hroots
          houtstanding).mpr (.inl hcan.2.2.2.1)
      · refine (countExact_of_same ?_ hafter.outstanding).mpr hexact
        rw [Submission.heldRoots_eq_sum, Submission.heldRoots_eq_sum, hafter.roots]
    · split at hafter
      · have hheld := Submission.heldRoots_of_update hafter.roots
        have houtstanding : next.submission.outstandingRootsCount =
            state.submission.outstandingRootsCount := hafter.outstanding
        refine (countExact_of_same ?_ houtstanding).mpr hexact
        simp only [SubmittedRoot.held] at hheld
        omega
      · refine (countExact_of_same ?_ hafter.outstanding).mpr hexact
        rw [Submission.heldRoots_eq_sum, Submission.heldRoots_eq_sum, hafter.roots]

theorem rootChange_of_reachable
    (hreach : Reachable (systemStep deployment) (State.initial blockNumber) state)
    (hstep : systemStep deployment state call = .ok next) :
    RootChange deployment.submission state.submission next.submission :=
  (systemStep_effect_of_reachable hreach hstep).rootChange

theorem rootChain_of_run
    (hrun : Run (systemStep deployment) (State.initial blockNumber) trace state) :
    RootChain deployment.submission state.submission := by
  induction hrun with
  | nil =>
    have hnone : ∀ logIndex, ¬ (State.initial blockNumber).submission.IsSubmitted logIndex :=
      fun _ hsubmitted => hsubmitted rfl
    refine ⟨⟨0, ?_⟩, ?_, ?_⟩
    · intro logIndex
      simp [hnone logIndex]
    · intro logIndex _ hsubmitted
      exact absurd hsubmitted (hnone logIndex)
    · intro logIndex hsubmitted
      exact absurd hsubmitted (hnone logIndex)
  | @snoc trace before after call hprefix hlast ih =>
    exact ih.change (rootChange_of_reachable ⟨trace, hprefix⟩ hlast)

theorem hashesKept_of_run {start : State}
    (hreach : Reachable (systemStep deployment) (State.initial blockNumber) start)
    (hrun : Run (systemStep deployment) start trace state)
    (hsubmitted : start.submission.IsSubmitted logIndex) :
    state.submission.IsSubmitted logIndex ∧
      (start.submission.roots logIndex).HashesKept (state.submission.roots logIndex) := by
  induction hrun with
  | nil => exact ⟨hsubmitted, .refl _⟩
  | @snoc trace before after call hearlier hlast ih =>
    have hchange := rootChange_of_reachable (hearlier.reachable hreach) hlast
    exact ⟨hchange.isSubmitted ih.1, ih.2.trans (hchange.hashesKept ih.1)⟩

theorem traceTotal_releases (hrun : Run (systemStep deployment) (State.initial blockNumber) trace
      state) (logIndex : UInt64) :
    traceTotal (releases deployment logIndex) trace = (state.submission.roots logIndex).spent := by
  have hcollects := @Run.collects _ _ _ (systemStep deployment)
    (fun current => (current.submission.roots logIndex).spent) (releases deployment logIndex) _ _ _
    (by
      intro before call after hreach hstep
      have hspent := (rootChange_of_reachable hreach hstep).spent_step logIndex
      simp only [releases, hstep]
      exact hspent) hrun
  have hstart : ((State.initial blockNumber).submission.roots logIndex).spent = 0 := rfl
  rw [hstart, Nat.zero_add] at hcollects
  exact hcollects.symm

end Ledgers

/-- The ledger at the end of a run: chain, records, bonds and how they left. -/
structure RootLedger (deployment : Deployment)
    (trace : List (State × SystemCall)) (final : State) : Prop where
  segment : ∃ count, ∀ logIndex, final.submission.IsSubmitted logIndex ↔ logIndex.toNat < count
  chained : ∀ logIndex, 0 < logIndex → final.submission.IsSubmitted logIndex →
    (final.submission.roots logIndex).prevLogEntryHash =
      (final.submission.roots (logIndex - 1)).expectedNextHash
  fixed : ∀ before call, (before, call) ∈ trace → ∀ logIndex,
    before.submission.IsSubmitted logIndex →
    (before.submission.roots logIndex).HashesKept (final.submission.roots logIndex)
  covered : final.recordedBonds ≤ final.submission.balance
  leavesOnce : ∀ logIndex, final.submission.IsSubmitted logIndex →
    traceTotal (releases deployment logIndex) trace =
      if (final.submission.roots logIndex).bond = 0 then 1 else 0
  releasedBy : ∀ before call after, (before, call) ∈ trace →
    systemStep deployment before call = .ok after → ∀ logIndex,
    (before.submission.roots logIndex).bond ≠ 0 → (after.submission.roots logIndex).bond = 0 →
    ReleasedBy before after logIndex call ∧
      after.submission.balance + (before.submission.roots logIndex).bond = before.submission.balance
  drops : ∀ before call after, (before, call) ∈ trace →
    systemStep deployment before call = .ok after →
    after.submission.balance < before.submission.balance →
    ∃ logIndex, (before.submission.roots logIndex).bond ≠ 0 ∧
      (after.submission.roots logIndex).bond = 0

theorem RootLedger.of_run {deployment : Deployment} {blockNumber : ℕ}
    {trace : List (State × SystemCall)} {final : State}
    (hrun : Run (systemStep deployment) (State.initial blockNumber) trace final) :
    RootLedger deployment trace final := by
  have hchain := rootChain_of_run hrun
  have hreach : ∀ before call, (before, call) ∈ trace →
      Reachable (systemStep deployment) (State.initial blockNumber)
        before := by
    intro before call hmem
    obtain ⟨earlier, _, _, _, hearlier, _, _⟩ := hrun.split hmem
    exact ⟨earlier, hearlier⟩
  refine ⟨hchain.segment, hchain.chained, ?_,
    (BondInvariant.of_reachable ⟨trace, hrun⟩).covered, ?_, ?_, ?_⟩
  · intro before call hmem logIndex hsubmitted
    obtain ⟨earlier, later, after, _, hearlier, hstep, hlater⟩ := hrun.split hmem
    exact (hashesKept_of_run ⟨earlier, hearlier⟩ (Run.cons hstep hlater) hsubmitted).2
  · intro logIndex hsubmitted
    unfold Submission.IsSubmitted at hsubmitted
    rw [traceTotal_releases hrun, SubmittedRoot.spent]
    simp only [ne_eq, hsubmitted, not_false_eq_true, true_and]
  · intro before call after hmem hstep logIndex hbond hgone
    have heffect := systemStep_effect_of_reachable (hreach before call hmem) hstep
    exact ⟨releasedBy_of_bondGone heffect hbond hgone,
      heffect.rootChange.balance_of_release hbond hgone⟩
  · intro before call after hmem hstep hdrop
    exact (rootChange_of_reachable (hreach before call hmem) hstep).balance_drop hdrop

/-- The ledger of every run, and the runs through which the count of
outstanding roots is exact. -/
theorem rootLedger_and_count_iff {deployment : Deployment} {blockNumber : ℕ}
    {trace : List (State × SystemCall)} {final : State}
    (hrun : Run (systemStep deployment) (State.initial blockNumber) trace final) :
    RootLedger deployment trace final ∧
      ((∀ earlier later state, trace = earlier ++ later →
          Run (systemStep deployment) (State.initial blockNumber) earlier state →
          CountExact deployment.submission state.submission) ↔
        ∀ entry ∈ trace, regularStep deployment entry.1 entry.2 = true) := by
  refine ⟨.of_run hrun, ?_⟩
  refine @Run.throughout_iff _ _ _ (systemStep deployment)
    (fun state => CountExact deployment.submission state.submission)
    (fun before call => regularStep deployment before call = true) _ _ _ ?_ ?_ hrun
  · simp [CountExact, Submission.heldRoots, Submission.IsSubmitted,
      State.initial, Submission.initial, SubmittedRoot.unset]
  · rintro before call after ⟨earlier, hearlier⟩ hstep hexact
    exact countExact_effect (systemStep_effect_of_reachable ⟨earlier, hearlier⟩ hstep)
      (rootChain_of_run hearlier) hexact

/-! ## A root which is counted down twice -/

/-- Roots 0 and 1; an id which was never opened is timed out, which takes the
bond of root 0. -/
def strayTimeout : List SystemCall :=
  [.submission 0x5E9 1000 (.submitStateRoot 0 .zero .zero), .mine 10,
    .submission 0x5E9 1000 (.submitStateRoot 1 .zero (chainHash .zero .zero)),
    .game 0xB0B 0 false (.claimTimeout 7 ⟨true, true⟩), .mine 60]

/-- Root 0 is finalised without a bond, and the counter drops to zero while
root 1 has its bond. -/
theorem strayTimeout_miscounts :
    ∃ before after : State, Reachable (systemStep sampleDeployment) (State.initial 100) before ∧
        systemStep sampleDeployment before
          (.submission 0x5E9 0 (.finaliseStateRoot 0 true)) = .ok after ∧
        after.submission.outstandingRootsCount 0x5E9 = 0 ∧ after.submission.IsSubmitted 1 ∧
        (after.submission.roots 1).bond = 1000 ∧
        ¬ CountExact sampleDeployment.submission after.submission := by
  obtain ⟨before, after, hreach, hcall, hcount, hsubmitted, hbond⟩ := exists_call_of_traceOf
    (systemStep sampleDeployment) (State.initial 100) strayTimeout
    (.submission 0x5E9 0 (.finaliseStateRoot 0 true))
    (fun _ after => after.submission.outstandingRootsCount 0x5E9 = 0 ∧
      after.submission.IsSubmitted 1 ∧ (after.submission.roots 1).bond = 1000) (by decide +kernel)
  refine ⟨before, after, hreach, hcall, hcount, hsubmitted, hbond, ?_⟩
  intro hexact
  have hnone : after.submission.heldRoots = 0 := by
    rw [← hexact]
    change (after.submission.outstandingRootsCount 0x5E9).toNat = 0
    rw [hcount]
    rfl
  have hmem : (1 : UInt64) ∈ Finset.univ.filter fun logIndex =>
      after.submission.IsSubmitted logIndex ∧ (after.submission.roots logIndex).bond ≠ 0 :=
    Finset.mem_filter.mpr ⟨Finset.mem_univ 1, hsubmitted, by rw [hbond]; decide⟩
  rw [Submission.heldRoots, Finset.card_eq_zero] at hnone
  rw [hnone] at hmem
  exact absurd hmem (Finset.notMem_empty 1)

theorem regularRun_counts :
    ∃ trace final, Run (systemStep sampleDeployment) (State.initial 100) trace final ∧
        RootLedger sampleDeployment trace final ∧
        CountExact sampleDeployment.submission final.submission := by
  obtain ⟨trace, final, hrun, hfinal⟩ := exists_run_of_traceOf
    (systemStep sampleDeployment) (State.initial 100) agreedChallenge
    (fun trace _ => ∀ entry ∈ trace, regularStep sampleDeployment entry.1 entry.2 = true)
    (by decide +kernel)
  obtain ⟨hledger, hcount⟩ := rootLedger_and_count_iff hrun
  exact ⟨trace, final, hrun, hledger, hcount.mpr hfinal trace [] final (by simp) hrun⟩

end FaultProof
end Canon
