import Canon.DisputeFreeze

/-!
# The stake while a dispute is open

The stake contract asks the bridge whether a withdrawal is locked.  The bridge
does not know the disputes; it looks at the time of the latest root.
-/

namespace Canon
namespace Dispute

section Lockup

variable {recover : Recover} {deployment : MigratingDeployment} {state next : SystemState}

structure Wired (deployment : Deployment) : Prop where
  stake_verifier : deployment.stake.disputeVerifier = deployment.verifier.self
  stake_bridge : deployment.stake.bridge = deployment.bridge.self
  bridge_verifier : deployment.bridge.disputeVerifier = deployment.verifier.self

def OpenOnRoot (state : SystemState) : Prop := ∃ disputeId,
    (state.disputes.disputes disputeId).challenger ≠ 0 ∧
      (state.disputes.disputes disputeId).status = .open ∧
      (state.disputes.ledger.stateRoots
        (state.disputes.disputes disputeId).impugnedLogIndex).exists = true

/-- The block before which the stake contract lets a root be forgotten. -/
def withdrawThreshold (params : Stake.StakeParams) (ledger : Bridge.Ledger) : UInt64 :=
  if params.disputeWindowBlocks.toNat < ledger.blockNumber then
    UInt64.ofNat (ledger.blockNumber - params.disputeWindowBlocks.toNat)
  else 0

structure LatestRootOpen (deployment : Deployment) (ledger : Bridge.Ledger) : Prop where
  submitted : ledger.latestStateRootSubmittedAtBlock ≠ 0
  recent : withdrawThreshold deployment.stake ledger < ledger.latestStateRootSubmittedAtBlock
  running : ledger.blockNumber <
      ledger.latestStateRootSubmittedAtBlock.toNat + deployment.bridge.disputeWindowBlocks.toNat ∨
    2 ^ 64 ≤ ledger.latestStateRootSubmittedAtBlock.toNat +
      deployment.bridge.disputeWindowBlocks.toNat

theorem hasOpenDisputeOlderThan_eq_false_iff (base : Deployment) (ledger : Bridge.Ledger) :
    ledger.hasOpenDisputeOlderThan base.bridge (withdrawThreshold base.stake ledger) = .ok false ↔
      ¬ LatestRootOpen base ledger := by
  unfold Bridge.Ledger.hasOpenDisputeOlderThan
  by_cases hsubmitted : ledger.latestStateRootSubmittedAtBlock = 0
  · rw [if_pos hsubmitted]
    simp only [true_iff]
    intro hopen
    exact hopen.submitted hsubmitted
  rw [if_neg hsubmitted]
  by_cases hold : ledger.latestStateRootSubmittedAtBlock ≤ withdrawThreshold base.stake ledger
  · rw [if_pos hold]
    simp only [true_iff]
    intro hopen
    exact absurd hopen.recent (UInt64.not_lt.mpr hold)
  rw [if_neg hold]
  have hopen_iff : LatestRootOpen base ledger ↔
      (ledger.blockNumber < ledger.latestStateRootSubmittedAtBlock.toNat +
          base.bridge.disputeWindowBlocks.toNat ∨
        2 ^ 64 ≤ ledger.latestStateRootSubmittedAtBlock.toNat +
          base.bridge.disputeWindowBlocks.toNat) := by
    constructor
    · exact LatestRootOpen.running
    · intro hrunning
      exact ⟨hsubmitted, UInt64.not_le.mp hold, hrunning⟩
  rw [hopen_iff]
  simp only [bind_eq_ok, checkedAdd64_eq_ok, pure_eq_ok, decide_eq_false_iff_not,
    not_or, Nat.not_lt, Nat.not_le]
  constructor
  · rintro ⟨windowEnd, ⟨hsum, rfl⟩, hend⟩
    rw [UInt64.toNat_add, Nat.mod_eq_of_lt hsum] at hend
    exact ⟨hend, hsum⟩
  · rintro ⟨hend, hsum⟩
    refine ⟨_, ⟨hsum, rfl⟩, ?_⟩
    rw [UInt64.toNat_add, Nat.mod_eq_of_lt hsum]
    exact hend

theorem withdraw_eq_ok_iff {base : Deployment} {escrow paid : Stake.Escrow}
    {ledger : Bridge.Ledger} {sender : Address} {amount : ℕ} {accepted : Bool} :
    Stake.withdraw base.stake sender escrow base.bridge ledger amount accepted = .ok paid ↔
      sender = base.stake.sequencer ∧ 0 < amount ∧
        amount ≤ escrow.totalStaked ∧ ¬ LatestRootOpen base ledger ∧
        Stake.sendValue { escrow with totalStaked := escrow.totalStaked - amount }
          base.stake.sequencer amount accepted = .ok paid := by
  rw [← hasOpenDisputeOlderThan_eq_false_iff]
  simp only [Stake.withdraw, bind_eq_ok, revertIf_eq_ok, exists_const,
    mapError_eq_ok, ne_eq, not_not, not_or, Nat.not_lt, Bool.not_eq_true, Nat.pos_iff_ne_zero]
  constructor
  · rintro ⟨hsender, ⟨hpos, hle⟩, locked, hlocked, rfl, hsend⟩
    exact ⟨hsender, hpos, hle, hlocked, hsend⟩
  · rintro ⟨hsender, hpos, hle, hlocked, hsend⟩
    exact ⟨hsender, ⟨hpos, hle⟩, false, hlocked, rfl, hsend⟩

theorem withdrawStake_refused_iff (hsolvent : Stake.Solvent state.disputes.escrow) :
    (∀ amount accepted next, systemStep recover deployment state
        (.withdrawStake deployment.base.stake.sequencer amount accepted) ≠ .ok next) ↔
      state.disputes.escrow.totalStaked = 0 ∨
        LatestRootOpen deployment.base state.disputes.ledger := by
  constructor
  · intro hrefused
    by_contra hfree
    rw [not_or] at hfree
    obtain ⟨hstaked, hunlocked⟩ := hfree
    have hsend : Stake.sendValue
        { state.disputes.escrow with
          totalStaked := state.disputes.escrow.totalStaked - 1 }
        deployment.base.stake.sequencer 1 true = .ok _ :=
      bind_eq_ok.mpr ⟨(), revertIf_of_not (by
        unfold Stake.Solvent at hsolvent
        simp only [not_or, Nat.not_lt, Bool.true_eq_false, not_false_eq_true, and_true]
        omega), rfl⟩
    have hpaid := withdraw_eq_ok_iff.mpr ⟨rfl, Nat.one_pos,
      Nat.one_le_iff_ne_zero.mpr hstaked, hunlocked, hsend⟩
    exact hrefused 1 true _ (bind_eq_ok.mpr ⟨_, mapError_eq_ok.mpr hpaid, rfl⟩)
  · intro hheld amount accepted next hstep
    obtain ⟨paid, hpaid, _⟩ := stakeCall_effect hstep
    obtain ⟨_, hpos, hle, hunlocked, _⟩ := withdraw_eq_ok_iff.mp hpaid
    rcases hheld with hempty | hlocked
    · omega
    · exact hunlocked hlocked

theorem systemStep_lowers_stake {call : SystemCall} (hwired : Wired deployment.base)
    (hstep : systemStep recover deployment state call = .ok next)
    (hlower : next.disputes.escrow.totalStaked < state.disputes.escrow.totalStaked) :
    (∃ amount accepted, call = .withdrawStake deployment.base.stake.sequencer amount accepted) ∨
      ∃ identities disputeId reEvidenceBlob signerHint signers sigs challengerAccepts burnAccepts,
        call = .dispute (.finalizeUpheld identities disputeId reEvidenceBlob
          signerHint signers sigs challengerAccepts burnAccepts) := by
  rcases systemStep_escrow hstep with
    ⟨request, hstake, hrequest⟩ |
    ⟨identities, disputeId, reEvidenceBlob, signerHint, signers, sigs,
      challengerAccepts, burnAccepts, hcall, _⟩ | hsame
  · rcases hrequest with ⟨sender, value, _, rfl⟩ | ⟨sender, amount, accepted, hcall, rfl⟩ |
      ⟨sender, disputeId, challenger, challengerAccepts, burnAccepts, _,
        hsender, rfl⟩ | ⟨amount, _, rfl⟩
    · simp only [Stake.stakeStep, Stake.deposit, bind_eq_ok, revertIf_eq_ok,
        exists_const, checkedAdd_eq_ok, pure_eq_ok] at hstake
      obtain ⟨_, total, ⟨_, htotal⟩, hescrow⟩ := hstake
      rw [← hescrow] at hlower
      simp only at hlower
      omega
    · have hsender := (withdraw_eq_ok_iff.mp hstake).1
      exact .inl ⟨amount, accepted, by rw [hcall, hsender]⟩
    · have hauthorised := (Stake.slash_effect hstake).authorised
      exact absurd (hauthorised.trans hwired.stake_verifier) hsender
    · rw [← Except.ok.inj hstake] at hlower
      exact absurd hlower (lt_irrefl _)
  · exact .inr ⟨identities, disputeId, reEvidenceBlob, signerHint, signers,
      sigs, challengerAccepts, burnAccepts, hcall⟩
  · rw [hsame] at hlower
    exact absurd hlower (lt_irrefl _)

end Lockup

/-- While a dispute on a submitted root is open, no withdrawal of the sequencer
succeeds exactly when there is no stake or the latest root is inside its
window; and then the stake leaves only by an upheld dispute. -/
theorem stake_held_while_open_iff
    {recover : Recover} {deployment : MigratingDeployment} {blockNumber : ℕ}
    {state : SystemState} (hwired : Wired deployment.base)
    (hreach : Reachable (systemStep recover deployment) (SystemState.initial blockNumber) state) :
    ((OpenOnRoot state → ∀ amount accepted next, systemStep recover deployment state
          (.withdrawStake deployment.base.stake.sequencer amount accepted) ≠ .ok next) ↔
      (OpenOnRoot state → state.disputes.escrow.totalStaked = 0 ∨
        LatestRootOpen deployment.base state.disputes.ledger)) ∧
    (state.disputes.escrow.totalStaked = 0 ∨ LatestRootOpen deployment.base state.disputes.ledger →
      ∀ call next, systemStep recover deployment state call = .ok next →
        next.disputes.escrow.totalStaked < state.disputes.escrow.totalStaked →
        ∃ identities disputeId reEvidenceBlob signerHint signers sigs challengerAccepts burnAccepts,
          call = .dispute (.finalizeUpheld identities disputeId
            reEvidenceBlob signerHint signers sigs challengerAccepts burnAccepts)) := by
  have hrefused := @withdrawStake_refused_iff recover deployment state (solvent_of_reachable hreach)
  refine ⟨by rw [hrefused], ?_⟩
  intro hheld call next hstep hlower
  rcases systemStep_lowers_stake hwired hstep hlower with
    ⟨amount, accepted, hcall⟩ | hupheld
  · rw [hcall] at hstep
    exact absurd hstep (hrefused.mpr hheld amount accepted next)
  · exact hupheld

/-! ## A withdrawal under an open dispute -/

def disputedRootRun (blocks : ℕ) : List SystemCall :=
  [.depositStake 0x5E0 100, .bridge (Bridge.attested 1), .bridge (.mine blocks),
    .dispute (.fileDispute 0xC4A 1 claimSignatureInvalid [])]

/-- The dispute is filed after the window of the root: the whole stake can be
withdrawn. -/
theorem stake_withdrawn_under_open_dispute :
    ∃ state next : SystemState, Reachable (systemStep Bridge.sampleRecover migratingSample)
          (SystemState.initial 100) state ∧ OpenOnRoot state ∧
        systemStep Bridge.sampleRecover migratingSample state
          (.withdrawStake 0x5E0 100 true) = .ok next ∧ state.disputes.escrow.totalStaked = 100 ∧
        next.disputes.escrow.totalStaked = 0 := by
  obtain ⟨state, next, hreach, hcall, hknown, hopen, hroot, hstaked⟩ := exists_call_of_traceOf
    (systemStep Bridge.sampleRecover migratingSample) (SystemState.initial 100)
    (disputedRootRun 50) (.withdrawStake 0x5E0 100 true)
    (fun state next => (state.disputes.disputes 0).challenger ≠ 0 ∧
      (state.disputes.disputes 0).status = .open ∧
      (state.disputes.ledger.stateRoots
        (state.disputes.disputes 0).impugnedLogIndex).exists = true ∧
      state.disputes.escrow.totalStaked = 100 ∧ next.disputes.escrow.totalStaked = 0)
    (by decide +kernel)
  exact ⟨state, next, hreach, ⟨0, hknown, hopen, hroot⟩, hcall, hstaked⟩

theorem stake_held_inside_window :
    ∃ state : SystemState, OpenOnRoot state ∧ state.disputes.escrow.totalStaked = 100 ∧
        ∀ amount accepted next, systemStep Bridge.sampleRecover migratingSample state
            (.withdrawStake 0x5E0 amount accepted) ≠ .ok next := by
  obtain ⟨trace, state, hrun, hknown, hopen, hroot, hstaked, hlatest, hblock⟩ :=
    exists_run_of_traceOf (systemStep Bridge.sampleRecover migratingSample)
      (SystemState.initial 100) (disputedRootRun 10)
      (fun _ state => (state.disputes.disputes 0).challenger ≠ 0 ∧
        (state.disputes.disputes 0).status = .open ∧
        (state.disputes.ledger.stateRoots
          (state.disputes.disputes 0).impugnedLogIndex).exists = true ∧
        state.disputes.escrow.totalStaked = 100 ∧
        state.disputes.ledger.latestStateRootSubmittedAtBlock = 100 ∧
        state.disputes.ledger.blockNumber = 110) (by decide +kernel)
  have hdispute : OpenOnRoot state := ⟨0, hknown, hopen, hroot⟩
  have hwindow : LatestRootOpen migratingSample.base state.disputes.ledger := by
    refine ⟨by rw [hlatest]; decide, ?_, ?_⟩
    · rw [hlatest, withdrawThreshold, hblock]
      decide
    · rw [hlatest, hblock]
      exact .inl (by decide)
  refine ⟨state, hdispute, hstaked, ?_⟩
  exact (stake_held_while_open_iff ⟨rfl, rfl, rfl⟩ ⟨trace, hrun⟩).1.mpr
    (fun _ => .inr hwindow) hdispute

end Dispute
end Canon
