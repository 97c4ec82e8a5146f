import Canon.RunAccounting
import Canon.StakeLockup

/-!
# The life of a dispute

A dispute is filed once, stays open until one verdict, and is then never
touched again.  An upheld verdict slashes the stake and rolls the bridge back in
the same transaction, a rejected one does neither.

The payments of a slash hand control to their receivers.  While they run, the
status, the flag and the recorded stake are already written and the guarded
functions are locked; what remains callable (a deposit of stake, a new dispute,
the bridge) commutes with the rest of the transaction, so a transaction is one
step here.
-/

namespace Canon
namespace Dispute

open Function List

/-! ## The payments of the stake contract -/

def slashPayments (params : Stake.StakeParams) (stake : ℕ)
    (challenger : Address) : List (Address × ℕ) :=
  [(challenger, stake * params.slashRatioBps / 10000),
    (params.burnAddress, stake - stake * params.slashRatioBps / 10000)].filter
    (fun payment => 0 < payment.2)

variable {escrow next : Stake.Escrow}

theorem sendPositive_transfers {recipient : Address} {amount : ℕ} {accepted : Bool}
    (hsend : Stake.sendPositive escrow recipient amount accepted = .ok next) :
    next.transfers = escrow.transfers ++
      [(recipient, amount)].filter (fun payment => 0 < payment.2) := by
  unfold Stake.sendPositive at hsend
  split at hsend
  · rename_i hpos
    simp only [Stake.sendValue, bind_eq_ok, revertIf_eq_ok, exists_const, pure_eq_ok] at hsend
    obtain ⟨_, hnext⟩ := hsend
    subst hnext
    simp [hpos]
  · rename_i hzero
    cases hsend
    simp [hzero]

theorem slash_transfers {params : Stake.StakeParams} {sender challenger : Address}
    {disputeId : UInt64} {challengerAccepts burnAccepts : Bool}
    (hcall : Stake.slash params sender escrow disputeId challenger
      challengerAccepts burnAccepts = .ok next) :
    next.transfers = escrow.transfers ++ slashPayments params escrow.totalStaked challenger := by
  simp only [Stake.slash, bind_eq_ok, revertIf_eq_ok, exists_const, checkedMul_eq_ok] at hcall
  obtain ⟨_, _, _, product, ⟨_, rfl⟩, rewarded, hreward, hburn⟩ := hcall
  rw [sendPositive_transfers hburn, sendPositive_transfers hreward, append_assoc, ← filter_append]
  rfl

theorem slashPayments_sum (params : Stake.StakeParams) (stake : ℕ) (challenger : Address) :
    ((slashPayments params stake challenger).map Prod.snd).sum = stake := by
  have hle := Stake.reward_le_stake params stake
  have hdrop : ∀ payments : List (Address × ℕ),
      ((payments.filter (fun payment => 0 < payment.2)).map Prod.snd).sum =
        (payments.map Prod.snd).sum := by
    intro payments
    induction payments with
    | nil => rfl
    | cons payment _ ih =>
      by_cases hpos : 0 < payment.2
      · simp [hpos, ih]
      · have hzero : payment.2 = 0 := by omega
        simp [hzero, ih]
  rw [slashPayments, hdrop]
  simp
  omega

/-! ## What a step does to the disputes -/

/-- The stake contract is slashed once, for this dispute and in favour of its
challenger. -/
def SlashedFor (deployment : Deployment) (before after : State) (disputeId : UInt64) : Prop :=
  before.escrow.slashedDispute disputeId = false ∧
    ∃ challengerAccepts burnAccepts,
      Stake.slash deployment.stake deployment.verifier.self before.escrow
        disputeId (before.disputes disputeId).challenger challengerAccepts
        burnAccepts = .ok after.escrow

/-- The bridge executes `revertToPriorRoot` with the index which the dispute
impugns. -/
def RolledBackFor (deployment : Deployment) (before after : State) (disputeId : UInt64) : Prop :=
  Bridge.revertToPriorRoot deployment.bridge deployment.verifier.self
    before.ledger 0 (before.disputes disputeId).impugnedLogIndex = .ok after.ledger

inductive DisputeEffect (deployment : Deployment) (before after : State) : Prop
  | filed (record : DisputeRecord) (opened : record.status = .open)
      (counted : before.nextDisputeId.toNat + 1 < 2 ^ 64)
      (disputes : after.disputes = update before.disputes before.nextDisputeId record)
      (nextDisputeId : after.nextDisputeId = before.nextDisputeId + 1)
      (escrow : after.escrow = before.escrow) (ledger : after.ledger = before.ledger)
  | upheld (disputeId : UInt64) (known : (before.disputes disputeId).challenger ≠ 0)
      (wasOpen : (before.disputes disputeId).status = .open)
      (disputes : after.disputes = (before.decide disputeId .upheld).disputes)
      (nextDisputeId : after.nextDisputeId = before.nextDisputeId)
      (slashed : SlashedFor deployment before after disputeId)
      (rolledBack : RolledBackFor deployment before after disputeId)
  | rejected (disputeId : UInt64) (known : (before.disputes disputeId).challenger ≠ 0)
      (wasOpen : (before.disputes disputeId).status = .open)
      (disputes : after.disputes = (before.decide disputeId .rejected).disputes)
      (nextDisputeId : after.nextDisputeId = before.nextDisputeId)
      (escrow : after.escrow = before.escrow) (ledger : after.ledger = before.ledger)
  | untouched (disputes : after.disputes = before.disputes)
      (nextDisputeId : after.nextDisputeId = before.nextDisputeId)
      (slashes : after.escrow.slashedDispute = before.escrow.slashedDispute)

section Steps

variable {recover : Recover} {deployment : MigratingDeployment}
  {before after : SystemState} {call : SystemCall}

theorem disputeStep_effect {base : Deployment} {current next : State} {request : DisputeCall}
    (hstep : disputeStep recover base current request = .ok next) :
    DisputeEffect base current next := by
  cases request with
  | fileDispute =>
    simp only [disputeStep, fileDispute, bind_eq_ok, revertIf_eq_ok,
      exists_const, Prod.exists, pure_eq_ok, checkedAdd64_eq_ok, Prod.mk.injEq] at hstep
    obtain ⟨disputeId, filed, ⟨_, _, nextDisputeId, ⟨hcount, hnext⟩, _, hfiled⟩, hlast⟩ := hstep
    subst hlast hfiled
    exact .filed _ rfl hcount rfl hnext.symm rfl rfl
  | finalizeUpheld _ disputeId _ _ _ _ challengerAccepts burnAccepts =>
    simp only [disputeStep, finalizeUpheld, bind_eq_ok, exists_const,
      checkVerdict_eq_ok, mapError_eq_ok, pure_eq_ok] at hstep
    obtain ⟨⟨hknown, hopen, _⟩, escrow, hslash, ledger, hrollback, hnext⟩ := hstep
    subst hnext
    exact .upheld disputeId hknown hopen rfl rfl
      ⟨(Stake.slash_effect hslash).fresh, challengerAccepts, burnAccepts, hslash⟩ hrollback
  | finalizeRejected _ disputeId =>
    simp only [disputeStep, finalizeRejected, bind_eq_ok, exists_const,
      checkVerdict_eq_ok, pure_eq_ok] at hstep
    obtain ⟨⟨hknown, hopen, _⟩, hnext⟩ := hstep
    subst hnext
    exact .rejected disputeId hknown hopen rfl rfl rfl rfl

theorem stakeStep_keeps_slashes {params : Stake.StakeParams} {bridgeParams : Bridge.BridgeParams}
    {request : Stake.StakeCall}
    (hstep : Stake.stakeStep params bridgeParams escrow request = .ok next)
    (hother : ∀ disputeId challenger challengerAccepts burnAccepts,
      request ≠ .slash params.disputeVerifier disputeId challenger challengerAccepts burnAccepts) :
    next.slashedDispute = escrow.slashedDispute := by
  cases request with
  | deposit =>
    simp only [Stake.stakeStep, Stake.deposit, bind_eq_ok, revertIf_eq_ok,
      exists_const, pure_eq_ok] at hstep
    obtain ⟨_, _, _, hnext⟩ := hstep
    rw [← hnext]
  | withdraw =>
    simp only [Stake.stakeStep, Stake.withdraw, Stake.sendValue, bind_eq_ok,
      revertIf_eq_ok, exists_const, pure_eq_ok] at hstep
    obtain ⟨_, _, _, _, _, _, hnext⟩ := hstep
    rw [← hnext]
  | slash _ disputeId challenger challengerAccepts burnAccepts =>
    have hauthorised := (Stake.slash_effect hstep).authorised
    rw [hauthorised] at hother
    exact absurd rfl (hother disputeId challenger challengerAccepts burnAccepts)
  | receiveEther => cases hstep
  | forcedEther =>
    rw [← Except.ok.inj hstep]

theorem systemStep_effect (hwired : Wired deployment.base)
    (hstep : systemStep recover deployment before call = .ok after) :
    DisputeEffect deployment.base before.disputes after.disputes := by
  have hstake : ∀ request, stakeCall deployment before request = .ok after →
      (∀ disputeId challenger challengerAccepts burnAccepts,
        request ≠ .slash deployment.base.stake.disputeVerifier disputeId
          challenger challengerAccepts burnAccepts) →
      DisputeEffect deployment.base before.disputes after.disputes := by
    intro request hcall hother
    obtain ⟨escrow, hescrow, hafter⟩ := stakeCall_effect hcall
    subst hafter
    exact .untouched rfl rfl (stakeStep_keeps_slashes hescrow hother)
  cases call with
  | dispute =>
    simp only [systemStep, bind_eq_ok, mapError_eq_ok, pure_eq_ok] at hstep
    obtain ⟨disputes, hrequest, hafter⟩ := hstep
    subst hafter
    exact disputeStep_effect hrequest
  | bridge =>
    simp only [systemStep, bind_eq_ok, revertIf_eq_ok, exists_const] at hstep
    obtain ⟨ledger, read, _, hafter⟩ := bridgeCall_effect hstep.2
    subst hafter
    exact .untouched rfl rfl rfl
  | depositStake | withdrawStake | forceEther => exact hstake _ hstep (by simp)
  | slashStake =>
    simp only [systemStep, bind_eq_ok, revertIf_eq_ok, exists_const] at hstep
    apply hstake _ hstep.2
    intro _ _ _ _ hrequest
    simp only [Stake.StakeCall.slash.injEq] at hrequest
    exact hstep.1 (hrequest.1.trans hwired.stake_verifier)
  | activate =>
    simp only [systemStep, bind_eq_ok, mapError_eq_ok, pure_eq_ok] at hstep
    obtain ⟨activation, _, hafter⟩ := hstep
    subst hafter
    exact .untouched rfl rfl rfl

end Steps

/-! ## Filed ids, and the flags of the stake contract -/

/-- An id which was not given out has no record, and the stake contract has
marked exactly the upheld disputes. -/
structure Consistent (state : State) : Prop where
  unfiled : ∀ disputeId, state.nextDisputeId ≤ disputeId → state.disputes disputeId = .unset
  marked : ∀ disputeId, state.escrow.slashedDispute disputeId = true ↔
    (state.disputes disputeId).status = .upheld

section Effects

variable {deployment : Deployment} {before after : State} {disputeId : UInt64}

theorem State.decide_status (state : State) (decided disputeId : UInt64) (status : DisputeStatus) :
    ((state.decide decided status).disputes disputeId).status =
      if disputeId = decided then status
      else (state.disputes disputeId).status := by
  by_cases hsame : disputeId = decided
  · rw [hsame]
    simp [State.decide]
  · simp [State.decide, hsame]

theorem State.decide_of_ne (state : State) {decided : UInt64} (status : DisputeStatus)
    (hne : disputeId ≠ decided) :
    (state.decide decided status).disputes disputeId = state.disputes disputeId :=
  update_of_ne hne _ _

theorem Consistent.fresh (hconsistent : Consistent before) :
    before.disputes before.nextDisputeId = .unset := hconsistent.unfiled _ (UInt64.le_refl _)

theorem DisputeEffect.decided_kept (heffect : DisputeEffect deployment before after)
    (hconsistent : Consistent before) (hdecided : (before.disputes disputeId).status ≠ .open) :
    after.disputes disputeId = before.disputes disputeId := by
  cases heffect with
  | filed _ _ _ disputes =>
    have hold : disputeId ≠ before.nextDisputeId := by
      intro hfresh
      apply hdecided
      rw [hfresh, hconsistent.fresh]
      rfl
    rw [disputes, update_of_ne hold]
  | upheld decided _ wasOpen disputes | rejected decided _ wasOpen disputes =>
    have hold : disputeId ≠ decided := by
      intro hsame
      exact hdecided (hsame ▸ wasOpen)
    rw [disputes, State.decide_of_ne before _ hold]
  | untouched disputes =>
    rw [disputes]

theorem DisputeEffect.status_changed (heffect : DisputeEffect deployment before after)
    (hconsistent : Consistent before)
    (hchanged : (after.disputes disputeId).status ≠ (before.disputes disputeId).status) :
    (before.disputes disputeId).status = .open ∧
      (((after.disputes disputeId).status = .upheld ∧ SlashedFor deployment before after disputeId ∧
          RolledBackFor deployment before after disputeId) ∨
        ((after.disputes disputeId).status = .rejected ∧
          after.escrow = before.escrow ∧ after.ledger = before.ledger)) := by
  cases heffect with
  | filed _ opened _ disputes =>
    by_cases hfresh : disputeId = before.nextDisputeId
    · rw [hfresh, disputes, hconsistent.fresh, update_self, opened] at hchanged
      exact absurd rfl hchanged
    · rw [disputes, update_of_ne hfresh] at hchanged
      exact absurd rfl hchanged
  | upheld decided _ wasOpen disputes _ slashed rolledBack =>
    rw [disputes, State.decide_status] at hchanged ⊢
    by_cases hsame : disputeId = decided
    · subst hsame
      exact ⟨wasOpen, .inl ⟨if_pos rfl, slashed, rolledBack⟩⟩
    · rw [if_neg hsame] at hchanged
      exact absurd rfl hchanged
  | rejected decided _ wasOpen disputes _ escrow ledger =>
    rw [disputes, State.decide_status] at hchanged ⊢
    by_cases hsame : disputeId = decided
    · subst hsame
      exact ⟨wasOpen, .inr ⟨if_pos rfl, escrow, ledger⟩⟩
    · rw [if_neg hsame] at hchanged
      exact absurd rfl hchanged
  | untouched disputes =>
    rw [disputes] at hchanged
    exact absurd rfl hchanged

theorem SlashedFor.flags (hslashed : SlashedFor deployment before after disputeId) :
    after.escrow.slashedDispute = update before.escrow.slashedDispute disputeId true := by
  obtain ⟨_, challengerAccepts, burnAccepts, hslash⟩ := hslashed
  exact (Stake.slash_effect hslash).marked

theorem DisputeEffect.consistent (heffect : DisputeEffect deployment before after)
    (hconsistent : Consistent before) : Consistent after := by
  have hunfiled : ∀ decided status disputeId, (before.disputes decided).challenger ≠ 0 →
      before.nextDisputeId ≤ disputeId →
      (before.decide decided status).disputes disputeId = .unset := by
    intro decided status disputeId hknown hle
    have hold : disputeId ≠ decided := by
      intro hsame
      rw [← hsame, hconsistent.unfiled disputeId hle] at hknown
      exact hknown rfl
    rw [State.decide_of_ne before _ hold]
    exact hconsistent.unfiled disputeId hle
  cases heffect with
  | filed _ opened counted disputes nextDisputeId escrow =>
    have hsuccessor : (before.nextDisputeId + 1).toNat = before.nextDisputeId.toNat + 1 := by
      exact Nat.mod_eq_of_lt counted
    constructor
    · intro disputeId hle
      rw [nextDisputeId, UInt64.le_iff_toNat_le, hsuccessor] at hle
      have hold : disputeId ≠ before.nextDisputeId := by
        intro hsame
        rw [hsame] at hle
        omega
      rw [disputes, update_of_ne hold]
      exact hconsistent.unfiled disputeId (UInt64.le_iff_toNat_le.mpr (by omega))
    · intro disputeId
      rw [escrow, hconsistent.marked disputeId, disputes]
      by_cases hfresh : disputeId = before.nextDisputeId
      · rw [hfresh, hconsistent.fresh, update_self, opened]
        rfl
      · rw [update_of_ne hfresh]
  | upheld decided known _ disputes nextDisputeId slashed =>
    constructor
    · intro disputeId hle
      rw [disputes]
      exact hunfiled decided .upheld disputeId known (nextDisputeId ▸ hle)
    · intro disputeId
      rw [disputes, slashed.flags, State.decide_status]
      by_cases hsame : disputeId = decided
      · simp [hsame]
      · rw [update_of_ne hsame, if_neg hsame]
        exact hconsistent.marked disputeId
  | rejected decided known wasOpen disputes nextDisputeId escrow =>
    constructor
    · intro disputeId hle
      rw [disputes]
      exact hunfiled decided .rejected disputeId known (nextDisputeId ▸ hle)
    · intro disputeId
      rw [disputes, escrow, State.decide_status, hconsistent.marked disputeId]
      by_cases hsame : disputeId = decided
      · simp [hsame, wasOpen]
      · rw [if_neg hsame]
  | untouched disputes nextDisputeId slashes =>
    constructor
    · intro disputeId hle
      rw [disputes]
      exact hconsistent.unfiled disputeId (nextDisputeId ▸ hle)
    · intro disputeId
      rw [disputes, slashes]
      exact hconsistent.marked disputeId

theorem DisputeEffect.upheld_iff (heffect : DisputeEffect deployment before after)
    (hconsistent : Consistent before) :
    ((before.disputes disputeId).status ≠ .upheld ∧ (after.disputes disputeId).status = .upheld) ↔
      SlashedFor deployment before after disputeId ∧
        RolledBackFor deployment before after disputeId := by
  constructor
  · rintro ⟨hbefore, hafter⟩
    have hchanged : (after.disputes disputeId).status ≠ (before.disputes disputeId).status := by
      rw [hafter]
      exact Ne.symm hbefore
    rcases (heffect.status_changed hconsistent hchanged).2 with
      hupheld | hrejected
    · exact hupheld.2
    · rw [hafter] at hrejected
      cases hrejected.1
  · rintro ⟨hslashed, _⟩
    have hmarked : after.escrow.slashedDispute disputeId = true := by
      rw [hslashed.flags, update_self]
    constructor
    · intro hupheld
      rw [← hconsistent.marked, hslashed.1] at hupheld
      cases hupheld
    · exact ((heffect.consistent hconsistent).marked disputeId).mp hmarked

end Effects

theorem consistent_of_reachable
    {recover : Recover} {deployment : MigratingDeployment} {blockNumber : ℕ}
    {state : SystemState} (hwired : Wired deployment.base)
    (hreach : Reachable (systemStep recover deployment) (SystemState.initial blockNumber) state) :
    Consistent state.disputes := by
  refine @Reachable.invariant _ _ _ _ (fun current => Consistent current.disputes) ?_ _ _ hreach ?_
  · intro before call after hstep hconsistent
    exact (systemStep_effect hwired hstep).consistent hconsistent
  · exact ⟨fun _ _ => rfl, fun _ => by simp [SystemState.initial,
      Stake.Escrow.initial, DisputeRecord.unset]⟩

/-! ## Where the stake goes -/

def stakeDeposited (_ : SystemState) : SystemCall → ℕ
  | .depositStake _ value => value
  | _ => 0

def stakeWithdrawn (_ : SystemState) : SystemCall → ℕ
  | .withdrawStake _ amount _ => amount
  | _ => 0

def paidToChallenger (deployment : MigratingDeployment) (state : SystemState) : SystemCall → ℕ
  | .dispute (.finalizeUpheld _ _ _ _ _ _ _ _) =>
    state.disputes.escrow.totalStaked * deployment.base.stake.slashRatioBps / 10000
  | _ => 0

def stakeBurned (deployment : MigratingDeployment) (state : SystemState) : SystemCall → ℕ
  | .dispute (.finalizeUpheld _ _ _ _ _ _ _ _) =>
    state.disputes.escrow.totalStaked - state.disputes.escrow.totalStaked *
        deployment.base.stake.slashRatioBps / 10000
  | _ => 0

def stakePayments (deployment : MigratingDeployment) (state : SystemState) :
    SystemCall → List (Address × ℕ)
  | .withdrawStake _ amount _ => [(deployment.base.stake.sequencer, amount)]
  | .dispute (.finalizeUpheld _ disputeId _ _ _ _ _ _) =>
    slashPayments deployment.base.stake state.disputes.escrow.totalStaked
      (state.disputes.disputes disputeId).challenger
  | _ => []

def slashesOf (disputeId : UInt64) (_ : SystemState) : SystemCall → ℕ
  | .dispute (.finalizeUpheld _ decided _ _ _ _ _ _) =>
    if decided = disputeId then 1 else 0
  | .slashStake _ slashed _ _ _ => if slashed = disputeId then 1 else 0
  | _ => 0

theorem stakePayments_sum (deployment : MigratingDeployment)
    (state : SystemState) (call : SystemCall) :
    ((stakePayments deployment state call).map Prod.snd).sum =
      stakeWithdrawn state call + paidToChallenger deployment state call +
        stakeBurned deployment state call := by
  cases call with
  | dispute request =>
    cases request with
    | finalizeUpheld =>
      have hle := Stake.reward_le_stake deployment.base.stake state.disputes.escrow.totalStaked
      simp only [stakePayments, slashPayments_sum, stakeWithdrawn, paidToChallenger, stakeBurned]
      omega
    | _ => rfl
  | withdrawStake =>
    simp [stakePayments, stakeWithdrawn, paidToChallenger, stakeBurned]
  | _ => rfl

structure StakeMoves (deployment : MigratingDeployment)
    (before : SystemState) (call : SystemCall) (after : SystemState) : Prop where
  staked : after.disputes.escrow.totalStaked +
      (stakeWithdrawn before call + paidToChallenger deployment before call +
        stakeBurned deployment before call) =
    before.disputes.escrow.totalStaked + stakeDeposited before call
  paid : after.disputes.escrow.transfers =
    before.disputes.escrow.transfers ++ stakePayments deployment before call
  flagged : ∀ disputeId, (after.disputes.escrow.slashedDispute disputeId).toNat =
      (before.disputes.escrow.slashedDispute disputeId).toNat + slashesOf disputeId before call

section Accounts

variable {recover : Recover} {deployment : MigratingDeployment}
  {blockNumber : ℕ} {before after final : SystemState} {call : SystemCall}
  {trace : List (SystemState × SystemCall)}

theorem StakeMoves.of_same_escrow (hsame : after.disputes.escrow = before.disputes.escrow)
    (hdeposited : stakeDeposited before call = 0) (hwithdrawn : stakeWithdrawn before call = 0)
    (hpaid : paidToChallenger deployment before call = 0)
    (hburned : stakeBurned deployment before call = 0)
    (hpayments : stakePayments deployment before call = [])
    (hslashes : ∀ disputeId, slashesOf disputeId before call = 0) :
    StakeMoves deployment before call after := by
  constructor
  · rw [hsame, hdeposited, hwithdrawn, hpaid, hburned]
  · rw [hsame, hpayments, append_nil]
  · intro disputeId
    rw [hsame, hslashes, Nat.add_zero]

theorem finalizeUpheld_moves {identities : Identities} {disputeId : UInt64} {reEvidenceBlob : Bytes}
    {signerHint : Address} {signers : List Address} {sigs : List Bytes}
    {challengerAccepts burnAccepts : Bool}
    (hslash : Stake.slash deployment.base.stake
      deployment.base.verifier.self before.disputes.escrow disputeId
      (before.disputes.disputes disputeId).challenger challengerAccepts
      burnAccepts = .ok after.disputes.escrow) :
    StakeMoves deployment before (.dispute (.finalizeUpheld identities disputeId reEvidenceBlob
        signerHint signers sigs challengerAccepts burnAccepts)) after := by
  have hslashed := Stake.slash_effect hslash
  have hle := Stake.reward_le_stake deployment.base.stake before.disputes.escrow.totalStaked
  constructor
  · rw [hslashed.emptied]
    simp only [stakeWithdrawn, paidToChallenger, stakeBurned, stakeDeposited]
    omega
  · exact slash_transfers hslash
  · intro other
    rw [hslashed.marked]
    by_cases hsame : other = disputeId
    · simp [hsame, slashesOf, hslashed.fresh]
    · simp [slashesOf, update_of_ne hsame, Ne.symm hsame]

theorem systemStep_moves (hwired : Wired deployment.base)
    (hstep : systemStep recover deployment before call = .ok after) :
    StakeMoves deployment before call after := by
  cases call with
  | dispute request =>
    simp only [systemStep, bind_eq_ok, mapError_eq_ok, pure_eq_ok] at hstep
    obtain ⟨disputes, hrequest, hafter⟩ := hstep
    subst hafter
    cases request with
    | fileDispute =>
      simp only [disputeStep, bind_eq_ok, Prod.exists, pure_eq_ok] at hrequest
      obtain ⟨disputeId, filed, hfile, hfiled⟩ := hrequest
      subst hfiled
      exact StakeMoves.of_same_escrow (fileDispute_effect hfile).2.1
        rfl rfl rfl rfl rfl fun _ => rfl
    | finalizeUpheld =>
      simp only [disputeStep, finalizeUpheld, bind_eq_ok, mapError_eq_ok, pure_eq_ok] at hrequest
      obtain ⟨_, _, escrow, hslash, ledger, _, hnext⟩ := hrequest
      subst hnext
      exact finalizeUpheld_moves hslash
    | finalizeRejected =>
      simp only [disputeStep, finalizeRejected, bind_eq_ok, pure_eq_ok] at hrequest
      obtain ⟨_, _, hnext⟩ := hrequest
      subst hnext
      exact StakeMoves.of_same_escrow rfl rfl rfl rfl rfl rfl fun _ => rfl
  | bridge =>
    simp only [systemStep, bind_eq_ok, revertIf_eq_ok, exists_const] at hstep
    obtain ⟨ledger, read, _, hafter⟩ := bridgeCall_effect hstep.2
    subst hafter
    exact StakeMoves.of_same_escrow rfl rfl rfl rfl rfl rfl fun _ => rfl
  | depositStake =>
    obtain ⟨escrow, hescrow, hafter⟩ := stakeCall_effect hstep
    subst hafter
    simp only [Stake.stakeStep, Stake.deposit, bind_eq_ok, revertIf_eq_ok,
      exists_const, checkedAdd_eq_ok, pure_eq_ok] at hescrow
    obtain ⟨_, total, ⟨_, htotal⟩, hnext⟩ := hescrow
    subst hnext
    exact ⟨htotal.symm, (append_nil _).symm, fun _ => rfl⟩
  | withdrawStake =>
    obtain ⟨escrow, hescrow, hafter⟩ := stakeCall_effect hstep
    subst hafter
    obtain ⟨_, _, hle, _, hsend⟩ := withdraw_eq_ok_iff.mp hescrow
    simp only [Stake.sendValue, bind_eq_ok, revertIf_eq_ok, exists_const, pure_eq_ok] at hsend
    obtain ⟨_, hnext⟩ := hsend
    subst hnext
    refine ⟨?_, rfl, fun _ => rfl⟩
    simp only [stakeWithdrawn, paidToChallenger, stakeBurned, stakeDeposited]
    omega
  | slashStake =>
    simp only [systemStep, bind_eq_ok, revertIf_eq_ok, exists_const] at hstep
    obtain ⟨escrow, hescrow, hafter⟩ := stakeCall_effect hstep.2
    have hauthorised := (Stake.slash_effect hescrow).authorised
    exact absurd (hauthorised.trans hwired.stake_verifier) hstep.1
  | forceEther =>
    obtain ⟨escrow, hescrow, hafter⟩ := stakeCall_effect hstep
    subst hafter
    cases hescrow
    exact ⟨rfl, (append_nil _).symm, fun _ => rfl⟩
  | activate =>
    simp only [systemStep, bind_eq_ok, mapError_eq_ok, pure_eq_ok] at hstep
    obtain ⟨activation, _, hafter⟩ := hstep
    subst hafter
    exact StakeMoves.of_same_escrow rfl rfl rfl rfl rfl rfl fun _ => rfl

theorem traceTotal_stakeOut (deployment : MigratingDeployment)
    (trace : List (SystemState × SystemCall)) :
    traceTotal (fun state call => stakeWithdrawn state call +
        paidToChallenger deployment state call + stakeBurned deployment state call) trace =
      traceTotal stakeWithdrawn trace + traceTotal (paidToChallenger deployment) trace +
        traceTotal (stakeBurned deployment) trace := by
  simp only [traceTotal, sum_map_add]

theorem stake_accounts (hwired : Wired deployment.base)
    (hrun : Run (systemStep recover deployment) (SystemState.initial blockNumber) trace final) :
    traceTotal stakeDeposited trace =
      traceTotal stakeWithdrawn trace + traceTotal (paidToChallenger deployment) trace +
        traceTotal (stakeBurned deployment) trace +
        final.disputes.escrow.totalStaked := by
  have haccounts := @Run.accounts _ _ _ (systemStep recover deployment)
    (fun state => state.disputes.escrow.totalStaked) stakeDeposited
    (fun state call => stakeWithdrawn state call + paidToChallenger deployment state call +
      stakeBurned deployment state call) _ _ _
    (fun _ _ _ _ hstep => (systemStep_moves hwired hstep).staked) hrun
  have hempty : (SystemState.initial blockNumber).disputes.escrow.totalStaked = 0 := rfl
  rw [traceTotal_stakeOut, hempty] at haccounts
  omega

theorem transfers_total (hwired : Wired deployment.base)
    (hrun : Run (systemStep recover deployment) (SystemState.initial blockNumber) trace final) :
    (final.disputes.escrow.transfers.map Prod.snd).sum =
      traceTotal stakeWithdrawn trace + traceTotal (paidToChallenger deployment) trace +
        traceTotal (stakeBurned deployment) trace := by
  have hcollects := @Run.collects _ _ _ (systemStep recover deployment)
    (fun state => (state.disputes.escrow.transfers.map Prod.snd).sum)
    (fun state call => stakeWithdrawn state call + paidToChallenger deployment state call +
      stakeBurned deployment state call) _ _ _
    (by
      intro before call after _ hstep
      rw [(systemStep_moves hwired hstep).paid, map_append, sum_append, stakePayments_sum]) hrun
  rw [hcollects, traceTotal_stakeOut]
  exact Nat.zero_add _

theorem slashes_counted (hwired : Wired deployment.base) (hrun : Run (systemStep recover deployment)
      (SystemState.initial blockNumber) trace final) (disputeId : UInt64) :
    traceTotal (slashesOf disputeId) trace =
      (final.disputes.escrow.slashedDispute disputeId).toNat := by
  have hcounted := @Run.collects _ _ _ (systemStep recover deployment)
    (fun state => (state.disputes.escrow.slashedDispute disputeId).toNat)
    (slashesOf disputeId) _ _ _
    (fun _ _ _ _ hstep => (systemStep_moves hwired hstep).flagged disputeId) hrun
  rw [hcounted]
  simp [SystemState.initial, Stake.Escrow.initial]

end Accounts

def decided (disputeId : UInt64) (state : SystemState) : Bool :=
  decide ((state.disputes.disputes disputeId).status ≠ .open)

/-- In every run of the wired contracts a dispute leaves the status open at most
once and its record then stays; it becomes upheld exactly in the transaction in
which the stake is slashed once for it and the bridge executes its rollback; a
rejection touches neither contract; no id is slashed twice; and the stake paid
in is what was withdrawn, paid to challengers, burned and is still there, each
transaction making exactly these transfers. -/
theorem dispute_life_cycle {recover : Recover} {deployment : MigratingDeployment} {blockNumber : ℕ}
    {final : SystemState} {trace : List (SystemState × SystemCall)} (hwired : Wired deployment.base)
    (hrun : Run (systemStep recover deployment) (SystemState.initial blockNumber) trace final) :
    (∀ disputeId, traceTotal (changeCount (systemStep recover deployment)
          fun before after => !decided disputeId before && decided disputeId after) trace ≤ 1 ∧
        traceTotal (slashesOf disputeId) trace ≤ 1) ∧
    (∀ before call after, Reachable (systemStep recover deployment)
          (SystemState.initial blockNumber) before →
        systemStep recover deployment before call = .ok after →
        ∀ disputeId,
          ((before.disputes.disputes disputeId).status ≠ .open →
            after.disputes.disputes disputeId = before.disputes.disputes disputeId) ∧
          (((before.disputes.disputes disputeId).status ≠ .upheld ∧
              (after.disputes.disputes disputeId).status = .upheld) ↔
            SlashedFor deployment.base before.disputes after.disputes disputeId ∧
              RolledBackFor deployment.base before.disputes after.disputes disputeId) ∧
          ((before.disputes.disputes disputeId).status ≠ .rejected →
            (after.disputes.disputes disputeId).status = .rejected →
            after.disputes.escrow = before.disputes.escrow ∧
              after.disputes.ledger = before.disputes.ledger)) ∧
    traceTotal stakeDeposited trace =
      traceTotal stakeWithdrawn trace + traceTotal (paidToChallenger deployment) trace +
        traceTotal (stakeBurned deployment) trace + final.disputes.escrow.totalStaked ∧
    (final.disputes.escrow.transfers.map Prod.snd).sum =
      traceTotal stakeWithdrawn trace + traceTotal (paidToChallenger deployment) trace +
        traceTotal (stakeBurned deployment) trace ∧
    (∀ before call after, Reachable (systemStep recover deployment)
          (SystemState.initial blockNumber) before →
        systemStep recover deployment before call = .ok after →
        after.disputes.escrow.transfers =
          before.disputes.escrow.transfers ++ stakePayments deployment before call) := by
  refine ⟨?_, ?_, stake_accounts hwired hrun, transfers_total hwired hrun, ?_⟩
  · intro disputeId
    constructor
    · have hkeep : ∀ before call after, Reachable (systemStep recover deployment)
              (SystemState.initial blockNumber) before →
            systemStep recover deployment before call = .ok after →
            decided disputeId before = true → decided disputeId after = true := by
        intro before call after hreach hstep hdecided
        rw [decided, decide_eq_true_eq] at hdecided ⊢
        rw [(systemStep_effect hwired hstep).decided_kept
          (consistent_of_reachable hwired hreach) hdecided]
        exact hdecided
      have honce := hrun.sets_once hkeep
      have hle := Bool.toNat_le (decided disputeId final)
      omega
    · rw [slashes_counted hwired hrun disputeId]
      exact Bool.toNat_le _
  · intro before call after hreach hstep disputeId
    have heffect := systemStep_effect hwired hstep
    have hconsistent := consistent_of_reachable hwired hreach
    refine ⟨heffect.decided_kept hconsistent, heffect.upheld_iff hconsistent, ?_⟩
    intro hbefore hafter
    have hchanged : (after.disputes.disputes disputeId).status ≠
        (before.disputes.disputes disputeId).status := by
      rw [hafter]
      exact Ne.symm hbefore
    rcases (heffect.status_changed hconsistent hchanged).2 with
      hupheld | hrejected
    · rw [hafter] at hupheld
      cases hupheld.1
    · exact hrejected.2
  · intro before call after _ hstep
    exact (systemStep_moves hwired hstep).paid

def upheldRun : List SystemCall :=
  [.depositStake 0x5E0 101, .dispute (.fileDispute 0xC4A 0 claimDoubleApply []),
    .dispute upheldAfterActivation, .depositStake 0x5E0 40]

theorem upheldRun_balances :
    ∃ trace final, Run (systemStep Bridge.sampleRecover migratingSample)
          (SystemState.initial 100) trace final ∧ (final.disputes.disputes 0).status = .upheld ∧
        final.disputes.escrow.transfers = [(0xC4A, 50), (0xDEAD, 51)] ∧
        final.disputes.escrow.totalStaked = 40 ∧ traceTotal (slashesOf 0) trace ≤ 1 ∧
        traceTotal stakeDeposited trace =
          traceTotal stakeWithdrawn trace + traceTotal (paidToChallenger migratingSample) trace +
            traceTotal (stakeBurned migratingSample) trace + 40 := by
  obtain ⟨trace, final, hrun, hupheld, htransfers, hstaked⟩ := exists_run_of_traceOf
    (systemStep Bridge.sampleRecover migratingSample) (SystemState.initial 100) upheldRun
    (fun _ final => (final.disputes.disputes 0).status = .upheld ∧
      final.disputes.escrow.transfers = [(0xC4A, 50), (0xDEAD, 51)] ∧
      final.disputes.escrow.totalStaked = 40) (by decide +kernel)
  have hcycle := @dispute_life_cycle Bridge.sampleRecover migratingSample 100
    final trace ⟨rfl, rfl, rfl⟩ hrun
  have haccounts := hcycle.2.2.1
  rw [hstaked] at haccounts
  exact ⟨trace, final, hrun, hupheld, htransfers, hstaked, (hcycle.1 0).2, haccounts⟩

end Dispute
end Canon
