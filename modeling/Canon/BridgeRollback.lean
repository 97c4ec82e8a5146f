import Canon.BridgeLedger

/-!
# The reverted range of the bridge over whole runs

The bridge keeps one floor and one ceiling for all rollbacks.  The floor only
falls, to the smallest index ever disputed, and the ceiling only rises, to the
latest root at the time of a rollback.
-/

namespace Canon
namespace Bridge

open List

section Ranges

variable {recover : Recover} {params : BridgeParams} {ledger next final : Ledger}
  {test : Ledger → UInt64 → Bool} {blockNumber : ℕ} {trace : List (Ledger × BridgeCall)}

def rollsBack (test : Ledger → UInt64 → Bool) : Ledger × BridgeCall → Bool
  | (ledger, .revertToPriorRoot _ _ disputed) => test ledger disputed
  | _ => false

@[simp] theorem rollsBack_revertToPriorRoot
    (test : Ledger → UInt64 → Bool) (ledger : Ledger) (sender : Address)
    (value : ℕ) (disputed : UInt64) :
    rollsBack test (ledger, .revertToPriorRoot sender value disputed) = test ledger disputed := rfl

theorem rollsBack_of_other {call : BridgeCall}
    (hother : ∀ sender value disputed, call ≠ .revertToPriorRoot sender value disputed) :
    rollsBack test (ledger, call) = false := by
  cases call with
  | revertToPriorRoot sender value disputed =>
    exact absurd rfl (hother sender value disputed)
  | _ => rfl

theorem rolledBack_range {sender : Address} {value : ℕ} {disputed logIndex : UInt64}
    (hcall : revertToPriorRoot params sender ledger value disputed = .ok next) :
    (next.lowestRevertedLogIndexHigh ≤ logIndex ↔
        disputed ≤ logIndex ∨ ledger.lowestRevertedLogIndexHigh ≤ logIndex) ∧
      (logIndex ≤ next.revertedThroughLogIndexHigh ↔
        logIndex ≤ ledger.latestSubmittedLogIndexHigh ∨
          logIndex ≤ ledger.revertedThroughLogIndexHigh) := by
  obtain ⟨_, hnext⟩ := revertToPriorRoot_effect hcall
  subst hnext
  constructor
  all_goals
    split <;> grind

theorem bridgeStep_range {call : BridgeCall}
    (hstep : bridgeStep recover params ledger call = .ok next) :
    (∃ sender value disputed, call = .revertToPriorRoot sender value disputed ∧
          revertToPriorRoot params sender ledger value disputed = .ok next) ∨
      (next.lowestRevertedLogIndexHigh = ledger.lowestRevertedLogIndexHigh ∧
        next.revertedThroughLogIndexHigh = ledger.revertedThroughLogIndexHigh ∧
        ∀ test, rollsBack test (ledger, call) = false) := by
  rcases bridgeStep_cases hstep with
    ⟨_, _, _, hnext, hother⟩ | hrollback | ⟨hsame, _, hother⟩
  · subst hnext
    exact .inr ⟨rfl, rfl, fun _ => rollsBack_of_other hother⟩
  · exact .inl hrollback
  · exact .inr ⟨hsame.floor, hsame.ceiling, fun _ => rollsBack_of_other hother⟩

theorem Ledger.isStateRootReverted_eq_true {logIndex : UInt64} :
    ledger.isStateRootReverted logIndex = true ↔
      ledger.lowestRevertedLogIndexHigh ≤ logIndex ∧
        logIndex ≤ ledger.revertedThroughLogIndexHigh := by
  simp [Ledger.isStateRootReverted]

end Ranges

def sampleBridge : BridgeParams where
  canonVersionTag := .zero
  attestor := 0xA77
  disputeVerifier := 0xD15
  sequencerStake := 0x57A
  migration := 0
  disputeWindowBlocks := 50
  maxRedemptionWindowBlocks := 40
  maxAttestationStaleBlocks := 1000
  cooldownBlocks := 10
  tvlCap := 1000000
  resources := [(1, 0x70C)]
  chainId := 1
  self := 0xB1D
  redemption_le_dispute := by decide
  attestor_ne_zero := by decide
  disputeVerifier_ne_zero := by decide
  sequencerStake_ne_zero := by decide
  resourcesValid := ⟨by simp [resourceIdNativeEth], by simp, by simp, by simp⟩

def sampleRecover : Recover := fun _ signature =>
  if signature.length = 65 then
    some (BitVec.ofNat 160 (beValue (signature.take 20)))
  else none

def attested (logIndexHigh : UInt64) : BridgeCall := .submitStateRoot 0 false .zero logIndexHigh
    (beBytes 20 0xA77 ++ List.replicate 45 0)

/-- Root 1 is rolled back; roots 2 and 3 follow, and root 3 is rolled back. -/
def twoRollbacks : List BridgeCall :=
  [attested 1, .revertToPriorRoot 0xD15 0 1, .mine 20, attested 2,
    attested 3, .revertToPriorRoot 0xD15 0 3]

section Finality

variable {recover : Recover} {params : BridgeParams} {ledger next final : Ledger}

def RecordedBelowLatest (ledger : Ledger) : Prop :=
  ∀ logIndex, (ledger.stateRoots logIndex).exists = true →
    logIndex ≤ ledger.latestSubmittedLogIndexHigh

variable {logIndex : UInt64} {trace : List (Ledger × BridgeCall)}

theorem RecordedBelowLatest.step {call : BridgeCall}
    (hstep : bridgeStep recover params ledger call = .ok next)
    (hinv : RecordedBelowLatest ledger) : RecordedBelowLatest next := by
  intro logIndex hexists
  rcases bridgeStep_cases hstep with
    ⟨fresh, root, hfresh, hnext, _⟩ |
    ⟨sender, value, disputed, _, hrollback⟩ | ⟨hsame, _, _⟩
  · subst hnext
    by_cases hindex : logIndex = fresh
    · rw [hindex]
      exact UInt64.le_refl _
    · simp only [Function.update_of_ne hindex] at hexists
      have hle := hinv logIndex hexists
      grind
  · obtain ⟨_, hnext⟩ := revertToPriorRoot_effect hrollback
    subst hnext
    exact hinv logIndex hexists
  · rw [hsame.stateRoots] at hexists
    rw [hsame.latest]
    exact hinv logIndex hexists

theorem RecordedBelowLatest.of_reachable {blockNumber : ℕ}
    (hreach : Reachable (bridgeStep recover params) (Ledger.initial blockNumber) ledger) :
    RecordedBelowLatest ledger := by
  refine hreach.invariant (fun _ _ _ hstep hinv => hinv.step hstep) ?_
  intro logIndex hexists
  simp [Ledger.initial, StateRootRecord.unset] at hexists

theorem bridgeStep_record {call : BridgeCall}
    (hstep : bridgeStep recover params ledger call = .ok next) (hinv : RecordedBelowLatest ledger)
    (hexists : (ledger.stateRoots logIndex).exists = true) :
    next.stateRoots logIndex = ledger.stateRoots logIndex ∧
      ledger.blockNumber ≤ next.blockNumber := by
  rcases bridgeStep_cases hstep with
    ⟨fresh, root, hfresh, hnext, _⟩ |
    ⟨sender, value, disputed, _, hrollback⟩ | ⟨hsame, hblock, _⟩
  · subst hnext
    have hindex : logIndex ≠ fresh := by
      intro heq
      have hle := hinv logIndex hexists
      rw [heq] at hle
      exact absurd hfresh (UInt64.not_lt.mpr hle)
    exact ⟨Function.update_of_ne hindex _ _, le_rfl⟩
  · obtain ⟨_, hnext⟩ := revertToPriorRoot_effect hrollback
    subst hnext
    exact ⟨rfl, le_rfl⟩
  · exact ⟨by rw [hsame.stateRoots], hblock⟩

theorem run_record
    (hrun : Run (bridgeStep recover params) ledger trace final) (hinv : RecordedBelowLatest ledger)
    (hexists : (ledger.stateRoots logIndex).exists = true) :
    RecordedBelowLatest final ∧ final.stateRoots logIndex = ledger.stateRoots logIndex ∧
      ledger.blockNumber ≤ final.blockNumber := by
  induction hrun with
  | nil => exact ⟨hinv, rfl, le_rfl⟩
  | snoc _ hlast ih =>
    obtain ⟨hbefore, hrecord, hblock⟩ := ih
    obtain ⟨hkept, hlater⟩ := bridgeStep_record hlast hbefore (by rw [hrecord]; exact hexists)
    exact ⟨hbefore.step hlast, hkept.trans hrecord, hblock.trans hlater⟩

def reaches (logIndex : UInt64) : Ledger × BridgeCall → Bool := rollsBack fun ledger disputed =>
    decide (disputed ≤ logIndex ∨ ledger.lowestRevertedLogIndexHigh ≤ logIndex)

theorem reverted_iff_reached
    (hrun : Run (bridgeStep recover params) ledger trace final) (hinv : RecordedBelowLatest ledger)
    (hexists : (ledger.stateRoots logIndex).exists = true)
    (hclear : ledger.isStateRootReverted logIndex = false) :
    final.isStateRootReverted logIndex = true ↔ ∃ step ∈ trace, reaches logIndex step = true := by
  induction hrun with
  | nil => simp [hclear]
  | @snoc trace before after call hprefix hlast ih =>
    simp only [mem_append, mem_singleton, or_and_right, exists_or, exists_eq_left]
    rcases bridgeStep_range hlast with
      ⟨sender, value, disputed, hcall, hrollback⟩ |
      ⟨hfloor, hceiling, hother⟩
    · obtain ⟨hbefore, hrecord, _⟩ := run_record hprefix hinv hexists
      have hlatest : logIndex ≤ before.latestSubmittedLogIndexHigh :=
        hbefore logIndex (by rw [hrecord]; exact hexists)
      obtain ⟨hlow, hhigh⟩ := @rolledBack_range params before after sender
        value disputed logIndex hrollback
      rw [Ledger.isStateRootReverted_eq_true] at ih
      rw [Ledger.isStateRootReverted_eq_true, hlow, hhigh, hcall]
      simp only [reaches, rollsBack_revertToPriorRoot, decide_eq_true_eq] at ih ⊢
      constructor
      · rintro ⟨hreached, _⟩
        exact .inr hreached
      · rintro (hearlier | hreached)
        · exact ⟨.inr (ih.mpr hearlier).1, .inl hlatest⟩
        · exact ⟨hreached, .inl hlatest⟩
    · have hsame : after.isStateRootReverted logIndex = before.isStateRootReverted logIndex := by
        simp [Ledger.isStateRootReverted, hfloor, hceiling]
      rw [hsame, ih]
      simp [reaches, hother]

theorem isStateRootFinalised_eq_true :
    ledger.isStateRootFinalised params logIndex = true ↔
      (ledger.stateRoots logIndex).exists = true ∧ ledger.isStateRootReverted logIndex = false ∧
        (ledger.stateRoots logIndex).submittedAtBlock.toNat +
          params.disputeWindowBlocks.toNat ≤ ledger.blockNumber := by
  unfold Ledger.isStateRootFinalised
  cases hexists : (ledger.stateRoots logIndex).exists with
  | false => simp [hexists]
  | true =>
    cases hreverted : ledger.isStateRootReverted logIndex <;>
      simp [hexists]

theorem finalised_iff_not_reached
    (hrun : Run (bridgeStep recover params) ledger trace final) (hinv : RecordedBelowLatest ledger)
    (hfinalised : ledger.isStateRootFinalised params logIndex = true) :
    final.isStateRootFinalised params logIndex = true ↔
      ∀ step ∈ trace, reaches logIndex step = false := by
  obtain ⟨hexists, hclear, hwindow⟩ := isStateRootFinalised_eq_true.mp hfinalised
  obtain ⟨_, hrecord, hblock⟩ := run_record hrun hinv hexists
  have hreached := reverted_iff_reached hrun hinv hexists hclear
  rw [isStateRootFinalised_eq_true, hrecord]
  constructor
  · rintro ⟨_, hnot, _⟩ step hmem
    by_contra hstep
    have hreverted := hreached.mpr ⟨step, hmem, by simpa using hstep⟩
    rw [hnot] at hreverted
    cases hreverted
  · intro hnone
    refine ⟨hexists, ?_, hwindow.trans hblock⟩
    by_contra hreverted
    obtain ⟨step, hmem, hstep⟩ := hreached.mp (by simpa using hreverted)
    rw [hnone step hmem] at hstep
    cases hstep

end Finality

/-- A finalised root is finalised in a later state exactly when no rollback in
between has reached it; and a root against which a withdrawal was paid is
reverted later exactly when a rollback after the payment has reached it. -/
theorem finalised_until_rollback {recover : Recover} {params : BridgeParams} {blockNumber : ℕ}
    {ledger final : Ledger} {trace : List (Ledger × BridgeCall)}
    (hreach : Reachable (bridgeStep recover params) (Ledger.initial blockNumber) ledger)
    (hrun : Run (bridgeStep recover params) ledger trace final) (logIndex : UInt64) :
    (ledger.isStateRootFinalised params logIndex = true →
      (final.isStateRootFinalised params logIndex = true ↔
        ∀ step ∈ trace, reaches logIndex step = false)) ∧
    ∀ before value proofBlob leafBlob accepted,
      (before, BridgeCall.withdrawWithProof value logIndex proofBlob leafBlob accepted) ∈ trace →
      ∃ earlier later, trace = earlier ++ (before, .withdrawWithProof value logIndex
          proofBlob leafBlob accepted) :: later ∧
        (final.isStateRootReverted logIndex = true ↔
          ∃ step ∈ later, reaches logIndex step = true) := by
  constructor
  · intro hfinalised
    exact finalised_iff_not_reached hrun (RecordedBelowLatest.of_reachable hreach) hfinalised
  · intro before value proofBlob leafBlob accepted hmem
    obtain ⟨earlier, later, after, htrace, hearlier, hcall, hlater⟩ := hrun.split hmem
    refine ⟨earlier, later, htrace, ?_⟩
    have hbefore := hearlier.reachable hreach
    have hwithdrawn := withdrawWithProof_effect hcall
    have hsame := hwithdrawn.sameRoots
    obtain ⟨hexists, hclear, _⟩ := isStateRootFinalised_eq_true.mp hwithdrawn.finalised
    apply reverted_iff_reached hlater
    · exact RecordedBelowLatest.of_reachable (hbefore.tail hcall)
    · rw [hsame.stateRoots]
      exact hexists
    · simp only [Ledger.isStateRootReverted, hsame.floor, hsame.ceiling]
      exact hclear

/-- Root 1 is finalised after its window, and rolled back later. -/
theorem finalised_root_rolled_back :
    ∃ before after : Ledger, Reachable (bridgeStep sampleRecover sampleBridge) (Ledger.initial 100)
          before ∧
        bridgeStep sampleRecover sampleBridge before (.revertToPriorRoot 0xD15 0 1) = .ok after ∧
        before.isStateRootFinalised sampleBridge 1 = true ∧
        after.isStateRootFinalised sampleBridge 1 = false :=
  exists_call_of_traceOf _ _ [attested 1, .mine 60] _ _ (by decide +kernel)

theorem finalised_root_not_reached :
    ∃ ledger final : Ledger, ledger.isStateRootFinalised sampleBridge 1 = true ∧
        final.isStateRootFinalised sampleBridge 1 = true ∧ final.isStateRootReverted 2 = true := by
  obtain ⟨trace, ledger, hfirst, hfinalised, hlater⟩ := exists_run_of_traceOf
    (bridgeStep sampleRecover sampleBridge) (Ledger.initial 100) [attested 1, .mine 60]
    (fun _ ledger => ledger.isStateRootFinalised sampleBridge 1 = true ∧
      (traceOf (bridgeStep sampleRecover sampleBridge) ledger
        [attested 2, .revertToPriorRoot 0xD15 0 2]).any (fun later =>
          (∀ step ∈ later.1, reaches 1 step = false) ∧ later.2.isStateRootReverted 2 = true) = true)
    (by decide +kernel)
  obtain ⟨later, final, hrun, hkept, hreverted⟩ := exists_run_of_traceOf _ ledger _
    (fun trace final => (∀ step ∈ trace, reaches 1 step = false) ∧
      final.isStateRootReverted 2 = true) hlater
  exact ⟨ledger, final, hfinalised,
    ((finalised_until_rollback ⟨trace, hfirst⟩ hrun 1).1 hfinalised).mpr hkept, hreverted⟩

/-! ## Attested roots -/

section Attested

variable {recover : Recover} {params : BridgeParams} {blockNumber : ℕ} {final : Ledger}
  {trace : List (Ledger × BridgeCall)}

/-- The submission with which the attestor has signed the recorded root. -/
def Attests (recover : Recover) (params : BridgeParams) (logIndex : UInt64)
    (record : StateRootRecord) : Ledger × BridgeCall → Prop
  | (ledger, .submitStateRoot _ _ root logIndexHigh attestorSig) =>
    logIndexHigh = logIndex ∧
      record = ⟨root, logIndexHigh, UInt64.ofNat ledger.blockNumber, true⟩ ∧
      recover (stateRootDigest params root logIndexHigh) attestorSig = some params.attestor
  | _ => False

theorem submitStateRoot_signed {ledger next : Ledger} {migrationActivated : Bool} {value : ℕ}
    {root : Bytes32} {logIndexHigh : UInt64} {attestorSig : Bytes}
    (hcall : submitStateRoot recover params migrationActivated ledger value
      root logIndexHigh attestorSig = .ok next) :
    recover (stateRootDigest params root logIndexHigh) attestorSig = some params.attestor := by
  simp only [submitStateRoot, bind_eq_ok, revertIf_eq_ok, exists_const] at hcall
  obtain ⟨_, _, _, _, _, hrecover⟩ := hcall
  split at hrecover
  · cases hrecover
  · next hsigner =>
    simp only [bind_eq_ok, revertIf_eq_ok, exists_const, ne_eq, not_not] at hrecover
    rw [hsigner, hrecover.1]

theorem attests_of_run {logIndex : UInt64}
    (hrun : Run (bridgeStep recover params) (Ledger.initial blockNumber) trace final)
    (hexists : (final.stateRoots logIndex).exists = true) :
    ∃ entry ∈ trace, Attests recover params logIndex (final.stateRoots logIndex) entry := by
  induction hrun with
  | nil => cases hexists
  | @snoc trace before after call hearlier hlast ih =>
    have hold : after.stateRoots logIndex = before.stateRoots logIndex →
        ∃ entry ∈ trace ++ [(before, call)],
          Attests recover params logIndex (after.stateRoots logIndex) entry := by
      intro hkept
      rw [hkept] at hexists ⊢
      obtain ⟨entry, hmem, hattests⟩ := ih hexists
      exact ⟨entry, mem_append_left _ hmem, hattests⟩
    cases call with
    | mine =>
      cases hlast
      exact hold rfl
    | depositETH => exact hold (by rw [(depositETH_effect hlast).1.stateRoots])
    | depositERC20 => exact hold (by rw [(depositERC20_effect hlast).1.stateRoots])
    | withdrawWithProof =>
      exact hold (by rw [(withdrawWithProof_effect hlast).sameRoots.stateRoots])
    | revertToPriorRoot => exact hold (by rw [(revertToPriorRoot_effect hlast).2])
    | submitStateRoot _ _ root logIndexHigh =>
      have hnext := (submitStateRoot_effect hlast).2
      by_cases hindex : logIndex = logIndexHigh
      · subst hindex
        refine ⟨_, mem_append_right _ (mem_singleton_self _), rfl, ?_, submitStateRoot_signed hlast⟩
        simp [hnext]
      · exact hold (by simp [hnext, hindex])

/-- Every recorded root was signed by the attestor for its index.  Every withdrawal is
against such a root, submitted at least the dispute window before. -/
theorem withdrawals_against_attested_roots
    (hrun : Run (bridgeStep recover params) (Ledger.initial blockNumber) trace final) :
    (∀ logIndex, (final.stateRoots logIndex).exists = true →
      ∃ entry ∈ trace, Attests recover params logIndex (final.stateRoots logIndex) entry) ∧
    ∀ before value logIndex proofBlob leafBlob accepted,
      (before, .withdrawWithProof value logIndex proofBlob leafBlob accepted) ∈ trace →
      ∃ earlier later, trace = earlier ++ (before, .withdrawWithProof value logIndex proofBlob
          leafBlob accepted) :: later ∧
        before.isStateRootReverted logIndex = false ∧
        ∃ entry ∈ earlier, Attests recover params logIndex (before.stateRoots logIndex) entry ∧
          (UInt64.ofNat entry.1.blockNumber).toNat + params.disputeWindowBlocks.toNat ≤
            before.blockNumber := by
  refine ⟨fun _ hexists => attests_of_run hrun hexists, ?_⟩
  intro before value logIndex proofBlob leafBlob accepted hmem
  obtain ⟨earlier, later, _, htrace, hearlier, hcall, _⟩ := hrun.split hmem
  obtain ⟨hexists, hclear, hwindow⟩ :=
    isStateRootFinalised_eq_true.mp (withdrawWithProof_effect hcall).finalised
  obtain ⟨⟨ledger, call⟩, hentry, hattests⟩ := attests_of_run hearlier hexists
  refine ⟨earlier, later, htrace, hclear, _, hentry, hattests, ?_⟩
  cases call with
  | submitStateRoot => rwa [hattests.2.1] at hwindow
  | _ => cases hattests

end Attested

theorem twoRollbacks_attested :
    ∃ trace final, Run (bridgeStep sampleRecover sampleBridge) (Ledger.initial 100) trace final ∧
      ∃ entry ∈ trace, Attests sampleRecover sampleBridge 2 (final.stateRoots 2) entry := by
  obtain ⟨trace, final, hrun, hexists⟩ := exists_run_of_traceOf
    (bridgeStep sampleRecover sampleBridge) (Ledger.initial 100) twoRollbacks
    (fun _ final => (final.stateRoots 2).exists = true) (by decide +kernel)
  exact ⟨trace, final, hrun, (withdrawals_against_attested_roots hrun).1 2 hexists⟩

end Bridge
end Canon
