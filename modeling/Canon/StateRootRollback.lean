import Canon.StateRootSubmission

/-!
# The reverted range of the submission contract

A rollback from `fromIdx` lowers the floor to `fromIdx`, but it raises the
ceiling to `fromIdx` only, whatever has been submitted above it; and zero
doubles as the marker of an empty range.
-/

namespace Canon
namespace StateRoots

open Function

/-- The contract as a transition system: any account calls any function. -/
def submissionStep (params : SubmissionParams) (state : Submission)
    (call : CallContext × SubmissionCall) : Except SubmissionError Submission :=
  state.call params call.1 call.2

variable {params : SubmissionParams} {state next final : Submission} {context : CallContext}
  {fromIdx : UInt64} {logIndex : UInt64} {trace : List (Submission × CallContext × SubmissionCall)}

theorem Submission.isStateRootReverted_eq_true (state : Submission) (logIndex : UInt64) :
    state.isStateRootReverted logIndex = true ↔
      state.lowestRevertedLogIndex ≤ logIndex ∧ logIndex ≤ state.highestRevertedLogIndex ∧
        0 < state.lowestRevertedLogIndex := by
  simp [Submission.isStateRootReverted, and_assoc]

theorem submissionStep_range {call : SubmissionCall}
    (hstep : submissionStep params state (context, call) = .ok next) :
    (∃ fromIdx, call = .revertStateRootsFrom fromIdx ∧
      revertStateRootsFrom params context state fromIdx = .ok next) ∨
      ((∀ fromIdx, call ≠ .revertStateRootsFrom fromIdx) ∧ state.SameRange next) := by
  cases call with
  | submitStateRoot =>
    have heffect := submitStateRoot_effect hstep
    exact .inr ⟨by simp, heffect.2.2.2.1⟩
  | finaliseStateRoot =>
    have heffect := finaliseStateRoot_effect hstep
    exact .inr ⟨by simp, heffect.2.2.2.1⟩
  | markDisputed =>
    have heffect := markDisputed_effect hstep
    exact .inr ⟨by simp, heffect.2.2.2.2.1⟩
  | clearDisputed =>
    have heffect := clearDisputed_effect hstep
    exact .inr ⟨by simp, heffect.2.2.1⟩
  | slashSequencerBond =>
    have heffect := slashSequencerBond_effect hstep
    exact .inr ⟨by simp, heffect.2.2.2.1⟩
  | revertStateRootsFrom fromIdx =>
    exact .inl ⟨fromIdx, rfl, hstep⟩

/-! ## One rollback -/

/-- No submitted root lies above both the rollback's index and the ceiling
that is already in place. -/
def Submission.NothingAbove (state : Submission) (fromIdx : UInt64) : Prop :=
  ∀ logIndex, state.IsSubmitted logIndex →
    logIndex ≤ fromIdx ∨ logIndex ≤ state.highestRevertedLogIndex

section

variable (hcall : revertStateRootsFrom params context state fromIdx = .ok next)
include hcall

theorem revertStateRootsFrom_floor (hpos : 0 < fromIdx) :
    0 < next.lowestRevertedLogIndex ∧ next.lowestRevertedLogIndex ≤ fromIdx := by
  obtain ⟨_, _, hlow, _⟩ := revertStateRootsFrom_effect hcall
  rw [hlow]
  by_cases hlower : state.lowestRevertedLogIndex = 0 ∨ fromIdx < state.lowestRevertedLogIndex
  · rw [if_pos hlower]
    exact ⟨hpos, UInt64.le_refl _⟩
  · rw [if_neg hlower]
    grind

theorem revertStateRootsFrom_ceiling (logIndex : UInt64) :
    logIndex ≤ next.highestRevertedLogIndex ↔
      logIndex ≤ fromIdx ∨ logIndex ≤ state.highestRevertedLogIndex := by
  obtain ⟨_, _, _, hhigh⟩ := revertStateRootsFrom_effect hcall
  rw [hhigh]
  by_cases hraise : state.highestRevertedLogIndex < fromIdx
  · rw [if_pos hraise]
    grind
  · rw [if_neg hraise]
    grind

theorem revertStateRootsFrom_reverts_iff (hpos : 0 < fromIdx) :
    (∀ logIndex, fromIdx ≤ logIndex → state.IsSubmitted logIndex →
        next.isStateRootReverted logIndex = true) ↔
      state.NothingAbove fromIdx := by
  obtain ⟨hfloorPos, hfloor⟩ := revertStateRootsFrom_floor hcall hpos
  constructor
  · intro hsuffix logIndex hsubmitted
    by_cases hlogIndex : fromIdx ≤ logIndex
    · have hreverted := hsuffix logIndex hlogIndex hsubmitted
      rw [Submission.isStateRootReverted_eq_true] at hreverted
      exact (revertStateRootsFrom_ceiling hcall logIndex).mp hreverted.2.1
    · left
      grind
  · intro habove logIndex hlogIndex hsubmitted
    rw [Submission.isStateRootReverted_eq_true]
    refine ⟨UInt64.le_trans hfloor hlogIndex, ?_, hfloorPos⟩
    exact (revertStateRootsFrom_ceiling hcall logIndex).mpr (habove logIndex hsubmitted)

end

/-! ## Whole runs -/

theorem isStateRootReverted_of_no_zero {later : List (Submission × CallContext × SubmissionCall)}
    (hrun : Run (submissionStep params) state later final)
    (hreverted : state.isStateRootReverted logIndex = true)
    (hzero : ∀ before context, (before, context, .revertStateRootsFrom 0) ∉ later) :
    final.isStateRootReverted logIndex = true := by
  induction hrun with
  | nil => exact hreverted
  | @snoc trace before after call hprefix hlast ih =>
    obtain ⟨context, call⟩ := call
    have hbefore : before.isStateRootReverted logIndex = true := by
      apply ih
      intro earlier earlierContext hmem
      exact hzero earlier earlierContext (List.mem_append_left _ hmem)
    rw [Submission.isStateRootReverted_eq_true] at hbefore ⊢
    rcases submissionStep_range hlast with ⟨fromIdx, hcall, hrevert⟩ | hsame
    · subst hcall
      have hpos : 0 < fromIdx := by
        grind
      obtain ⟨hfloorPos, _⟩ := revertStateRootsFrom_floor hrevert hpos
      obtain ⟨_, _, hlow, _⟩ := revertStateRootsFrom_effect hrevert
      refine ⟨?_, ?_, hfloorPos⟩
      · rw [hlow]
        split <;> grind
      · exact (revertStateRootsFrom_ceiling hrevert logIndex).mpr (.inr hbefore.2.1)
    · obtain ⟨_, hlow, hhigh⟩ := hsame
      rw [hlow, hhigh]
      exact hbefore

theorem floor_was_passed (hrun : Run (submissionStep params) .initial trace final) :
    final.lowestRevertedLogIndex = 0 ∨
      ∃ before context, (before, context, SubmissionCall.revertStateRootsFrom
          final.lowestRevertedLogIndex) ∈ trace := by
  induction hrun with
  | nil => exact .inl rfl
  | @snoc trace before after call hprefix hlast ih =>
    obtain ⟨context, call⟩ := call
    have hkeep :
        after.lowestRevertedLogIndex = before.lowestRevertedLogIndex →
          after.lowestRevertedLogIndex = 0 ∨
            ∃ earlier earlierContext, (earlier, earlierContext, SubmissionCall.revertStateRootsFrom
                after.lowestRevertedLogIndex) ∈ trace ++ [(before, context, call)] := by
      intro hsame
      rw [hsame]
      rcases ih with hzero | ⟨earlier, earlierContext, hmem⟩
      · exact .inl hzero
      · exact .inr ⟨earlier, earlierContext, List.mem_append_left _ hmem⟩
    rcases submissionStep_range hlast with ⟨fromIdx, hcall, hrevert⟩ | hsame
    · subst hcall
      obtain ⟨_, _, hlow, _⟩ := revertStateRootsFrom_effect hrevert
      by_cases hlower : before.lowestRevertedLogIndex = 0 ∨ fromIdx < before.lowestRevertedLogIndex
      · rw [if_pos hlower] at hlow
        rw [hlow]
        exact .inr ⟨before, context, by simp⟩
      · rw [if_neg hlower] at hlow
        exact hkeep hlow
    · exact hkeep hsame.2.1

theorem not_reverted_below (hrun : Run (submissionStep params) .initial trace final)
    (hbelow : ∀ before context fromIdx,
      (before, context, SubmissionCall.revertStateRootsFrom fromIdx) ∈ trace → logIndex < fromIdx) :
    final.isStateRootReverted logIndex = false := by
  rw [← Bool.not_eq_true, Submission.isStateRootReverted_eq_true]
  rintro ⟨hlow, _, hpos⟩
  rcases floor_was_passed hrun with hzero | ⟨before, context, hmem⟩
  · grind
  · have hlt := hbelow before context _ hmem
    grind

/-- A rollback from a positive index reaches every submitted root above it
exactly when nothing is submitted above both the index and the old ceiling;
then these roots stay reverted through every run without a rollback from index
zero.  Roots below every index ever rolled back are never reported. -/
theorem revertStateRootsFrom_suffix_iff
    (params : SubmissionParams) {before after final : Submission}
    {context : CallContext} {fromIdx : UInt64}
    {later : List (Submission × CallContext × SubmissionCall)} (hpos : 0 < fromIdx)
    (hcall : submissionStep params before (context, .revertStateRootsFrom fromIdx) = .ok after)
    (hlater : Run (submissionStep params) after later final)
    (hzero : ∀ state caller, (state, caller, SubmissionCall.revertStateRootsFrom 0) ∉ later) :
    ((∀ logIndex, fromIdx ≤ logIndex → before.IsSubmitted logIndex →
        after.isStateRootReverted logIndex = true ∧ final.isStateRootReverted logIndex = true) ↔
      before.NothingAbove fromIdx) ∧
    (∀ earlier, Run (submissionStep params) .initial earlier before →
      ∀ logIndex,
        (∀ state caller passed, (state, caller, SubmissionCall.revertStateRootsFrom passed) ∈
            earlier ++ (before, context, .revertStateRootsFrom fromIdx) :: later →
            logIndex < passed) → final.isStateRootReverted logIndex = false) := by
  have hiff := revertStateRootsFrom_reverts_iff hcall hpos
  refine ⟨⟨?_, ?_⟩, ?_⟩
  · intro hsuffix
    apply hiff.mp
    intro logIndex hlogIndex hsubmitted
    exact (hsuffix logIndex hlogIndex hsubmitted).1
  · intro habove logIndex hlogIndex hsubmitted
    have hafter := hiff.mpr habove logIndex hlogIndex hsubmitted
    exact ⟨hafter, isStateRootReverted_of_no_zero hlater hafter hzero⟩
  · intro earlier hearlier logIndex hbelow
    have hwhole := hearlier.append (Run.cons hcall hlater)
    exact not_reverted_below hwhole hbelow

/-! ## A short history in which the suffix is missed -/

def sampleSubmissionParams : SubmissionParams where
  submissionBond := 1000
  faultProofDisputeWindow := 50
  minSubmissionIntervalBlocks := 10
  maxOutstandingRootsPerSequencer := 8
  sequencer := 0x5E9
  faultProofGame := 0x6A3E
  deploymentId := .zero
  submissionBond_lt := by decide
  sequencer_ne_zero := by decide
  faultProofGame_ne_zero := by decide
  submissionBond_ne_zero := by decide
  disputeWindow_ne_zero := by decide
  minSubmissionInterval_ne_zero := by decide
  maxOutstandingRoots_ne_zero := by decide

/-- The hash that the root after one with the given fields has to name. -/
def chainHash (prevLogEntryHash stateCommit : Bytes32) : Bytes32 :=
  keccak256 (prevLogEntryHash.toBytes ++ stateCommit.toBytes)

def threeSubmissions : List (CallContext × SubmissionCall) :=
  let firstHash := chainHash .zero .zero
  let secondHash := chainHash firstHash .zero
  [(⟨0x5E9, 1000, 100, false⟩, .submitStateRoot 0 .zero .zero),
    (⟨0x5E9, 1000, 110, false⟩, .submitStateRoot 1 .zero firstHash),
    (⟨0x5E9, 1000, 120, false⟩, .submitStateRoot 2 .zero secondHash)]

/-- The game rolls back from index 1 after root 2 has been submitted, and
root 2 is not reported as reverted. -/
theorem revertStateRootsFrom_misses_suffix :
    ∃ before after, Reachable (submissionStep sampleSubmissionParams) .initial before ∧
        submissionStep sampleSubmissionParams before
          (⟨0x6A3E, 0, 130, false⟩, .revertStateRootsFrom 1) = .ok after ∧
        before.IsSubmitted 2 ∧ after.isStateRootReverted 2 = false :=
  exists_call_of_traceOf _ _ threeSubmissions _ _ (by decide +kernel)

def twoRoots : Submission where
  roots := update (update (fun _ => .unset) 0
      ⟨0x5E9, .zero, .zero, chainHash .zero .zero, 1000, 100, false, false⟩) 1
    ⟨0x5E9, .zero, chainHash .zero .zero,
      chainHash (chainHash .zero .zero) .zero, 1000, 110, false, false⟩
  lastSubmissionBlock := update (fun _ => 0) 0x5E9 110
  outstandingRootsCount := update (fun _ => 0) 0x5E9 2
  lowestRevertedLogIndex := 0
  highestRevertedLogIndex := 0
  balance := 2000

theorem twoRoots_nothingAbove_one : twoRoots.NothingAbove 1 := by
  intro logIndex hsubmitted
  by_cases hone : logIndex = 1
  · exact .inl (by simp [hone])
  · by_cases hzero : logIndex = 0
    · exact .inl (by simp [hzero])
    · simp [Submission.IsSubmitted, twoRoots, hone, hzero, SubmittedRoot.unset] at hsubmitted

theorem revertStateRootsFrom_suffix_of_twoRoots :
    ∃ after, submissionStep sampleSubmissionParams twoRoots
          (⟨0x6A3E, 0, 130, false⟩, .revertStateRootsFrom 1) = .ok after ∧
        twoRoots.IsSubmitted 1 ∧ after.isStateRootReverted 1 = true := by
  have hsubmitted : twoRoots.IsSubmitted 1 := by decide
  refine ⟨{ twoRoots with
    lowestRevertedLogIndex := 1, highestRevertedLogIndex := 1 }, rfl, hsubmitted, ?_⟩
  have hiff := (@revertStateRootsFrom_suffix_iff sampleSubmissionParams
    twoRoots _ _ ⟨0x6A3E, 0, 130, false⟩ 1 [] (by decide) rfl .nil (by simp)).1
  exact (hiff.mpr twoRoots_nothingAbove_one 1 (UInt64.le_refl 1) hsubmitted).1

end StateRoots
end Canon
