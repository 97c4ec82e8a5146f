import Canon.BridgeRollback
import Canon.DisputeVerifier

/-!
# Evidence of a replay

A replay is a pair of log positions with the same signer and nonce.  The
ledger side looks the two entries up in the log.  The contract is given two byte
strings and a secondary index, compares the strings, and compares the indices, but
nothing ties a string to an index.
-/

namespace Canon
namespace Dispute

open Cbe

/-! ## The log side -/

section Logs

variable {log : List LogEntry}

def ReplayFree (log : List LogEntry) : Prop := ∀ (first second : ℕ) (entry other : LogEntry),
    log[first]? = some entry → log[second]? = some other →
    entry.signer = other.signer → entry.nonce = other.nonce →
      first = second

end Logs

/-! ## The evidence format -/

/-- The shape of the evidence: the secondary index and an array of two
strings. -/
def encodeDoubleApply (secondaryLogIndex : UInt64) (impugnedBytes secondaryBytes : Bytes) : Bytes :=
  encodeUint secondaryLogIndex ++ (encodeHead tagArray 2 ++
    (encodeBytes impugnedBytes ++ encodeBytes secondaryBytes))

theorem readSignerNonce_encode (entry : LogEntry) :
    readSignerNonce entry.encode = .ok (entry.signer, entry.nonce) := by
  have hblob : entry.encode.drop 0 = encodeBytes32 entry.prevHash ++
      (encodeBytes32 entry.actionHash ++ (encodeUint entry.signer ++
        (encodeUint entry.nonce ++ encodeBytes entry.sig))) := rfl
  obtain ⟨hprev, hrest⟩ := carries_of_drop (encodeBytes32_length _) hblob
  obtain ⟨haction, hrest⟩ := carries_of_drop (encodeBytes32_length _) hrest
  obtain ⟨hsigner, hrest⟩ := carries_of_drop (encodeUint_length _) hrest
  obtain ⟨hnonce, _⟩ := carries_of_drop (encodeUint_length _) hrest
  simp only [readSignerNonce, bind_eq_ok, Prod.exists, readUint_eq_ok,
    readBytes32Exact_eq_ok, pure_eq_ok]
  exact ⟨entry.prevHash, _, ⟨hprev, rfl⟩, entry.actionHash, _,
    ⟨haction, rfl⟩, entry.signer, _, ⟨hsigner, rfl⟩, entry.nonce, _, ⟨hnonce, rfl⟩, rfl⟩

/-! ## The contract's verdict on genuine entries -/

section Verdicts

variable {recover : Recover} {deployment : Deployment}
  {identities : Identities} {dispute : DisputeRecord} {blob : Bytes}
  {signerHint : Address} {secondaryLogIndex : UInt64} {entry other : LogEntry} {log : List LogEntry}
  {impugnedBytes secondaryBytes : Bytes}

theorem runClaimVerifier_doubleApply (hclaim : dispute.claimVariant = claimDoubleApply)
    (hblob : readDoubleApplyConcat blob = .ok (secondaryLogIndex, impugnedBytes, secondaryBytes)) :
    runClaimVerifier recover deployment identities dispute blob signerHint =
      checkDoubleApply dispute.impugnedLogIndex secondaryLogIndex impugnedBytes secondaryBytes := by
  rw [runClaimVerifier, if_neg (by rw [hclaim]; decide),
    if_neg (by rw [hclaim]; decide), if_pos hclaim]
  simp only [runDoubleApplyFromConcat, hblob, ok_bind]

theorem checkDoubleApply_of_self (logIndex : UInt64) :
    checkDoubleApply logIndex logIndex impugnedBytes secondaryBytes = .error .selfClaimInvalid := by
  rw [checkDoubleApply, revertIf_of_pos rfl]
  rfl

theorem checkDoubleApply_of_entries {impugnedLogIndex : UInt64}
    (hne : impugnedLogIndex ≠ secondaryLogIndex) :
    checkDoubleApply impugnedLogIndex secondaryLogIndex entry.encode other.encode =
      .ok (if entry.signer = other.signer ∧ entry.nonce = other.nonce then
        .upheld else .rejected) := by
  simp only [checkDoubleApply, revertIf_of_not hne, readSignerNonce_encode,
    Except.mapError, ok_bind]
  split <;> rfl

theorem replayFree_not_upheld_iff {first second : ℕ} (hfree : ReplayFree log)
    (hentry : log[first]? = some entry) (hother : log[second]? = some other)
    (hclaim : dispute.claimVariant = claimDoubleApply)
    (hblob : readDoubleApplyConcat blob = .ok (secondaryLogIndex, entry.encode, other.encode)) :
    runClaimVerifier recover deployment identities dispute blob signerHint ≠ .ok .upheld ↔
      first ≠ second ∨ dispute.impugnedLogIndex = secondaryLogIndex := by
  rw [runClaimVerifier_doubleApply hclaim hblob]
  by_cases hself : dispute.impugnedLogIndex = secondaryLogIndex
  · rw [hself, checkDoubleApply_of_self]
    simp
  · rw [checkDoubleApply_of_entries hself]
    by_cases hsame : first = second
    · have hentries : entry = other := by
        rw [hsame, hother] at hentry
        exact (Option.some.inj hentry).symm
      simp [hentries, hsame, hself]
    · have hdistinct : ¬ (entry.signer = other.signer ∧ entry.nonce = other.nonce) := by
        rintro ⟨hsigner, hnonce⟩
        exact hsame (hfree first second entry other hentry hother hsigner hnonce)
      simp [hdistinct, hsame]

end Verdicts

/-- For a replay-free log and evidence made of its entries: the claim is not
upheld exactly when the two strings are entries at different positions, or the
secondary index is the impugned one; and then no finalisation slashes. -/
theorem replayFree_conviction_iff
    {recover : Recover} {deployment : Deployment} {identities : Identities}
    {log : List LogEntry} {first second : ℕ} {entry other : LogEntry}
    {dispute : DisputeRecord} {blob : Bytes} {signerHint : Address} {secondaryLogIndex : UInt64}
    (hfree : ReplayFree log)
    (hentry : log[first]? = some entry) (hother : log[second]? = some other)
    (hclaim : dispute.claimVariant = claimDoubleApply)
    (hblob : readDoubleApplyConcat blob = .ok (secondaryLogIndex, entry.encode, other.encode)) :
    (runClaimVerifier recover deployment identities dispute blob signerHint ≠ .ok .upheld ↔
      first ≠ second ∨ dispute.impugnedLogIndex = secondaryLogIndex) ∧
    (first ≠ second ∨ dispute.impugnedLogIndex = secondaryLogIndex →
      ∀ (state next : State) (disputeId : UInt64) (signers : List Address)
          (sigs : List Bytes) (challengerAccepts burnAccepts : Bool),
        state.disputes disputeId = dispute →
        finalizeUpheld recover deployment identities state disputeId blob
          signerHint signers sigs challengerAccepts burnAccepts ≠ .ok next) := by
  have hiff := @replayFree_not_upheld_iff recover deployment identities
    dispute blob signerHint secondaryLogIndex entry other log first second
    hfree hentry hother hclaim hblob
  refine ⟨hiff, ?_⟩
  intro hcondition state next disputeId signers sigs challengerAccepts burnAccepts hdispute hcall
  have hevidence := (finalizeUpheld_effect hcall).evidence
  rw [hdispute] at hevidence
  exact hiff.mpr hcondition hevidence

/-! ## A conviction of an honest log -/

def sampleStake : Stake.StakeParams where
  sequencer := 0x5E0
  disputeVerifier := Bridge.sampleBridge.disputeVerifier
  bridge := Bridge.sampleBridge.self
  burnAddress := 0xDEAD
  slashRatioBps := 5000
  disputeWindowBlocks := 50
  self := Bridge.sampleBridge.sequencerStake
  ratio_le := by decide
  sequencer_ne_zero := by decide
  disputeVerifier_ne_zero := Bridge.sampleBridge.disputeVerifier_ne_zero
  bridge_ne_zero := by decide
  burnAddress_ne_zero := by decide

def sampleVerifier : VerifierParams where
  canonVersionTag := .zero
  bridge := Bridge.sampleBridge.self
  sequencerStake := Bridge.sampleBridge.sequencerStake
  identityRegistry := 0x1DE
  migration := 0
  quorumThreshold := 1
  approvedAdjudicators := [0xAD1]
  chainId := 1
  self := Bridge.sampleBridge.disputeVerifier
  bridge_ne_zero := sampleStake.bridge_ne_zero
  sequencerStake_ne_zero := Bridge.sampleBridge.sequencerStake_ne_zero
  identityRegistry_ne_zero := by decide
  quorumThreshold_ne_zero := by decide
  quorumThreshold_le := by decide
  adjudicators_ne_zero := List.forall_mem_singleton.mpr (by decide)

def sampleDeployment : Deployment where
  verifier := sampleVerifier
  stake := sampleStake
  bridge := Bridge.sampleBridge
  stake_wired := rfl
  bridge_wired := rfl

def noIdentities : Identities := fun _ => ⟨.unregistered, []⟩

def stakedState : State where
  disputes := fun _ => .unset
  nextDisputeId := 0
  escrow := ⟨100, fun _ => false, 100, []⟩
  ledger := .initial 100

def disputedState : State :=
  { stakedState with
    disputes := Function.update (fun _ => .unset) 0 ⟨0, 0xC4A, claimDoubleApply, .open, 100⟩
    nextDisputeId := 1 }

def sampleEntry (nonce : UInt64) : LogEntry := ⟨.zero, .zero, 7, nonce, List.replicate 65 0⟩

def adjudicatorSignature : Bytes := beBytes 20 0xAD1 ++ List.replicate 45 0

/-- A log of a single entry: its repetition as entries 0 and 1 is upheld, and
the stake is slashed. -/
theorem singleEntry_convicted :
    ∃ evidence, ReplayFree [sampleEntry 0] ∧
      readDoubleApplyConcat evidence = .ok (1, (sampleEntry 0).encode, (sampleEntry 0).encode) ∧
      fileDispute 0xC4A stakedState 0 claimDoubleApply [] = .ok (0, disputedState) ∧
      runClaimVerifier Bridge.sampleRecover sampleDeployment noIdentities
        (disputedState.disputes 0) evidence 0 = .ok .upheld ∧
      ∃ next, finalizeUpheld Bridge.sampleRecover sampleDeployment noIdentities
          disputedState 0 evidence 0 [0xAD1] [adjudicatorSignature] true true = .ok next ∧
        disputedState.escrow.totalStaked = 100 ∧
        next.escrow.totalStaked = 0 := by
  have hpasses : callPasses (fun state blob => finalizeUpheld Bridge.sampleRecover sampleDeployment
        noIdentities state 0 blob 0 [0xAD1] [adjudicatorSignature] true true)
      (encodeDoubleApply 1 (sampleEntry 0).encode (sampleEntry 0).encode)
      (fun _ next => next.escrow.totalStaked = 0) disputedState = true := by
    decide +kernel
  obtain ⟨next, hcall, hslashed⟩ := callPasses_eq_true.mp hpasses
  refine ⟨_, ?_, by decide +kernel, rfl, (finalizeUpheld_effect hcall).evidence, next, hcall, rfl,
    of_decide_eq_true hslashed⟩
  intro first second entry other hfirst hsecond _ _
  have hzero : ∀ (position : ℕ) (found : LogEntry),
      [sampleEntry 0][position]? = some found → position = 0 := by
    intro position found hfound
    have hbound := (List.getElem?_eq_some_iff.mp hfound).1
    simpa using hbound
  rw [hzero first entry hfirst, hzero second other hsecond]

theorem twoEntries_replayFree : ReplayFree [sampleEntry 0, sampleEntry 1] := by
  intro first second entry other hfirst hsecond _ hnonce
  match first, second with
  | 0, 0 => rfl
  | 1, 1 => rfl
  | 0, 1 =>
    cases hfirst
    cases hsecond
    cases hnonce
  | 1, 0 =>
    cases hfirst
    cases hsecond
    cases hnonce
  | position + 2, _ => cases hfirst
  | 0, position + 2 => cases hsecond
  | 1, position + 2 => cases hsecond

theorem twoEntries_not_convicted :
    runClaimVerifier Bridge.sampleRecover sampleDeployment noIdentities (disputedState.disputes 0)
        (encodeDoubleApply 1 (sampleEntry 0).encode (sampleEntry 1).encode) 0 ≠ .ok .upheld ∧
      ∀ next, finalizeUpheld Bridge.sampleRecover sampleDeployment noIdentities disputedState 0
        (encodeDoubleApply 1 (sampleEntry 0).encode (sampleEntry 1).encode) 0
        [0xAD1] [adjudicatorSignature] true true ≠ .ok next := by
  have hconviction := @replayFree_conviction_iff Bridge.sampleRecover
    sampleDeployment noIdentities [sampleEntry 0, sampleEntry 1] 0 1
    (sampleEntry 0) (sampleEntry 1) (disputedState.disputes 0)
    (encodeDoubleApply 1 (sampleEntry 0).encode (sampleEntry 1).encode) 0 1
    twoEntries_replayFree rfl rfl rfl (by decide +kernel)
  refine ⟨hconviction.1.mpr (.inl (by decide)), ?_⟩
  intro next
  exact hconviction.2 (.inl (by decide)) disputedState next 0 _ _ _ _ rfl

end Dispute
end Canon
