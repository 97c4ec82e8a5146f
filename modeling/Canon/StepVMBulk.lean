import Canon.StepVMCellReads

/-!
# Whom a bulk action credits, and with how much

The loops of the two bulk actions stop after `maxRecipientsPerBulkAction` positions,
although a bundle may be longer by 16, and they do not compare the actors.  A dilution
shares the reward in proportion to the balances and rounds each share down.
-/

namespace Canon
namespace StepVM

open List

/-! ## Shares which are rounded down -/

section Shares

variable (total sum : ℕ)

end Shares

section Panics

variable {r excluded : UInt64}

variable {preStateCommit : Bytes32} {actionFields : Bytes} {signer : UInt64}
  {cellProofs : List CellProof}

end Panics

/-! ## What an accepted dilution pays -/

section Dilution

variable {preStateCommit : Bytes32} {actionFields : Bytes} {signer : UInt64}
  {cellProofs : List CellProof} {commit : Bytes32}

end Dilution

def bulkFields : Bytes := packedUint64 1 ++ packedUint64 9 ++ packedUint64 5

section Credited

variable {preStateCommit : Bytes32} {actionFields : Bytes} {signer : UInt64}
  {cellProofs : List CellProof} {commit : Bytes32} {kind : ActionKind}

/-- The bundle has a balance proof for the actor, who is not excluded. -/
def Listed (actionFields : Bytes) (cellProofs : List CellProof) (actor : UInt256) : Prop :=
  ∃ proof ∈ cellProofs, isRecipient (decodeUint64BE actionFields 0)
    (decodeUint64BE actionFields 8) proof ∧ proof.keyB = actor

def CreditsEachOnce (actionFields : Bytes) (cellProofs : List CellProof)
    (reads : List (UInt256 × ℕ)) : Prop := (reads.map Prod.fst).Nodup ∧
    ∀ actor, actor ∈ reads.map Prod.fst ↔ Listed actionFields cellProofs actor

/-- The recipients below the cap are different actors, and a recipient behind it only
repeats one of them. -/
def DistinctBelowCap (actionFields : Bytes) (cellProofs : List CellProof) : Prop :=
  ((recipients actionFields cellProofs).map CellProof.keyB).Nodup ∧
    ∀ actor, Listed actionFields (cellProofs.drop maxRecipientsPerBulkAction) actor →
        Listed actionFields (cellProofs.take maxRecipientsPerBulkAction) actor

theorem mem_recipients_iff {actor : UInt256} :
    actor ∈ (recipients actionFields cellProofs).map CellProof.keyB ↔
      Listed actionFields (cellProofs.take maxRecipientsPerBulkAction) actor := by
  simp only [recipients, mem_map, mem_filter, decide_eq_true_eq, Listed, and_assoc]

theorem listed_iff_take_or_drop {actor : UInt256} :
    Listed actionFields cellProofs actor ↔
      Listed actionFields (cellProofs.take maxRecipientsPerBulkAction) actor ∨
        Listed actionFields (cellProofs.drop maxRecipientsPerBulkAction) actor := by
  have hsplit : ∀ proof, proof ∈ cellProofs ↔
      proof ∈ cellProofs.take maxRecipientsPerBulkAction ∨
        proof ∈ cellProofs.drop maxRecipientsPerBulkAction := by
    intro proof
    rw [← mem_append, take_append_drop]
  simp only [Listed, hsplit, or_and_right, exists_or]

theorem keys_of_reads {reads : List (UInt256 × ℕ)}
    (hbulk : kind = .distributeOthers ∨ kind = .proportionalDilute)
    (hreads : cellReads actionFields kind cellProofs = known reads) :
    reads.map Prod.fst = (recipients actionFields cellProofs).map CellProof.keyB := by
  have hkeys := congrArg (List.map Prod.fst) hreads
  rcases hbulk with rfl | rfl <;>
  · simp only [cellReads, known, map_map] at hkeys
    exact hkeys.symm

theorem creditsEachOnce_iff {reads : List (UInt256 × ℕ)}
    (hkeys : reads.map Prod.fst = (recipients actionFields cellProofs).map CellProof.keyB) :
    CreditsEachOnce actionFields cellProofs reads ↔ DistinctBelowCap actionFields cellProofs := by
  rw [CreditsEachOnce, DistinctBelowCap, hkeys]
  apply and_congr_right
  intro _
  apply forall_congr'
  intro actor
  have hsplit := @listed_iff_take_or_drop actionFields cellProofs actor
  rw [mem_recipients_iff, hsplit]
  tauto

/-- An accepted bulk action credits each listed actor once exactly when the recipients
in the first `maxRecipientsPerBulkAction` positions are different actors and there is
no further one behind these positions. -/
theorem bulk_credits_once_iff {actionKind : UInt8}
    (hbulk : kind = .distributeOthers ∨ kind = .proportionalDilute)
    (hkind : toActionKind actionKind = .ok kind)
    (hstep : executeStep preStateCommit actionFields signer cellProofs actionKind = .ok commit) :
    ∃ reads, CommitsTo preStateCommit actionFields signer kind cellProofs commit reads ∧
      (CreditsEachOnce actionFields cellProofs reads ↔
        DistinctBelowCap actionFields cellProofs) := by
  simp only [executeStep, bind_eq_ok, revertIf_eq_ok, exists_const, hkind, Except.ok.injEq] at hstep
  obtain ⟨_, _, _, rfl, hstep⟩ := hstep
  obtain ⟨reads, hcommits⟩ := stepOf_commits hstep
  exact ⟨reads, hcommits, creditsEachOnce_iff (keys_of_reads hbulk hcommits.reads_eq)⟩

theorem bulk_credits_once_iff_single :
    ∃ commit reads, executeStep .zero bulkFields 7 [claimedBalance 10] 6 = .ok commit ∧
      CommitsTo .zero bulkFields 7 .distributeOthers [claimedBalance 10] commit reads ∧
      CreditsEachOnce bulkFields [claimedBalance 10] reads := by
  have hstep : executeStep .zero bulkFields 7 [claimedBalance 10] 6 = .ok _ := rfl
  obtain ⟨reads, hcommits, hiff⟩ := bulk_credits_once_iff (.inl rfl) rfl hstep
  refine ⟨_, reads, hstep, hcommits, hiff.mpr ⟨by decide +kernel, ?_⟩⟩
  rintro actor ⟨proof, hproof, _⟩
  cases hproof

def cappedBundle : List CellProof :=
  List.replicate maxRecipientsPerBulkAction ⟨CellKind.nonce.index, 1, 0, [], .zero⟩ ++
    [claimedBalance 10]

theorem executeStep_cappedBundle :
    ∃ commit, executeStep .zero bulkFields 7 cappedBundle 6 = .ok commit := by
  have haccepted : (executeStep .zero bulkFields 7 cappedBundle 6).toBool = true := by
    decide +kernel
  cases hstep : executeStep .zero bulkFields 7 cappedBundle 6 with
  | error reason =>
    rw [hstep] at haccepted
    cases haccepted
  | ok commit => exact ⟨commit, rfl⟩

/-- The recipient behind the cap is listed and gets nothing, and a repeated one gets
the amount twice. -/
theorem distributeOthers_miscredits :
    (∃ commit reads, executeStep .zero bulkFields 7 cappedBundle 6 = .ok commit ∧
      CommitsTo .zero bulkFields 7 .distributeOthers cappedBundle commit reads ∧
      Listed bulkFields cappedBundle 2 ∧ 2 ∉ reads.map Prod.fst) ∧
    ∃ commit reads, executeStep .zero bulkFields 7 [claimedBalance 10, claimedBalance 10] 6 =
        .ok commit ∧
      CommitsTo .zero bulkFields 7 .distributeOthers
        [claimedBalance 10, claimedBalance 10] commit reads ∧ ¬(reads.map Prod.fst).Nodup := by
  have hcommits : ∀ {cellProofs : List CellProof} {commit : Bytes32},
      executeStep .zero bulkFields 7 cellProofs 6 = .ok commit →
      ∃ reads, CommitsTo .zero bulkFields 7 .distributeOthers cellProofs commit
        reads := by
    intro cellProofs commit hstep
    simp only [executeStep, bind_eq_ok, revertIf_eq_ok, exists_const] at hstep
    obtain ⟨_, _, kind, hkind, hstep⟩ := hstep
    cases hkind
    exact stepOf_commits hstep
  constructor
  · obtain ⟨commit, hstep⟩ := executeStep_cappedBundle
    obtain ⟨reads, hreads⟩ := hcommits hstep
    refine ⟨commit, reads, hstep, hreads, ⟨claimedBalance 10, ?_, ?_, rfl⟩, ?_⟩
    · exact mem_append_right _ (mem_singleton.mpr rfl)
    · decide +kernel
    · rw [keys_of_reads (.inl rfl) hreads.reads_eq]
      decide +kernel
  · have hstep : executeStep .zero bulkFields 7
        [claimedBalance 10, claimedBalance 10] 6 = .ok _ := rfl
    obtain ⟨reads, hreads⟩ := hcommits hstep
    refine ⟨_, reads, hstep, hreads, ?_⟩
    rw [keys_of_reads (.inl rfl) hreads.reads_eq]
    decide +kernel

end Credited

end StepVM
end Canon
