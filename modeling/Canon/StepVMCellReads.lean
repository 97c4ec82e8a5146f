import Canon.HashChain
import Canon.StepVMExecution

/-!
# What a step reads and what its commit determines

A step reads a few cells of the bundle and ignores the rest.  Its commit is a hash chain
over these reads.  The witness commit of a cell proof is compared with the pre-state
commit, but nothing relates it to the cell value, so a read can be any number below 2^64.
-/

namespace Canon
namespace StepVM

open List

/-! ## The reads of a step -/

section Reads

variable (actionFields : Bytes)

def balanceRead (cellProofs : List CellProof) (offset : ℕ) : UInt256 × Except StepError ℕ :=
  (widen (decodeUint64BE actionFields offset),
    readBalance cellProofs (decodeUint64BE actionFields 0) (decodeUint64BE actionFields offset))

def recipientRead (proof : CellProof) : UInt256 × Except StepError ℕ :=
  (proof.keyB, decodeNat proof.cellValue)

def recipients (cellProofs : List CellProof) : List CellProof :=
  (cellProofs.take maxRecipientsPerBulkAction).filter
    (isRecipient (decodeUint64BE actionFields 0) (decodeUint64BE actionFields 8))

/-- The cells which a step reads, each with the value found in the bundle. -/
def cellReads (kind : ActionKind) (cellProofs : List CellProof) :
    List (UInt256 × Except StepError ℕ) :=
  match kind with
  | .transfer =>
    [balanceRead actionFields cellProofs 8, balanceRead actionFields cellProofs 16]
  | .mint | .burn | .reward | .deposit | .withdraw =>
    [balanceRead actionFields cellProofs 8]
  | .distributeOthers | .proportionalDilute =>
    (recipients actionFields cellProofs).map recipientRead
  | .freezeResource | .replaceKey | .dispute | .disputeWithdraw | .verdict
  | .rollback | .registerIdentity | .declareLocalPolicy
  | .revokeLocalPolicy | .faultProofChallenge | .faultProofResolution => []

def known (reads : List (UInt256 × ℕ)) : List (UInt256 × Except StepError ℕ) :=
  reads.map fun read => (read.1, .ok read.2)

def Admitted (kind : ActionKind) (reads : List (UInt256 × ℕ)) : Prop :=
  match kind with
  | .transfer =>
    ∃ senderBalance receiverBalance,
      reads = [(widen (decodeUint64BE actionFields 8), senderBalance),
        (widen (decodeUint64BE actionFields 16), receiverBalance)] ∧
      (decodeUint64BE actionFields 24).toNat ≤ senderBalance ∧
      (decodeUint64BE actionFields 8 = decodeUint64BE actionFields 16 →
        receiverBalance = senderBalance)
  | .mint | .reward | .deposit =>
    ∃ balance, reads = [(widen (decodeUint64BE actionFields 8), balance)]
  | .burn | .withdraw =>
    ∃ balance, reads = [(widen (decodeUint64BE actionFields 8), balance)] ∧
      (decodeUint64BE actionFields 16).toNat ≤ balance
  | .distributeOthers | .proportionalDilute =>
    reads.length ≤ maxRecipientsPerBulkAction
  | .freezeResource | .replaceKey | .dispute | .disputeWithdraw | .verdict
  | .rollback | .registerIdentity | .declareLocalPolicy
  | .revokeLocalPolicy | .faultProofChallenge | .faultProofResolution =>
    reads = []

end Reads

/-! ## The commit as a function of the reads -/

section Commit

variable (preStateCommit : Bytes32) (actionFields : Bytes) (signer : UInt64)

def stepPayload (kind : ActionKind) (values : List ℕ) : Bytes :=
  let first := decodeUint64BE actionFields 0
  let second := decodeUint64BE actionFields 8
  let third := decodeUint64BE actionFields 16
  let fourth := decodeUint64BE actionFields 24
  match kind with
  | .transfer =>
    packedUint64 first ++ packedUint64 second ++
      packedUint256 (if second = third then values.getD 0 0
        else values.getD 0 0 - fourth.toNat) ++
      packedUint64 third ++
      packedUint256 (if second = third then values.getD 0 0
        else values.getD 1 0 + fourth.toNat) ++ packedUint64 signer
  | .mint | .reward =>
    packedUint64 first ++ packedUint64 second ++
      packedUint256 (values.getD 0 0 + third.toNat) ++ packedUint64 signer
  | .burn =>
    packedUint64 first ++ packedUint64 second ++
      packedUint256 (values.getD 0 0 - third.toNat) ++ packedUint64 signer
  | .deposit =>
    packedUint64 first ++ packedUint64 second ++ packedUint256 (values.getD 0 0 + third.toNat) ++
      packedUint256 fourth.toNat ++ packedUint64 signer
  | .withdraw =>
    packedUint64 first ++ packedUint64 second ++ packedUint256 (values.getD 0 0 - third.toNat) ++
      (keccak256 (actionFields.drop 24)).toBytes ++ packedUint64 signer
  | .distributeOthers =>
    packedUint64 first ++ packedUint64 second ++ packedUint256 third.toNat ++ packedUint64 signer
  | .proportionalDilute =>
    packedUint64 first ++ packedUint64 second ++
      packedUint256 third.toNat ++ packedUint256 values.sum ++ packedUint64 signer
  | .freezeResource => packedUint64 first ++ packedUint64 signer
  | .replaceKey | .registerIdentity =>
    packedUint64 first ++ (keccak256 (actionFields.drop 8)).toBytes ++ packedUint64 signer
  | .dispute | .disputeWithdraw | .verdict | .rollback
  | .declareLocalPolicy | .revokeLocalPolicy | .faultProofChallenge
  | .faultProofResolution =>
    (keccak256 actionFields).toBytes ++ packedUint64 signer

def stepHeader (kind : ActionKind) (reads : List (UInt256 × ℕ)) : Bytes :=
  preStateCommit.toBytes ++ kind.tag ++ stepPayload actionFields signer kind (reads.map Prod.snd)

def creditedBalance (kind : ActionKind) (values : List ℕ) (value : ℕ) : ℕ :=
  let amount := (decodeUint64BE actionFields 16).toNat
  match kind with
  | .proportionalDilute => value + amount * value / values.sum
  | _ => value + amount

def recipientBlock (kind : ActionKind) (values : List ℕ) (read : UInt256 × ℕ) : Bytes :=
  packedUint256 read.1.toNat ++ packedUint256 (creditedBalance actionFields kind values read.2)

def stepBlocks (kind : ActionKind) (reads : List (UInt256 × ℕ)) : List Bytes :=
  match kind with
  | .distributeOthers | .proportionalDilute =>
    reads.map (recipientBlock actionFields kind (reads.map Prod.snd))
  | _ => []

/-- The step reads these values, and its commit is the chain over them. -/
structure CommitsTo (kind : ActionKind) (cellProofs : List CellProof)
    (commit : Bytes32) (reads : List (UInt256 × ℕ)) : Prop where
  reads_eq : cellReads actionFields kind cellProofs = known reads
  admitted : Admitted actionFields kind reads
  commit_eq : commit.toBytes = HashChain.chain hashBytes
    (stepHeader preStateCommit actionFields signer kind reads) (stepBlocks actionFields kind reads)

/-- No string hashed by the step on the one bundle collides with one hashed on
the other. -/
def CollisionFreeSteps (kind : ActionKind) (cellProofs others : List CellProof) : Prop :=
  ∀ reads otherReads, cellReads actionFields kind cellProofs = known reads →
    cellReads actionFields kind others = known otherReads →
      HashChain.NoCollisionBetween hashBytes
        (HashChain.preimages hashBytes (stepHeader preStateCommit actionFields signer kind reads)
          (stepBlocks actionFields kind reads))
        (HashChain.preimages hashBytes
          (stepHeader preStateCommit actionFields signer kind otherReads)
          (stepBlocks actionFields kind otherReads))

end Commit

/-! ## The read values -/

section Values

variable {actionFields : Bytes} {kind : ActionKind} {value : ℕ} {cellProofs : List CellProof}

theorem known_injective : Function.Injective known := by
  apply map_injective_iff.mpr
  intro read other heq
  simp only [Prod.mk.injEq, Except.ok.injEq] at heq
  exact Prod.ext heq.1 heq.2

theorem decodeNat_lt {data : Bytes} (hdecode : decodeNat data = .ok value) : value < 2 ^ 64 := by
  by_cases hlength : 9 ≤ data.length
  · rw [decodeNat_of_length hlength] at hdecode
    have hlt := leValue_lt ((data.drop 1).take 8)
    rw [length_take, length_drop, min_eq_left (by omega)] at hlt
    exact Except.ok.inj hdecode ▸ hlt
  · unfold decodeNat at hdecode
    split_ifs at hdecode
    · exact Except.ok.inj hdecode ▸ Nat.two_pow_pos 64
    · omega

theorem readBalance_lt {resource actor : UInt64}
    (hread : readBalance cellProofs resource actor = .ok value) : value < 2 ^ 64 := by
  obtain ⟨proof, _, hdecode⟩ := bind_eq_ok.mp hread
  exact decodeNat_lt hdecode

theorem cellReads_lt {reads : List (UInt256 × ℕ)}
    (hreads : cellReads actionFields kind cellProofs = known reads) :
    ∀ read ∈ reads, read.2 < 2 ^ 64 := by
  intro read hread
  have hmem : (read.1, Except.ok read.2) ∈ cellReads actionFields kind cellProofs := by
    rw [hreads]
    exact mem_map.mpr ⟨read, hread, rfl⟩
  have hbalance : ∀ offset, (read.1, Except.ok read.2) =
        balanceRead actionFields cellProofs offset → read.2 < 2 ^ 64 := by
    intro offset heq
    exact readBalance_lt (congrArg Prod.snd heq).symm
  cases kind with
  | transfer =>
    rcases mem_pair.mp hmem with hsender | hreceiver
    · exact hbalance 8 hsender
    · exact hbalance 16 hreceiver
  | mint | burn | reward | deposit | withdraw =>
    exact hbalance 8 (mem_singleton.mp hmem)
  | distributeOthers | proportionalDilute =>
    obtain ⟨proof, _, heq⟩ := mem_map.mp hmem
    exact decodeNat_lt (congrArg Prod.snd heq)
  | freezeResource | replaceKey | dispute | disputeWithdraw | verdict
  | rollback | registerIdentity | declareLocalPolicy | revokeLocalPolicy
  | faultProofChallenge | faultProofResolution => cases hmem

end Values

/-! ## Every accepted step commits to its reads -/

section Factoring

variable {preStateCommit : Bytes32} {actionFields : Bytes} {signer : UInt64}
  {cellProofs : List CellProof} {commit : Bytes32} {kind : ActionKind}

variable {reads : List (UInt256 × ℕ)} {r excluded : UInt64} {proofs : List CellProof}

theorem CommitsTo.of_header (hreads : cellReads actionFields kind cellProofs = known reads)
    (hadmitted : Admitted actionFields kind reads)
    (hblocks : stepBlocks actionFields kind reads = [])
    (hcommit : keccak256 (stepHeader preStateCommit actionFields signer kind reads) = commit) :
    CommitsTo preStateCommit actionFields signer kind cellProofs commit
      reads := by
  refine ⟨hreads, hadmitted, ?_⟩
  rw [hblocks, ← hcommit]
  rfl

theorem creditRecipients_reads {newBalance : ℕ → Except StepError ℕ} {credited : ℕ → ℕ}
    {acc : Bytes32}
    (hcredited : ∀ value result, newBalance value = .ok result → result = credited value)
    (hcall : creditRecipients r excluded newBalance proofs acc = .ok commit) :
    ∃ reads, (proofs.filter (isRecipient r excluded)).map recipientRead = known reads ∧
      commit.toBytes = HashChain.absorb hashBytes acc.toBytes
        (reads.map fun read => packedUint256 read.1.toNat ++ packedUint256 (credited read.2)) := by
  induction proofs generalizing acc with
  | nil =>
    cases hcall
    exact ⟨[], rfl, rfl⟩
  | cons proof _ ih =>
    by_cases hrecipient : isRecipient r excluded proof
    · simp only [creditRecipients, if_pos hrecipient, bind_eq_ok] at hcall
      obtain ⟨value, hvalue, result, hresult, hrest⟩ := hcall
      obtain ⟨reads, hreads, hcommit⟩ := ih hrest
      refine ⟨(proof.keyB, value) :: reads, ?_, ?_⟩
      · rw [filter_cons_of_pos (by simpa using hrecipient), map_cons, hreads, recipientRead, hvalue]
        rfl
      · rw [hcommit, hcredited value result hresult, append_assoc]
        rfl
    · rw [creditRecipients, if_neg hrecipient] at hcall
      obtain ⟨reads, hreads, hcommit⟩ := ih hcall
      refine ⟨reads, ?_, hcommit⟩
      rw [filter_cons_of_neg (by simpa using hrecipient)]
      exact hreads

theorem sumRecipients_reads {total sum : ℕ}
    (hreads : (proofs.filter (isRecipient r excluded)).map recipientRead = known reads)
    (hcall : sumRecipients r excluded proofs total = .ok sum) :
    sum = total + (reads.map Prod.snd).sum := by
  induction proofs generalizing total reads with
  | nil =>
    cases hcall
    have hnil : reads = [] := map_eq_nil_iff.mp hreads.symm
    rw [hnil]
    rfl
  | cons proof _ ih =>
    by_cases hrecipient : isRecipient r excluded proof
    · rw [filter_cons_of_pos (by simpa using hrecipient), map_cons] at hreads
      simp only [sumRecipients, if_pos hrecipient, bind_eq_ok, checkedAdd_eq_ok] at hcall
      obtain ⟨value, hvalue, running, ⟨_, hrunning⟩, hrest⟩ := hcall
      cases reads with
      | nil => cases hreads
      | cons read =>
        obtain ⟨hread, hothers⟩ := List.cons.inj hreads
        have hsame : value = read.2 := by
          have hsnd := congrArg Prod.snd hread
          simp only [recipientRead, hvalue, Except.ok.injEq] at hsnd
          exact hsnd
        rw [ih hothers hrest, ← hrunning, hsame, map_cons, sum_cons, Nat.add_assoc]
    · rw [filter_cons_of_neg (by simpa using hrecipient)] at hreads
      rw [sumRecipients, if_neg hrecipient] at hcall
      exact ih hreads hcall

theorem dilutedBalance_value {totalReward sumOthers value result : ℕ}
    (hcall : dilutedBalance totalReward sumOthers value = .ok result) :
    result = value + totalReward * value / sumOthers := by
  unfold dilutedBalance at hcall
  by_cases hzero : sumOthers = 0
  · simp only [if_pos hzero, bind_eq_ok, pure_eq_ok, checkedAdd_eq_ok] at hcall
    obtain ⟨credit, hcredit, _, hresult⟩ := hcall
    rw [← hresult, ← hcredit, hzero, Nat.div_zero]
  · simp only [if_neg hzero, bind_eq_ok, pure_eq_ok, checkedAdd_eq_ok, checkedMul_eq_ok] at hcall
    obtain ⟨product, ⟨_, hproduct⟩, credit, hcredit, _, hresult⟩ := hcall
    rw [← hresult, ← hcredit, hproduct]

theorem recipients_length :
    (recipients actionFields cellProofs).length ≤
      maxRecipientsPerBulkAction := by
  exact (length_filter_le _ _).trans (length_take_le _ _)

theorem known_length : (known reads).length = reads.length := length_map _

theorem bulk_admitted
    (hreads : (recipients actionFields cellProofs).map recipientRead = known reads) :
    reads.length ≤ maxRecipientsPerBulkAction := by
  have hlength := congrArg List.length hreads
  rw [length_map, known_length] at hlength
  rw [← hlength]
  exact recipients_length

theorem stepTransfer_commits
    (hstep : stepTransfer preStateCommit actionFields signer cellProofs = .ok commit) :
    ∃ reads, CommitsTo preStateCommit actionFields signer .transfer cellProofs commit reads := by
  by_cases hself : decodeUint64BE actionFields 8 = decodeUint64BE actionFields 16
  · simp only [stepTransfer, hself, if_true, bind_eq_ok, revertIf_eq_ok,
      exists_const, pure_eq_ok, Nat.not_lt] at hstep
    obtain ⟨_, _, balance, hread, hle, _, rfl, hcommit⟩ := hstep
    refine ⟨[(widen (decodeUint64BE actionFields 8), balance),
      (widen (decodeUint64BE actionFields 16), balance)], .of_header ?_
      ⟨balance, balance, rfl, hle, fun _ => rfl⟩ rfl ?_⟩
    · simp only [cellReads, balanceRead, hself, hread]
      rfl
    · simpa [stepHeader, stepPayload, hself] using hcommit
  · simp only [stepTransfer, hself, if_false, bind_eq_ok, revertIf_eq_ok,
      exists_const, pure_eq_ok, Nat.not_lt, checkedAdd_eq_ok] at hstep
    obtain ⟨_, _, senderBalance, hsender, hle, receiverBalance, hreceiver,
      _, ⟨_, rfl⟩, hcommit⟩ := hstep
    refine ⟨[(widen (decodeUint64BE actionFields 8), senderBalance),
      (widen (decodeUint64BE actionFields 16), receiverBalance)],
      .of_header ?_ ⟨senderBalance, receiverBalance, rfl, hle, fun h => absurd h hself⟩ rfl ?_⟩
    · simp only [cellReads, balanceRead, hsender, hreceiver]
      rfl
    · simpa [stepHeader, stepPayload, hself] using hcommit

theorem creditStep_commits (hkind : kind = .mint ∨ kind = .reward)
    (hstep : creditStep preStateCommit actionFields signer cellProofs kind = .ok commit) :
    ∃ reads, CommitsTo preStateCommit actionFields signer kind cellProofs commit reads := by
  simp only [creditStep, bind_eq_ok, revertIf_eq_ok, exists_const,
    pure_eq_ok, checkedAdd_eq_ok] at hstep
  obtain ⟨_, _, balance, hread, _, ⟨_, rfl⟩, hcommit⟩ := hstep
  rcases hkind with rfl | rfl <;>
  · refine ⟨[(widen (decodeUint64BE actionFields 8), balance)], .of_header ?_ ⟨balance, rfl⟩ rfl ?_⟩
    · simp [cellReads, balanceRead, hread, known]
    · simpa [stepHeader, stepPayload] using hcommit

theorem stepBurn_commits
    (hstep : stepBurn preStateCommit actionFields signer cellProofs = .ok commit) :
    ∃ reads, CommitsTo preStateCommit actionFields signer .burn cellProofs commit reads := by
  simp only [stepBurn, bind_eq_ok, revertIf_eq_ok, exists_const, pure_eq_ok, Nat.not_lt] at hstep
  obtain ⟨_, _, balance, hread, hle, hcommit⟩ := hstep
  refine ⟨[(widen (decodeUint64BE actionFields 8), balance)],
    .of_header ?_ ⟨balance, rfl, hle⟩ rfl ?_⟩
  · simp [cellReads, balanceRead, hread, known]
  · simpa [stepHeader, stepPayload] using hcommit

theorem stepDeposit_commits
    (hstep : stepDeposit preStateCommit actionFields signer cellProofs = .ok commit) :
    ∃ reads, CommitsTo preStateCommit actionFields signer .deposit cellProofs commit reads := by
  simp only [stepDeposit, bind_eq_ok, revertIf_eq_ok, exists_const,
    pure_eq_ok, checkedAdd_eq_ok] at hstep
  obtain ⟨_, balance, hread, _, ⟨_, rfl⟩, hcommit⟩ := hstep
  refine ⟨[(widen (decodeUint64BE actionFields 8), balance)], .of_header ?_ ⟨balance, rfl⟩ rfl ?_⟩
  · simp [cellReads, balanceRead, hread, known]
  · simpa [stepHeader, stepPayload] using hcommit

theorem stepWithdraw_commits
    (hstep : stepWithdraw preStateCommit actionFields signer cellProofs = .ok commit) :
    ∃ reads, CommitsTo preStateCommit actionFields signer .withdraw cellProofs commit reads := by
  simp only [stepWithdraw, bind_eq_ok, revertIf_eq_ok, exists_const,
    pure_eq_ok, Nat.not_lt] at hstep
  obtain ⟨_, balance, hread, hle, hcommit⟩ := hstep
  refine ⟨[(widen (decodeUint64BE actionFields 8), balance)],
    .of_header ?_ ⟨balance, rfl, hle⟩ rfl ?_⟩
  · simp [cellReads, balanceRead, hread, known]
  · simpa [stepHeader, stepPayload] using hcommit

theorem stepDistributeOthers_commits
    (hstep : stepDistributeOthers preStateCommit actionFields signer cellProofs = .ok commit) :
    ∃ reads, CommitsTo preStateCommit actionFields signer .distributeOthers
      cellProofs commit reads := by
  simp only [stepDistributeOthers, bind_eq_ok, revertIf_eq_ok, exists_const] at hstep
  obtain ⟨_, _, hcall⟩ := hstep
  obtain ⟨reads, hreads, hcommit⟩ := creditRecipients_reads
    (fun value result hadd => (checkedAdd_eq_ok.mp hadd).2.symm) hcall
  refine ⟨reads, hreads, bulk_admitted hreads, ?_⟩
  rw [hcommit]
  simp only [HashChain.chain, stepHeader, stepPayload, append_assoc]
  rfl

theorem stepProportionalDilute_commits
    (hstep : stepProportionalDilute preStateCommit actionFields signer cellProofs = .ok commit) :
    ∃ reads, CommitsTo preStateCommit actionFields signer
      .proportionalDilute cellProofs commit reads := by
  simp only [stepProportionalDilute, bind_eq_ok, revertIf_eq_ok, exists_const] at hstep
  obtain ⟨_, _, sumOthers, hsum, _, hcall⟩ := hstep
  obtain ⟨reads, hreads, hcommit⟩ := creditRecipients_reads
    (fun value result hdiluted => dilutedBalance_value hdiluted) hcall
  have hvalues := sumRecipients_reads hreads hsum
  rw [Nat.zero_add] at hvalues
  refine ⟨reads, hreads, bulk_admitted hreads, ?_⟩
  rw [hcommit, hvalues]
  simp only [HashChain.chain, stepHeader, stepPayload, append_assoc]
  rfl

theorem stepFreezeResource_commits
    (hstep : stepFreezeResource preStateCommit actionFields signer = .ok commit) :
    ∃ reads, CommitsTo preStateCommit actionFields signer .freezeResource
      cellProofs commit reads := by
  simp only [stepFreezeResource, bind_eq_ok, revertIf_eq_ok, exists_const, pure_eq_ok] at hstep
  refine ⟨[], .of_header rfl rfl rfl ?_⟩
  simpa [stepHeader, stepPayload] using hstep.2

theorem keyStep_commits (hkind : kind = .replaceKey ∨ kind = .registerIdentity)
    (hstep : keyStep preStateCommit actionFields signer kind = .ok commit) :
    ∃ reads, CommitsTo preStateCommit actionFields signer kind cellProofs commit reads := by
  simp only [keyStep, bind_eq_ok, revertIf_eq_ok, exists_const, pure_eq_ok] at hstep
  rcases hkind with rfl | rfl <;>
  · refine ⟨[], .of_header rfl rfl rfl ?_⟩
    simpa [stepHeader, stepPayload] using hstep.2

def ActionKind.records : ActionKind → Bool
  | .dispute | .disputeWithdraw | .verdict | .rollback
  | .declareLocalPolicy | .revokeLocalPolicy | .faultProofChallenge
  | .faultProofResolution => true
  | _ => false

theorem recordStep_commits (hkind : kind.records = true)
    (hstep : recordStep preStateCommit actionFields signer kind = .ok commit) :
    ∃ reads, CommitsTo preStateCommit actionFields signer kind cellProofs commit reads := by
  have hcommit := Except.ok.inj hstep
  cases kind with
  | dispute | disputeWithdraw | verdict | rollback | declareLocalPolicy
  | revokeLocalPolicy | faultProofChallenge | faultProofResolution =>
    refine ⟨[], .of_header rfl rfl rfl ?_⟩
    simpa [stepHeader, stepPayload] using hcommit
  | _ => cases hkind

theorem stepOf_commits
    (hstep : stepOf preStateCommit actionFields signer cellProofs kind = .ok commit) :
    ∃ reads, CommitsTo preStateCommit actionFields signer kind cellProofs commit reads := by
  cases kind with
  | transfer => exact stepTransfer_commits hstep
  | mint => exact creditStep_commits (.inl rfl) hstep
  | reward => exact creditStep_commits (.inr rfl) hstep
  | burn => exact stepBurn_commits hstep
  | deposit => exact stepDeposit_commits hstep
  | withdraw => exact stepWithdraw_commits hstep
  | distributeOthers => exact stepDistributeOthers_commits hstep
  | proportionalDilute => exact stepProportionalDilute_commits hstep
  | freezeResource => exact stepFreezeResource_commits hstep
  | replaceKey => exact keyStep_commits (.inl rfl) hstep
  | registerIdentity => exact keyStep_commits (.inr rfl) hstep
  | dispute | disputeWithdraw | verdict | rollback | declareLocalPolicy
  | revokeLocalPolicy | faultProofChallenge | faultProofResolution =>
    exact recordStep_commits rfl hstep

end Factoring

/-! ## The commit determines the reads -/

section Determined

variable {preStateCommit : Bytes32} {actionFields : Bytes} {signer : UInt64}
  {kind : ActionKind} {reads others : List (UInt256 × ℕ)}

variable {value other : ℕ} {values : List ℕ}

@[simp] theorem packedUint64_length (value : UInt64) : (packedUint64 value).length = 8 :=
  beBytes_length 8 _

@[simp] theorem packedUint256_length (value : ℕ) : (packedUint256 value).length = 32 :=
  beBytes_length 32 _

@[simp] theorem ActionKind.tag_length (kind : ActionKind) : kind.tag.length = 32 :=
  Bytes32.toBytes_length _

theorem packedUint256_injective_of_lt (hvalue : value < 2 ^ 256) (hother : other < 2 ^ 256)
    (heq : packedUint256 value = packedUint256 other) : value = other := by
  have hpow : 2 ^ 256 = 256 ^ 32 := by norm_num
  exact beBytes_injective_of_lt hvalue hother heq

theorem recipientBlock_length (values : List ℕ) (read : UInt256 × ℕ) :
    (recipientBlock actionFields kind values read).length = 64 := by
  simp [recipientBlock]

theorem stepBlocks_width : ∀ block ∈ stepBlocks actionFields kind reads, block.length = 64 := by
  intro block hblock
  unfold stepBlocks at hblock
  split at hblock
  · obtain ⟨read, _, rfl⟩ := mem_map.mp hblock
    exact recipientBlock_length _ _
  · obtain ⟨read, _, rfl⟩ := mem_map.mp hblock
    exact recipientBlock_length _ _
  · cases hblock

theorem stepHeader_length_ne :
    (stepHeader preStateCommit actionFields signer kind reads).length ≠ 32 + 64 := by
  cases kind <;> simp [stepHeader, stepPayload]

theorem dilution_injective {totalReward sum : ℕ}
    (heq : value + totalReward * value / sum = other + totalReward * other / sum) :
    value = other := by
  have hmono : ∀ low high : ℕ, low < high →
      low + totalReward * low / sum < high + totalReward * high / sum := by
    intro low high hlt
    have hdiv : totalReward * low / sum ≤ totalReward * high / sum :=
      Nat.div_le_div_right (Nat.mul_le_mul_left totalReward hlt.le)
    omega
  rcases Nat.lt_trichotomy value other with hlt | hsame | hgt
  · exact absurd heq (hmono value other hlt).ne
  · exact hsame
  · exact absurd heq (hmono other value hgt).ne'

theorem creditedBalance_injective
    (heq : creditedBalance actionFields kind values value =
      creditedBalance actionFields kind values other) : value = other := by
  simp only [creditedBalance] at heq
  split at heq
  · exact dilution_injective heq
  · exact Nat.add_right_cancel heq

theorem creditedBalance_lt (hvalue : value < 2 ^ 64) :
    creditedBalance actionFields kind values value < 2 ^ 256 := by
  have hamount := (decodeUint64BE actionFields 16).toNat_lt
  have hproduct : (decodeUint64BE actionFields 16).toNat * value < 2 ^ 64 * 2 ^ 64 :=
    Nat.mul_lt_mul'' hamount hvalue
  simp only [creditedBalance]
  split
  · have hcredit := Nat.div_le_self ((decodeUint64BE actionFields 16).toNat * value) values.sum
    omega
  · omega

theorem recipientBlock_injective {read other : UInt256 × ℕ}
    (hread : read.2 < 2 ^ 64) (hother : other.2 < 2 ^ 64)
    (heq : recipientBlock actionFields kind values read =
      recipientBlock actionFields kind values other) : read = other := by
  obtain ⟨hkey, hvalue⟩ := append_inj heq (by simp)
  have hkeys := packedUint256_injective_of_lt read.1.isLt other.1.isLt hkey
  have hvalues := packedUint256_injective_of_lt (creditedBalance_lt hread)
    (creditedBalance_lt hother) hvalue
  exact Prod.ext (BitVec.eq_of_toNat_eq hkeys) (creditedBalance_injective hvalues)

theorem values_sum_lt (hreads : ∀ read ∈ reads, read.2 < 2 ^ 64)
    (hlength : reads.length ≤ maxRecipientsPerBulkAction) : (reads.map Prod.snd).sum < 2 ^ 256 := by
  have hsum := sum_le_card_nsmul (reads.map Prod.snd) (2 ^ 64) (by
    intro value hvalue
    obtain ⟨read, hread, rfl⟩ := mem_map.mp hvalue
    exact (hreads read hread).le)
  rw [length_map, smul_eq_mul] at hsum
  have hbound := Nat.mul_le_mul_right (2 ^ 64) hlength
  have hcap : maxRecipientsPerBulkAction * 2 ^ 64 < 2 ^ 256 := by
    norm_num [maxRecipientsPerBulkAction]
  omega

theorem balance_of_append {rest other : Bytes} {balance otherBalance : ℕ}
    (hbalance : balance < 2 ^ 256) (hother : otherBalance < 2 ^ 256)
    (heq : packedUint256 balance ++ rest = packedUint256 otherBalance ++ other) :
    balance = otherBalance ∧ rest = other := by
  obtain ⟨hbytes, hrest⟩ := append_inj heq (by simp)
  exact ⟨packedUint256_injective_of_lt hbalance hother hbytes, hrest⟩

variable (hreads : ∀ read ∈ reads, read.2 < 2 ^ 64) (hothers : ∀ read ∈ others, read.2 < 2 ^ 64)
include hreads hothers

theorem map_recipientBlock_injective
    (heq : reads.map (recipientBlock actionFields kind values) =
      others.map (recipientBlock actionFields kind values)) : reads = others := by
  induction reads generalizing others with
  | nil => exact (map_eq_nil_iff.mp heq.symm).symm
  | cons read _ ih =>
    cases others with
    | nil => cases heq
    | cons other =>
      obtain ⟨hhead, htail⟩ := List.cons.inj heq
      have hsame := recipientBlock_injective (hreads read (by simp)) (hothers other (by simp)) hhead
      have hrest := ih (fun entry hentry => hreads entry (by simp [hentry]))
        (fun entry hentry => hothers entry (by simp [hentry])) htail
      rw [hsame, hrest]

theorem transfer_reads_determined (hadmitted : Admitted actionFields .transfer reads)
    (hotherAdmitted : Admitted actionFields .transfer others)
    (hpayload : stepPayload actionFields signer .transfer (reads.map Prod.snd) =
      stepPayload actionFields signer .transfer (others.map Prod.snd)) : reads = others := by
  obtain ⟨balance, receiverBalance, rfl, hle, hself⟩ := hadmitted
  obtain ⟨other, receiverOther, rfl, hleOther, hselfOther⟩ := hotherAdmitted
  have hbalance : balance < 2 ^ 64 := hreads _ mem_cons_self
  have hreceiver : receiverBalance < 2 ^ 64 := hreads _ (mem_cons_of_mem _ mem_cons_self)
  have hother : other < 2 ^ 64 := hothers _ mem_cons_self
  have hreceiverOther : receiverOther < 2 ^ 64 :=
    hothers _ (mem_cons_of_mem _ mem_cons_self)
  have hamount := (decodeUint64BE actionFields 24).toNat_lt
  simp only [stepPayload, map_cons, map_nil, getD_cons_zero,
    getD_cons_succ, append_assoc] at hpayload
  have hrest := append_cancel_left (append_cancel_left hpayload)
  by_cases hsame : decodeUint64BE actionFields 8 = decodeUint64BE actionFields 16
  · rw [if_pos hsame, if_pos hsame, if_pos hsame, if_pos hsame] at hrest
    obtain ⟨hvalue, _⟩ := balance_of_append (by omega) (by omega) hrest
    rw [hself hsame, hselfOther hsame, hvalue]
  · rw [if_neg hsame, if_neg hsame, if_neg hsame, if_neg hsame] at hrest
    obtain ⟨hvalue, htail⟩ := balance_of_append (by omega) (by omega) hrest
    obtain ⟨hcredit, _⟩ := balance_of_append (by omega) (by omega) (append_cancel_left htail)
    have hsender : balance = other := by omega
    have hreceivers : receiverBalance = receiverOther := by omega
    rw [hsender, hreceivers]

theorem credit_reads_determined (hkind : kind = .mint ∨ kind = .reward ∨ kind = .deposit)
    (hadmitted : ∃ balance, reads = [(widen (decodeUint64BE actionFields 8), balance)])
    (hotherAdmitted : ∃ balance, others = [(widen (decodeUint64BE actionFields 8), balance)])
    (hpayload : stepPayload actionFields signer kind (reads.map Prod.snd) =
      stepPayload actionFields signer kind (others.map Prod.snd)) : reads = others := by
  obtain ⟨balance, rfl⟩ := hadmitted
  obtain ⟨other, rfl⟩ := hotherAdmitted
  have hbalance : balance < 2 ^ 64 := hreads _ mem_cons_self
  have hother : other < 2 ^ 64 := hothers _ mem_cons_self
  have hamount := (decodeUint64BE actionFields 16).toNat_lt
  rcases hkind with rfl | rfl | rfl <;>
  · simp only [stepPayload, map_cons, map_nil, getD_cons_zero, append_assoc] at hpayload
    obtain ⟨hvalue, _⟩ := balance_of_append (by omega) (by omega)
      (append_cancel_left (append_cancel_left hpayload))
    rw [Nat.add_right_cancel hvalue]

theorem debit_reads_determined (hkind : kind = .burn ∨ kind = .withdraw)
    (hadmitted : ∃ balance, reads = [(widen (decodeUint64BE actionFields 8), balance)] ∧
        (decodeUint64BE actionFields 16).toNat ≤ balance)
    (hotherAdmitted : ∃ balance, others = [(widen (decodeUint64BE actionFields 8), balance)] ∧
        (decodeUint64BE actionFields 16).toNat ≤ balance)
    (hpayload : stepPayload actionFields signer kind (reads.map Prod.snd) =
      stepPayload actionFields signer kind (others.map Prod.snd)) : reads = others := by
  obtain ⟨balance, rfl, hle⟩ := hadmitted
  obtain ⟨other, rfl, hleOther⟩ := hotherAdmitted
  have hbalance : balance < 2 ^ 64 := hreads _ mem_cons_self
  have hother : other < 2 ^ 64 := hothers _ mem_cons_self
  rcases hkind with rfl | rfl <;>
  · simp only [stepPayload, map_cons, map_nil, getD_cons_zero, append_assoc] at hpayload
    obtain ⟨hvalue, _⟩ := balance_of_append (by omega) (by omega)
      (append_cancel_left (append_cancel_left hpayload))
    have hsame : balance = other := by omega
    rw [hsame]

theorem dilute_reads_determined (hadmitted : Admitted actionFields .proportionalDilute reads)
    (hotherAdmitted : Admitted actionFields .proportionalDilute others)
    (hpayload : stepPayload actionFields signer .proportionalDilute (reads.map Prod.snd) =
      stepPayload actionFields signer .proportionalDilute (others.map Prod.snd))
    (hblocks : stepBlocks actionFields .proportionalDilute reads =
      stepBlocks actionFields .proportionalDilute others) : reads = others := by
  -- The credits depend on the sum of the reads, which the header carries.
  simp only [stepPayload, append_assoc] at hpayload
  obtain ⟨hsum, _⟩ := balance_of_append (values_sum_lt hreads hadmitted)
    (values_sum_lt hothers hotherAdmitted)
    (append_cancel_left (append_cancel_left (append_cancel_left hpayload)))
  have hsame : recipientBlock actionFields .proportionalDilute (reads.map Prod.snd) =
      recipientBlock actionFields .proportionalDilute (others.map Prod.snd) := by
    funext read
    simp only [recipientBlock, creditedBalance, hsum]
  simp only [stepBlocks, hsame] at hblocks
  exact map_recipientBlock_injective hreads hothers hblocks

theorem reads_determined (hadmitted : Admitted actionFields kind reads)
    (hotherAdmitted : Admitted actionFields kind others)
    (hheader : stepHeader preStateCommit actionFields signer kind reads =
      stepHeader preStateCommit actionFields signer kind others)
    (hblocks : stepBlocks actionFields kind reads = stepBlocks actionFields kind others) :
    reads = others := by
  have hpayload := append_cancel_left hheader
  cases kind with
  | transfer =>
    exact transfer_reads_determined hreads hothers hadmitted hotherAdmitted hpayload
  | mint | reward | deposit =>
    exact credit_reads_determined hreads hothers (by simp) hadmitted hotherAdmitted hpayload
  | burn | withdraw =>
    exact debit_reads_determined hreads hothers (by simp) hadmitted hotherAdmitted hpayload
  | distributeOthers =>
    exact map_recipientBlock_injective hreads hothers hblocks
  | proportionalDilute =>
    exact dilute_reads_determined hreads hothers hadmitted hotherAdmitted hpayload hblocks
  | freezeResource | replaceKey | dispute | disputeWithdraw | verdict
  | rollback | registerIdentity | declareLocalPolicy | revokeLocalPolicy
  | faultProofChallenge | faultProofResolution =>
    exact hadmitted.trans hotherAdmitted.symm

end Determined

/-- Two accepted bundles give the same post-state commit exactly when the step
reads the same cells and values from both. -/
theorem executeStep_commit_eq_iff
    {preStateCommit : Bytes32} {actionKind : UInt8} {kind : ActionKind}
    {actionFields : Bytes} {signer : UInt64}
    {cellProofs others : List CellProof} {commit otherCommit : Bytes32}
    (hkind : toActionKind actionKind = .ok kind)
    (hstep : executeStep preStateCommit actionFields signer cellProofs actionKind = .ok commit)
    (hother : executeStep preStateCommit actionFields signer others actionKind = .ok otherCommit)
    (hfree : CollisionFreeSteps preStateCommit actionFields signer kind cellProofs others) :
    commit = otherCommit ↔
      cellReads actionFields kind cellProofs = cellReads actionFields kind others := by
  simp only [executeStep, bind_eq_ok, revertIf_eq_ok, exists_const, hkind,
    Except.ok.injEq, exists_eq_left'] at hstep hother
  obtain ⟨reads, hreads⟩ := stepOf_commits hstep.2.2
  obtain ⟨otherReads, hotherReads⟩ := stepOf_commits hother.2.2
  constructor
  · intro hcommit
    have hchains := hreads.commit_eq.symm.trans
      ((congrArg Bytes32.toBytes hcommit).trans hotherReads.commit_eq)
    obtain ⟨hheader, hblocks⟩ := HashChain.chain_injective hashBytes_length
      stepHeader_length_ne stepHeader_length_ne stepBlocks_width stepBlocks_width
      (hfree reads otherReads hreads.reads_eq hotherReads.reads_eq) hchains
    have hsame := reads_determined (cellReads_lt hreads.reads_eq)
      (cellReads_lt hotherReads.reads_eq) hreads.admitted hotherReads.admitted hheader hblocks
    rw [hreads.reads_eq, hotherReads.reads_eq, hsame]
  · intro hsame
    rw [hreads.reads_eq, hotherReads.reads_eq] at hsame
    have hreadsEq := known_injective hsame
    apply Bytes32.toBytes_injective
    rw [hreads.commit_eq, hotherReads.commit_eq, hreadsEq]

def CellProof.key (proof : CellProof) : UInt8 × UInt256 × UInt256 :=
  (proof.cellKind, proof.keyA, proof.keyB)

def claimedBalance (value : ℕ) : CellProof :=
  ⟨CellKind.balance.index, 1, 2, 0x1B :: leBytes 8 value, .zero⟩

def mintFields : Bytes := packedUint64 1 ++ packedUint64 2 ++ packedUint64 5

/-- The same mint from the same pre-state commit, once with a claimed balance
of 10 and once with one of 20. -/
theorem executeStep_value_substituted :
    [claimedBalance 10].map CellProof.key = [claimedBalance 20].map CellProof.key ∧
      ∃ commit otherCommit, executeStep .zero mintFields 7 [claimedBalance 10] 1 = .ok commit ∧
        executeStep .zero mintFields 7 [claimedBalance 20] 1 = .ok otherCommit ∧
        commit ≠ otherCommit := by
  refine ⟨rfl, _, _, rfl, rfl, ?_⟩
  decide +kernel

theorem executeStep_commit_unread :
    ∃ commit otherCommit, executeStep .zero mintFields 7 [claimedBalance 10] 1 = .ok commit ∧
      executeStep .zero mintFields 7 [claimedBalance 10, claimedBalance 20] 1 = .ok otherCommit ∧
      commit = otherCommit := by
  have hfree : CollisionFreeSteps .zero mintFields 7 .mint
      [claimedBalance 10] [claimedBalance 10, claimedBalance 20] := by
    intro reads otherReads hreads hotherReads message hmessage other hother _
    have hsame : reads = otherReads := known_injective (hreads.symm.trans hotherReads)
    subst hsame
    simp only [HashChain.preimages, stepBlocks, HashChain.absorbed,
      mem_singleton] at hmessage hother
    rw [hmessage, hother]
  have hstep : executeStep .zero mintFields 7 [claimedBalance 10] 1 = .ok _ := rfl
  have hother : executeStep .zero mintFields 7
      [claimedBalance 10, claimedBalance 20] 1 = .ok _ := rfl
  exact ⟨_, _, hstep, hother, (executeStep_commit_eq_iff rfl hstep hother hfree).mpr rfl⟩

end StepVM
end Canon
