import Canon.StepVMCellReads

/-!
# A commit determines the step

Every step hashes a header: the pre-state commit, the tag of its variant, and a payload
of packed integers and digests, whose layout depends on the variant.  The bulk actions
go on with a chain over their recipients.  The tag fixes the layout, and no header is as
long as a running hash with its block.
-/

namespace Canon
namespace StepVM

open List

/-! ## What a step does -/

/-- The ids a step names, the new values it writes, the field bytes which it only
hashes, and the recipients of a bulk action with their new balances. -/
structure StepEffect where
  touched : List UInt64
  values : List ℕ
  hashed : Option Bytes
  credited : List (UInt256 × ℕ)
  deriving DecidableEq

section Effects

variable (actionFields : Bytes) (reads : List (UInt256 × ℕ))

def creditedRecipients (kind : ActionKind) : List (UInt256 × ℕ) := reads.map fun read =>
    (read.1, creditedBalance actionFields kind (reads.map Prod.snd) read.2)

def stepEffect (kind : ActionKind) : StepEffect :=
  let first := decodeUint64BE actionFields 0
  let second := decodeUint64BE actionFields 8
  let third := decodeUint64BE actionFields 16
  let fourth := decodeUint64BE actionFields 24
  let values := reads.map Prod.snd
  match kind with
  | .transfer =>
    ⟨[first, second, third],
      [if second = third then values.getD 0 0
        else values.getD 0 0 - fourth.toNat,
      if second = third then values.getD 0 0
        else values.getD 1 0 + fourth.toNat], none, []⟩
  | .mint | .reward =>
    ⟨[first, second], [values.getD 0 0 + third.toNat], none, []⟩
  | .burn => ⟨[first, second], [values.getD 0 0 - third.toNat], none, []⟩
  | .deposit =>
    ⟨[first, second], [values.getD 0 0 + third.toNat, fourth.toNat], none, []⟩
  | .withdraw =>
    ⟨[first, second], [values.getD 0 0 - third.toNat], some (actionFields.drop 24), []⟩
  | .distributeOthers =>
    ⟨[first, second], [third.toNat], none, creditedRecipients actionFields reads kind⟩
  | .proportionalDilute =>
    ⟨[first, second], [third.toNat, values.sum], none, creditedRecipients actionFields reads kind⟩
  | .freezeResource => ⟨[first], [], none, []⟩
  | .replaceKey | .registerIdentity =>
    ⟨[first], [], some (actionFields.drop 8), []⟩
  | .dispute | .disputeWithdraw | .verdict | .rollback
  | .declareLocalPolicy | .revokeLocalPolicy | .faultProofChallenge
  | .faultProofResolution => ⟨[], [], some actionFields, []⟩

end Effects

/-! ## Payloads -/

section Payloads

variable {rest other : Bytes} {value otherValue : UInt64}

theorem packedUint64_injective (heq : packedUint64 value = packedUint64 otherValue) :
    value = otherValue :=
  UInt64.toNat_inj.mp (beBytes_injective_of_lt value.toNat_lt otherValue.toNat_lt heq)

theorem packedUint64_append :
    packedUint64 value ++ rest = packedUint64 otherValue ++ other ↔
      value = otherValue ∧ rest = other := by
  constructor
  · intro heq
    obtain ⟨hvalue, hrest⟩ := append_inj heq (by simp)
    exact ⟨packedUint64_injective hvalue, hrest⟩
  · rintro ⟨rfl, rfl⟩
    rfl

theorem digest_append {digest otherDigest : Bytes32} :
    digest.toBytes ++ rest = otherDigest.toBytes ++ other ↔
      digest = otherDigest ∧ rest = other := by
  constructor
  · intro heq
    obtain ⟨hdigest, hrest⟩ := append_inj heq (by simp)
    exact ⟨Bytes32.toBytes_injective hdigest, hrest⟩
  · rintro ⟨rfl, rfl⟩
    rfl

theorem getD_lt {values : List ℕ} (hvalues : ∀ value ∈ values, value < 2 ^ 64)
    (i : ℕ) : values.getD i 0 < 2 ^ 64 := by
  rw [getD_eq_getElem?_getD]
  rcases Nat.lt_or_ge i values.length with hlt | hge
  · rw [List.getElem?_eq_getElem hlt]
    exact hvalues _ (getElem_mem hlt)
  · rw [List.getElem?_eq_none hge]
    norm_num

end Payloads

section Determined

variable {actionFields otherFields : Bytes} {signer otherSigner : UInt64}
  {kind : ActionKind} {reads others : List (UInt256 × ℕ)}

theorem effect_of_payload (hreads : ∀ value ∈ reads.map Prod.snd, value < 2 ^ 64)
    (hothers : ∀ value ∈ others.map Prod.snd, value < 2 ^ 64)
    (hsum : (reads.map Prod.snd).sum < 2 ^ 256) (hotherSum : (others.map Prod.snd).sum < 2 ^ 256)
    (hhashed : ∀ message ∈ (stepEffect actionFields reads kind).hashed,
      ∀ other ∈ (stepEffect otherFields others kind).hashed,
        keccak256 message = keccak256 other → message = other)
    (hpayload : stepPayload actionFields signer kind (reads.map Prod.snd) =
      stepPayload otherFields otherSigner kind (others.map Prod.snd)) :
    signer = otherSigner ∧
      (stepEffect actionFields reads kind).touched = (stepEffect otherFields others kind).touched ∧
      (stepEffect actionFields reads kind).values = (stepEffect otherFields others kind).values ∧
      (stepEffect actionFields reads kind).hashed =
        (stepEffect otherFields others kind).hashed := by
  have hfirst := getD_lt hreads 0
  have hsecond := getD_lt hreads 1
  have hotherFirst := getD_lt hothers 0
  have hotherSecond := getD_lt hothers 1
  have hthird := (decodeUint64BE actionFields 16).toNat_lt
  have hfourth := (decodeUint64BE actionFields 24).toNat_lt
  have hotherThird := (decodeUint64BE otherFields 16).toNat_lt
  have hotherFourth := (decodeUint64BE otherFields 24).toNat_lt
  cases kind with
  | transfer =>
    simp only [stepPayload, append_assoc, packedUint64_append] at hpayload
    obtain ⟨hresource, hsender, hpayload⟩ := hpayload
    obtain ⟨hbalance, hpayload⟩ := balance_of_append (by split_ifs <;> omega)
      (by split_ifs <;> omega) hpayload
    obtain ⟨hreceiver, hpayload⟩ := packedUint64_append.mp hpayload
    obtain ⟨hcredit, hsigner⟩ := balance_of_append (by split_ifs <;> omega)
      (by split_ifs <;> omega) hpayload
    refine ⟨packedUint64_injective hsigner, ?_, ?_, rfl⟩
    · simp only [stepEffect, hresource, hsender, hreceiver]
    · simp only [stepEffect]
      rw [hbalance, hcredit]
  | mint | reward | burn =>
    simp only [stepPayload, append_assoc, packedUint64_append] at hpayload
    obtain ⟨hresource, hactor, hpayload⟩ := hpayload
    obtain ⟨hbalance, hsigner⟩ := balance_of_append (by omega) (by omega) hpayload
    refine ⟨packedUint64_injective hsigner, ?_, ?_, rfl⟩
    · simp only [stepEffect, hresource, hactor]
    · simp only [stepEffect, hbalance]
  | deposit =>
    simp only [stepPayload, append_assoc, packedUint64_append] at hpayload
    obtain ⟨hresource, hactor, hpayload⟩ := hpayload
    obtain ⟨hbalance, hpayload⟩ := balance_of_append (by omega) (by omega) hpayload
    obtain ⟨hdeposit, hsigner⟩ := balance_of_append (by omega) (by omega) hpayload
    refine ⟨packedUint64_injective hsigner, ?_, ?_, rfl⟩
    · simp only [stepEffect, hresource, hactor]
    · simp only [stepEffect, hbalance, hdeposit]
  | withdraw =>
    simp only [stepPayload, append_assoc, packedUint64_append] at hpayload
    obtain ⟨hresource, hactor, hpayload⟩ := hpayload
    obtain ⟨hbalance, hpayload⟩ := balance_of_append (by omega) (by omega) hpayload
    obtain ⟨hdigest, hsigner⟩ := digest_append.mp hpayload
    refine ⟨packedUint64_injective hsigner, ?_, ?_, ?_⟩
    · simp only [stepEffect, hresource, hactor]
    · simp only [stepEffect, hbalance]
    · exact congrArg some (hhashed _ rfl _ rfl hdigest)
  | distributeOthers =>
    simp only [stepPayload, append_assoc, packedUint64_append] at hpayload
    obtain ⟨hresource, hexcluded, hpayload⟩ := hpayload
    obtain ⟨hamount, hsigner⟩ := balance_of_append (by omega) (by omega) hpayload
    refine ⟨packedUint64_injective hsigner, ?_, ?_, rfl⟩
    · simp only [stepEffect, hresource, hexcluded]
    · simp only [stepEffect, hamount]
  | proportionalDilute =>
    simp only [stepPayload, append_assoc, packedUint64_append] at hpayload
    obtain ⟨hresource, hexcluded, hpayload⟩ := hpayload
    obtain ⟨hamount, hpayload⟩ := balance_of_append (by omega) (by omega) hpayload
    obtain ⟨hvalues, hsigner⟩ := balance_of_append hsum hotherSum hpayload
    refine ⟨packedUint64_injective hsigner, ?_, ?_, rfl⟩
    · simp only [stepEffect, hresource, hexcluded]
    · simp only [stepEffect, hamount, hvalues]
  | freezeResource =>
    simp only [stepPayload, packedUint64_append] at hpayload
    refine ⟨packedUint64_injective hpayload.2, ?_, rfl, rfl⟩
    simp only [stepEffect, hpayload.1]
  | replaceKey | registerIdentity =>
    simp only [stepPayload, append_assoc, packedUint64_append, digest_append] at hpayload
    obtain ⟨hactor, hdigest, hsigner⟩ := hpayload
    refine ⟨packedUint64_injective hsigner, ?_, rfl, ?_⟩
    · simp only [stepEffect, hactor]
    · exact congrArg some (hhashed _ rfl _ rfl hdigest)
  | dispute | disputeWithdraw | verdict | rollback | declareLocalPolicy
  | revokeLocalPolicy | faultProofChallenge | faultProofResolution =>
    simp only [stepPayload, digest_append] at hpayload
    exact ⟨packedUint64_injective hpayload.2, rfl, rfl,
      congrArg some (hhashed _ rfl _ rfl hpayload.1)⟩

theorem credited_of_blocks {credited otherCredited : List (UInt256 × ℕ)}
    (hcredited : ∀ entry ∈ credited, entry.2 < 2 ^ 256)
    (hothers : ∀ entry ∈ otherCredited, entry.2 < 2 ^ 256)
    (heq : (credited.map fun entry =>
        packedUint256 entry.1.toNat ++ packedUint256 entry.2) =
      otherCredited.map fun entry =>
        packedUint256 entry.1.toNat ++ packedUint256 entry.2) :
    credited = otherCredited := by
  induction credited generalizing otherCredited with
  | nil => exact (map_eq_nil_iff.mp heq.symm).symm
  | cons entry _ ih =>
    cases otherCredited with
    | nil => cases heq
    | cons other =>
      obtain ⟨hhead, htail⟩ := List.cons.inj heq
      obtain ⟨hkey, hvalue⟩ := balance_of_append entry.1.isLt other.1.isLt hhead
      have hbalance := packedUint256_injective_of_lt (hcredited entry (by simp))
        (hothers other (by simp)) hvalue
      have hsame : entry = other := Prod.ext (BitVec.eq_of_toNat_eq hkey) hbalance
      have hrest := ih (fun later hlater => hcredited later (by simp [hlater]))
        (fun later hlater => hothers later (by simp [hlater])) htail
      rw [hsame, hrest]

theorem creditedRecipients_lt (hreads : ∀ read ∈ reads, read.2 < 2 ^ 64) :
    ∀ entry ∈ creditedRecipients actionFields reads kind, entry.2 < 2 ^ 256 := by
  intro entry hentry
  obtain ⟨read, hread, rfl⟩ := mem_map.mp hentry
  exact creditedBalance_lt (hreads read hread)

theorem credited_of_stepBlocks (hreads : ∀ read ∈ reads, read.2 < 2 ^ 64)
    (hothers : ∀ read ∈ others, read.2 < 2 ^ 64)
    (hblocks : stepBlocks actionFields kind reads = stepBlocks otherFields kind others) :
    (stepEffect actionFields reads kind).credited =
      (stepEffect otherFields others kind).credited := by
  cases kind with
  | distributeOthers | proportionalDilute =>
    apply credited_of_blocks (creditedRecipients_lt hreads) (creditedRecipients_lt hothers)
    simp only [creditedRecipients, map_map]
    exact hblocks
  | transfer | mint | burn | freezeResource | replaceKey | reward | dispute
  | disputeWithdraw | verdict | rollback | registerIdentity | deposit | withdraw
  | declareLocalPolicy | revokeLocalPolicy | faultProofChallenge
  | faultProofResolution => rfl

theorem tagText_injective {other : ActionKind}
    (heq : asciiBytes kind.tagText = asciiBytes other.tagText) : kind = other := by
  revert heq
  cases kind <;> cases other <;> decide

end Determined

/-! ## Calls -/

structure StepCall where
  preStateCommit : Bytes32
  actionKind : UInt8
  actionFields : Bytes
  signer : UInt64
  cellProofs : List CellProof

namespace StepCall

def run (call : StepCall) : Except StepError Bytes32 :=
  executeStep call.preStateCommit call.actionFields call.signer call.cellProofs call.actionKind

def reads (call : StepCall) (kind : ActionKind) : Except StepError (List (UInt256 × ℕ)) :=
  (cellReads call.actionFields kind call.cellProofs).mapM fun read => do
    return (read.1, ← read.2)

def effect (call : StepCall) : Except StepError StepEffect := do
  let kind ← toActionKind call.actionKind
  let reads ← call.reads kind
  return stepEffect call.actionFields reads kind

/-- The name of the variant, the field bytes which are only hashed, and the strings of
the chain. -/
def stringsOf (call : StepCall) (kind : ActionKind) (reads : List (UInt256 × ℕ)) : List Bytes :=
  asciiBytes kind.tagText ::
    ((stepEffect call.actionFields reads kind).hashed.toList ++
      HashChain.preimages hashBytes
        (stepHeader call.preStateCommit call.actionFields call.signer kind reads)
        (stepBlocks call.actionFields kind reads))

def hashedStrings (call : StepCall) : Except StepError (List Bytes) := do
  let kind ← toActionKind call.actionKind
  let reads ← call.reads kind
  return call.stringsOf kind reads

/-- No string hashed by the one call collides with one hashed by the other. -/
def CollisionFree (call other : StepCall) : Prop :=
  ∀ strings otherStrings, call.hashedStrings = .ok strings →
    other.hashedStrings = .ok otherStrings →
      HashChain.NoCollisionBetween hashBytes strings otherStrings

variable {call other : StepCall} {kind : ActionKind} {commit : Bytes32}

theorem mapM_known (reads : List (UInt256 × ℕ)) :
    (known reads).mapM (fun read => do return (read.1, ← read.2)) =
      (.ok reads : Except StepError (List (UInt256 × ℕ))) := by
  induction reads with
  | nil => rfl
  | cons _ _ ih =>
    rw [known, map_cons, mapM_cons]
    simp only [known] at ih
    rw [ih]
    rfl

theorem run_eq_ok (hrun : call.run = .ok commit) :
    ∃ kind reads, toActionKind call.actionKind = .ok kind ∧ call.reads kind = .ok reads ∧
      CommitsTo call.preStateCommit call.actionFields call.signer kind
        call.cellProofs commit reads := by
  simp only [run, executeStep, bind_eq_ok, revertIf_eq_ok, exists_const] at hrun
  obtain ⟨_, _, kind, hkind, hstep⟩ := hrun
  obtain ⟨reads, hcommits⟩ := stepOf_commits hstep
  refine ⟨kind, reads, hkind, ?_, hcommits⟩
  rw [StepCall.reads, hcommits.reads_eq]
  exact mapM_known reads

theorem values_sum_lt_of_commits {reads : List (UInt256 × ℕ)}
    (hcommits : CommitsTo call.preStateCommit call.actionFields call.signer kind
      call.cellProofs commit reads) : (reads.map Prod.snd).sum < 2 ^ 256 := by
  apply values_sum_lt (cellReads_lt hcommits.reads_eq)
  have hadmitted := hcommits.admitted
  cases kind with
  | transfer =>
    obtain ⟨_, _, rfl, _⟩ := hadmitted
    simp [maxRecipientsPerBulkAction]
  | mint | reward | deposit =>
    obtain ⟨_, rfl⟩ := hadmitted
    simp [maxRecipientsPerBulkAction]
  | burn | withdraw =>
    obtain ⟨_, rfl, _⟩ := hadmitted
    simp [maxRecipientsPerBulkAction]
  | distributeOthers | proportionalDilute => exact hadmitted
  | freezeResource | replaceKey | dispute | disputeWithdraw | verdict
  | rollback | registerIdentity | declareLocalPolicy
  | revokeLocalPolicy | faultProofChallenge | faultProofResolution =>
    rw [show reads = [] from hadmitted]
    decide

/-- Two calls with the same result were for the same pre-state commit, variant and
signer, and they had the same effect. -/
theorem steps_of_equal_commits (hrun : call.run = .ok commit)
    (hother : other.run = .ok commit) (hfree : call.CollisionFree other) :
    call.preStateCommit = other.preStateCommit ∧
      toActionKind call.actionKind = toActionKind other.actionKind ∧ call.signer = other.signer ∧
      ∃ effect, call.effect = .ok effect ∧ other.effect = .ok effect := by
  obtain ⟨kind, reads, hkind, hreads, hcommits⟩ := run_eq_ok hrun
  obtain ⟨otherKind, otherReads, hotherKind, hotherReads, hotherCommits⟩ := run_eq_ok hother
  have hstrings : call.hashedStrings = .ok (call.stringsOf kind reads) := by
    rw [hashedStrings, hkind, ok_bind, hreads]
    rfl
  have hotherStrings : other.hashedStrings = .ok (other.stringsOf otherKind otherReads) := by
    rw [hashedStrings, hotherKind, ok_bind, hotherReads]
    rfl
  have hnone := hfree _ _ hstrings hotherStrings
  have hchains := hcommits.commit_eq.symm.trans hotherCommits.commit_eq
  obtain ⟨hheader, hblocks⟩ := HashChain.chain_injective hashBytes_length
    stepHeader_length_ne stepHeader_length_ne stepBlocks_width stepBlocks_width
    (fun message hmessage otherMessage hotherMessage =>
      hnone message (by simp [stringsOf, hmessage]) otherMessage
        (by simp [stringsOf, hotherMessage]))
    hchains
  rw [stepHeader, stepHeader, append_assoc, append_assoc, digest_append] at hheader
  obtain ⟨hpre, hheader⟩ := hheader
  obtain ⟨htag, hpayload⟩ := append_inj hheader (by simp)
  have hname := hnone (asciiBytes kind.tagText) mem_cons_self
    (asciiBytes otherKind.tagText) mem_cons_self htag
  have hsame := tagText_injective hname
  subst hsame
  have hlt := cellReads_lt hcommits.reads_eq
  have hotherLt := cellReads_lt hotherCommits.reads_eq
  obtain ⟨hsigner, htouched, hvalues, hhashed⟩ := effect_of_payload
    (forall_mem_map.mpr hlt) (forall_mem_map.mpr hotherLt)
    (values_sum_lt_of_commits hcommits) (values_sum_lt_of_commits hotherCommits)
    (fun message hmessage otherMessage hotherMessage hdigest =>
      hnone message (by simp [stringsOf, Option.mem_def.mp hmessage]) otherMessage
        (by simp [stringsOf, Option.mem_def.mp hotherMessage]) (congrArg Bytes32.toBytes hdigest))
    hpayload
  have hcredited := credited_of_stepBlocks hlt hotherLt hblocks
  have heffect : stepEffect call.actionFields reads kind =
      stepEffect other.actionFields otherReads kind := by
    cases h : stepEffect call.actionFields reads kind
    cases h' : stepEffect other.actionFields otherReads kind
    simp_all
  refine ⟨hpre, by rw [hkind, hotherKind], hsigner, stepEffect call.actionFields reads kind, ?_, ?_⟩
  · rw [effect, hkind, ok_bind, hreads, ok_bind]
    rfl
  · rw [effect, hotherKind, ok_bind, hotherReads, ok_bind, heffect]
    rfl

def mintCall (behind : List CellProof) : StepCall :=
  ⟨.zero, 1, mintFields, 7, claimedBalance 10 :: behind⟩

theorem hashedStrings_mintCall (behind : List CellProof) :
    (mintCall behind).hashedStrings = .ok [asciiBytes "mint",
      stepHeader .zero mintFields 7 .mint [(2, 10)]] := by
  have hreads : (mintCall behind).reads .mint = .ok [(2, 10)] := by
    have hcells : cellReads mintFields .mint (claimedBalance 10 :: behind) = known [(2, 10)] := by
      rfl
    rw [reads, mintCall, hcells]
    exact mapM_known _
  rfl

theorem steps_of_equal_commits_mint :
    ∃ commit effect, (mintCall []).run = .ok commit ∧
      (mintCall [claimedBalance 20]).run = .ok commit ∧ (mintCall []).effect = .ok effect ∧
      (mintCall [claimedBalance 20]).effect = .ok effect := by
  have hfree : (mintCall []).CollisionFree (mintCall [claimedBalance 20]) := by
    intro strings otherStrings hstrings hotherStrings
    rw [hashedStrings_mintCall, Except.ok.injEq] at hstrings hotherStrings
    rw [← hstrings, ← hotherStrings]
    intro message hmessage other hother hhash
    have hne : hashBytes (asciiBytes "mint") ≠
        hashBytes (stepHeader .zero mintFields 7 .mint [(2, 10)]) := by
      decide +kernel
    rcases mem_pair.mp hmessage with rfl | rfl <;>
      rcases mem_pair.mp hother with rfl | rfl
    · rfl
    · exact absurd hhash hne
    · exact absurd hhash.symm hne
    · rfl
  have hrun : (mintCall []).run = .ok _ := rfl
  have hother : (mintCall [claimedBalance 20]).run = .ok _ := rfl
  obtain ⟨_, _, _, effect, heffect, hotherEffect⟩ := steps_of_equal_commits hrun hother hfree
  exact ⟨_, effect, hrun, hother, heffect, hotherEffect⟩

end StepCall

end StepVM
end Canon
