import Canon.CbeCodec
import Canon.KeccakSponge

/-!
# The step virtual machine

`executeStep` replays one kernel action from a bundle of claimed cell values
and returns a 32-byte commit to the result.  Variants of the same shape share one
parametrised definition, and each keeps its own name with its own tag and
field widths.
-/

namespace Canon
namespace StepVM

open List

abbrev UInt256 := BitVec 256

inductive CellKind where
  | balance
  | nonce
  | registry
  | localPolicy
  | bridgeConsumed
  | bridgePending
  | bridgeNextWdId
  deriving DecidableEq, Repr

def CellKind.index : CellKind → UInt8
  | .balance => 0
  | .nonce => 1
  | .registry => 2
  | .localPolicy => 3
  | .bridgeConsumed => 4
  | .bridgePending => 5
  | .bridgeNextWdId => 6

inductive ActionKind where
  | transfer
  | mint
  | burn
  | freezeResource
  | replaceKey
  | reward
  | distributeOthers
  | proportionalDilute
  | dispute
  | disputeWithdraw
  | verdict
  | rollback
  | registerIdentity
  | deposit
  | withdraw
  | declareLocalPolicy
  | revokeLocalPolicy
  | faultProofChallenge
  | faultProofResolution
  deriving DecidableEq, Repr

inductive StepError where
  | badCellProof
  | unknownActionKind
  | missingCellProof (cellKind : CellKind) (keyA : UInt256)
  | insufficientBalance
  | amountMustBePositive
  | tooManyCellProofs
  | malformedCellValue
  | fieldsTooShort (kind : ActionKind)
  | arithmeticPanic
  deriving DecidableEq, Repr

structure CellProof where
  cellKind : UInt8
  keyA : UInt256
  keyB : UInt256
  cellValue : Bytes
  witnessCommit : Bytes32
  deriving DecidableEq

def maxRecipientsPerBulkAction : ℕ := 256

def maxCellProofsPerStep : ℕ := maxRecipientsPerBulkAction + 16

/-- The tag hash of a variant is `keccak256(bytes(variant-name))`. -/
def ActionKind.tagText : ActionKind → String
  | .transfer => "transfer"
  | .mint => "mint"
  | .burn => "burn"
  | .freezeResource => "freezeResource"
  | .replaceKey => "replaceKey"
  | .reward => "reward"
  | .distributeOthers => "distributeOthers"
  | .proportionalDilute => "proportionalDilute"
  | .dispute => "dispute"
  | .disputeWithdraw => "disputeWithdraw"
  | .verdict => "verdict"
  | .rollback => "rollback"
  | .registerIdentity => "registerIdentity"
  | .deposit => "deposit"
  | .withdraw => "withdraw"
  | .declareLocalPolicy => "declareLocalPolicy"
  | .revokeLocalPolicy => "revokeLocalPolicy"
  | .faultProofChallenge => "faultProofChallenge"
  | .faultProofResolution => "faultProofResolution"

def ActionKind.tag (kind : ActionKind) : Bytes := (keccak256 (asciiBytes kind.tagText)).toBytes

def packedUint64 (value : UInt64) : Bytes := beBytes 8 value.toNat

def packedUint256 (value : ℕ) : Bytes := beBytes 32 value

def toActionKind (idx : UInt8) : Except StepError ActionKind :=
  match idx.toNat with
  | 0 => .ok .transfer
  | 1 => .ok .mint
  | 2 => .ok .burn
  | 3 => .ok .freezeResource
  | 4 => .ok .replaceKey
  | 5 => .ok .reward
  | 6 => .ok .distributeOthers
  | 7 => .ok .proportionalDilute
  | 8 => .ok .dispute
  | 9 => .ok .disputeWithdraw
  | 10 => .ok .verdict
  | 11 => .ok .rollback
  | 12 => .ok .registerIdentity
  | 13 => .ok .deposit
  | 14 => .ok .withdraw
  | 15 => .ok .declareLocalPolicy
  | 16 => .ok .revokeLocalPolicy
  | 17 => .ok .faultProofChallenge
  | 18 => .ok .faultProofResolution
  | _ => .error .unknownActionKind

def widen (value : UInt64) : UInt256 := BitVec.ofNat 256 value.toNat

def findBalanceCellProof (cellProofs : List CellProof)
    (resource actor : UInt64) : Except StepError CellProof :=
  match cellProofs.find? (fun proof =>
      proof.cellKind = CellKind.balance.index ∧
        proof.keyA = widen resource ∧ proof.keyB = widen actor) with
  | some proof => .ok proof
  | none => .error (.missingCellProof .balance (widen resource))

/-- `_decodeNat`: the tag byte and anything after the ninth byte are not
looked at. -/
def decodeNat (data : Bytes) : Except StepError ℕ :=
  if data.length = 0 then .ok 0
  else if data.length < 9 then .error .malformedCellValue
  else .ok (orShiftLoop (fun i => data.getD (1 + i) 0) 8)

def decodeUint64BE (data : Bytes) (offset : ℕ) : UInt64 :=
  UInt64.ofNat (beValue ((data.drop offset).take 8))

/-! ## The action variants -/

section Variants

variable (preStateCommit : Bytes32) (actionFields : Bytes)
  (signer : UInt64) (cellProofs : List CellProof)

def readBalance (resource actor : UInt64) : Except StepError ℕ := do
  let proof ← findBalanceCellProof cellProofs resource actor
  decodeNat proof.cellValue

def stepTransfer : Except StepError Bytes32 := do
  revertIf (actionFields.length < 32) (.fieldsTooShort .transfer)
  let r := decodeUint64BE actionFields 0
  let sender := decodeUint64BE actionFields 8
  let receiver := decodeUint64BE actionFields 16
  let amount := (decodeUint64BE actionFields 24).toNat
  revertIf (amount = 0) .amountMustBePositive
  let senderBalance ← readBalance cellProofs r sender
  revertIf (senderBalance < amount) .insufficientBalance
  let newReceiverBalance ←
    if sender = receiver then pure senderBalance
    else do
      let receiverBalance ← readBalance cellProofs r receiver
      checkedAdd 256 .arithmeticPanic receiverBalance amount
  let newSenderBalance :=
    if sender = receiver then senderBalance else senderBalance - amount
  return keccak256 (preStateCommit.toBytes ++ ActionKind.transfer.tag ++
    packedUint64 r ++ packedUint64 sender ++
    packedUint256 newSenderBalance ++ packedUint64 receiver ++
    packedUint256 newReceiverBalance ++ packedUint64 signer)

/-- The shape shared by `_stepMint` and `_stepReward`. -/
def creditStep (kind : ActionKind) : Except StepError Bytes32 := do
  revertIf (actionFields.length < 24) (.fieldsTooShort kind)
  let r := decodeUint64BE actionFields 0
  let toActor := decodeUint64BE actionFields 8
  let amount := (decodeUint64BE actionFields 16).toNat
  revertIf (amount = 0) .amountMustBePositive
  let toBalance ← readBalance cellProofs r toActor
  let newToBalance ← checkedAdd 256 .arithmeticPanic toBalance amount
  return keccak256 (preStateCommit.toBytes ++ kind.tag ++ packedUint64 r ++
    packedUint64 toActor ++ packedUint256 newToBalance ++ packedUint64 signer)

def stepMint : Except StepError Bytes32 :=
  creditStep preStateCommit actionFields signer cellProofs .mint

def stepReward : Except StepError Bytes32 :=
  creditStep preStateCommit actionFields signer cellProofs .reward

def stepBurn : Except StepError Bytes32 := do
  revertIf (actionFields.length < 24) (.fieldsTooShort .burn)
  let r := decodeUint64BE actionFields 0
  let fromActor := decodeUint64BE actionFields 8
  let amount := (decodeUint64BE actionFields 16).toNat
  revertIf (amount = 0) .amountMustBePositive
  let fromBalance ← readBalance cellProofs r fromActor
  revertIf (fromBalance < amount) .insufficientBalance
  return keccak256 (preStateCommit.toBytes ++ ActionKind.burn.tag ++
    packedUint64 r ++ packedUint64 fromActor ++
    packedUint256 (fromBalance - amount) ++ packedUint64 signer)

def stepFreezeResource : Except StepError Bytes32 := do
  revertIf (actionFields.length < 8) (.fieldsTooShort .freezeResource)
  let r := decodeUint64BE actionFields 0
  return keccak256 (preStateCommit.toBytes ++
    ActionKind.freezeResource.tag ++ packedUint64 r ++ packedUint64 signer)

/-- The shape shared by `_stepReplaceKey` and `_stepRegisterIdentity`. -/
def keyStep (kind : ActionKind) : Except StepError Bytes32 := do
  revertIf (actionFields.length < 8) (.fieldsTooShort kind)
  let actor := decodeUint64BE actionFields 0
  let key := actionFields.drop 8
  return keccak256 (preStateCommit.toBytes ++ kind.tag ++
    packedUint64 actor ++ (keccak256 key).toBytes ++ packedUint64 signer)

def stepReplaceKey : Except StepError Bytes32 :=
  keyStep preStateCommit actionFields signer .replaceKey

def stepRegisterIdentity : Except StepError Bytes32 :=
  keyStep preStateCommit actionFields signer .registerIdentity

/-- A balance proof of the resource for an actor other than the excluded
one. -/
def isRecipient (r excluded : UInt64) (proof : CellProof) : Prop :=
  proof.cellKind = CellKind.balance.index ∧ proof.keyA = widen r ∧ proof.keyB ≠ widen excluded

instance (r excluded : UInt64) (proof : CellProof) : Decidable (isRecipient r excluded proof) :=
  inferInstanceAs (Decidable (_ ∧ _))

/-- The second loop of the bulk actions: the running hash absorbs the actor
and the new balance of every recipient. -/
def creditRecipients (r excluded : UInt64) (newBalance : ℕ → Except StepError ℕ) :
    List CellProof → Bytes32 → Except StepError Bytes32
  | [], acc => .ok acc
  | proof :: rest, acc =>
    if isRecipient r excluded proof then do
      let value ← decodeNat proof.cellValue
      let credited ← newBalance value
      creditRecipients r excluded newBalance rest
        (keccak256 (acc.toBytes ++ packedUint256 proof.keyB.toNat ++ packedUint256 credited))
    else creditRecipients r excluded newBalance rest acc

def sumRecipients (r excluded : UInt64) : List CellProof → ℕ → Except StepError ℕ
  | [], total => .ok total
  | proof :: rest, total =>
    if isRecipient r excluded proof then do
      let value ← decodeNat proof.cellValue
      let total ← checkedAdd 256 .arithmeticPanic total value
      sumRecipients r excluded rest total
    else sumRecipients r excluded rest total

def stepDistributeOthers : Except StepError Bytes32 := do
  revertIf (actionFields.length < 24) (.fieldsTooShort .distributeOthers)
  let r := decodeUint64BE actionFields 0
  let excluded := decodeUint64BE actionFields 8
  let amount := (decodeUint64BE actionFields 16).toNat
  revertIf (amount = 0) .amountMustBePositive
  creditRecipients r excluded (fun value => checkedAdd 256 .arithmeticPanic value amount)
    (cellProofs.take maxRecipientsPerBulkAction)
    (keccak256 (preStateCommit.toBytes ++ ActionKind.distributeOthers.tag ++
      packedUint64 r ++ packedUint64 excluded ++ packedUint256 amount ++ packedUint64 signer))

/-- The new balance `v + totalReward * v / sumOthers` of the dilution. -/
def dilutedBalance (totalReward sumOthers value : ℕ) : Except StepError ℕ := do
  let credit ←
    if sumOthers = 0 then pure 0
    else do
      let product ← checkedMul 256 .arithmeticPanic totalReward value
      pure (product / sumOthers)
  checkedAdd 256 .arithmeticPanic value credit

def stepProportionalDilute : Except StepError Bytes32 := do
  revertIf (actionFields.length < 24) (.fieldsTooShort .proportionalDilute)
  let r := decodeUint64BE actionFields 0
  let excluded := decodeUint64BE actionFields 8
  let totalReward := (decodeUint64BE actionFields 16).toNat
  revertIf (totalReward = 0) .amountMustBePositive
  let sumOthers ← sumRecipients r excluded (cellProofs.take maxRecipientsPerBulkAction) 0
  revertIf (sumOthers = 0) .amountMustBePositive
  creditRecipients r excluded (dilutedBalance totalReward sumOthers)
    (cellProofs.take maxRecipientsPerBulkAction)
    (keccak256 (preStateCommit.toBytes ++ ActionKind.proportionalDilute.tag ++ packedUint64 r ++
      packedUint64 excluded ++ packedUint256 totalReward ++
      packedUint256 sumOthers ++ packedUint64 signer))

/-- The shape of the variants which leave the cells alone and commit to the
hash of the action fields. -/
def recordStep (kind : ActionKind) : Except StepError Bytes32 :=
  .ok (keccak256 (preStateCommit.toBytes ++ kind.tag ++
    (keccak256 actionFields).toBytes ++ packedUint64 signer))

def stepDispute : Except StepError Bytes32 := recordStep preStateCommit actionFields signer .dispute

def stepDisputeWithdraw : Except StepError Bytes32 :=
  recordStep preStateCommit actionFields signer .disputeWithdraw

def stepVerdict : Except StepError Bytes32 := recordStep preStateCommit actionFields signer .verdict

def stepRollback : Except StepError Bytes32 :=
  recordStep preStateCommit actionFields signer .rollback

def stepDeclareLocalPolicy : Except StepError Bytes32 :=
  recordStep preStateCommit actionFields signer .declareLocalPolicy

def stepRevokeLocalPolicy : Except StepError Bytes32 :=
  recordStep preStateCommit actionFields signer .revokeLocalPolicy

def stepFaultProofChallenge : Except StepError Bytes32 :=
  recordStep preStateCommit actionFields signer .faultProofChallenge

def stepFaultProofResolution : Except StepError Bytes32 :=
  recordStep preStateCommit actionFields signer .faultProofResolution

def stepDeposit : Except StepError Bytes32 := do
  revertIf (actionFields.length < 32) (.fieldsTooShort .deposit)
  let r := decodeUint64BE actionFields 0
  let recipient := decodeUint64BE actionFields 8
  let amount := (decodeUint64BE actionFields 16).toNat
  let depositId := (decodeUint64BE actionFields 24).toNat
  let recipientBalance ← readBalance cellProofs r recipient
  let newRecipientBalance ← checkedAdd 256 .arithmeticPanic recipientBalance amount
  return keccak256 (preStateCommit.toBytes ++ ActionKind.deposit.tag ++
    packedUint64 r ++ packedUint64 recipient ++
    packedUint256 newRecipientBalance ++ packedUint256 depositId ++ packedUint64 signer)

def stepWithdraw : Except StepError Bytes32 := do
  revertIf (actionFields.length < 24) (.fieldsTooShort .withdraw)
  let r := decodeUint64BE actionFields 0
  let sender := decodeUint64BE actionFields 8
  let amount := (decodeUint64BE actionFields 16).toNat
  let recipientL1 := actionFields.drop 24
  let senderBalance ← readBalance cellProofs r sender
  revertIf (senderBalance < amount) .insufficientBalance
  return keccak256 (preStateCommit.toBytes ++ ActionKind.withdraw.tag ++
    packedUint64 r ++ packedUint64 sender ++ packedUint256 (senderBalance - amount) ++
    (keccak256 recipientL1).toBytes ++ packedUint64 signer)

def stepOf : ActionKind → Except StepError Bytes32
  | .transfer => stepTransfer preStateCommit actionFields signer cellProofs
  | .mint => stepMint preStateCommit actionFields signer cellProofs
  | .burn => stepBurn preStateCommit actionFields signer cellProofs
  | .freezeResource => stepFreezeResource preStateCommit actionFields signer
  | .replaceKey => stepReplaceKey preStateCommit actionFields signer
  | .reward => stepReward preStateCommit actionFields signer cellProofs
  | .distributeOthers =>
    stepDistributeOthers preStateCommit actionFields signer cellProofs
  | .proportionalDilute =>
    stepProportionalDilute preStateCommit actionFields signer cellProofs
  | .dispute => stepDispute preStateCommit actionFields signer
  | .disputeWithdraw => stepDisputeWithdraw preStateCommit actionFields signer
  | .verdict => stepVerdict preStateCommit actionFields signer
  | .rollback => stepRollback preStateCommit actionFields signer
  | .registerIdentity =>
    stepRegisterIdentity preStateCommit actionFields signer
  | .deposit => stepDeposit preStateCommit actionFields signer cellProofs
  | .withdraw => stepWithdraw preStateCommit actionFields signer cellProofs
  | .declareLocalPolicy =>
    stepDeclareLocalPolicy preStateCommit actionFields signer
  | .revokeLocalPolicy =>
    stepRevokeLocalPolicy preStateCommit actionFields signer
  | .faultProofChallenge =>
    stepFaultProofChallenge preStateCommit actionFields signer
  | .faultProofResolution =>
    stepFaultProofResolution preStateCommit actionFields signer

def executeStep (actionKind : UInt8) : Except StepError Bytes32 := do
  revertIf (maxCellProofsPerStep < cellProofs.length) .tooManyCellProofs
  revertIf (∃ proof ∈ cellProofs, proof.witnessCommit ≠ preStateCommit) .badCellProof
  let kind ← toActionKind actionKind
  stepOf preStateCommit actionFields signer cellProofs kind

end Variants

/-! ## The encoding of a cell value -/

def encodeNat (value : ℕ) : Bytes := 0x1B :: leBytes 8 value

variable {data : Bytes}

theorem decodeNat_of_length (hlength : 9 ≤ data.length) :
    decodeNat data = .ok (leValue ((data.drop 1).take 8)) := by
  rw [decodeNat, if_neg (by omega), if_neg (by omega), orShiftLoop_eq_leValue,
    map_getD_range data (by omega)]

/-- `readUint` and then `assertFullyConsumed`. -/
def readWholeUint (data : Bytes) : Except Cbe.DecodeError UInt64 := do
  let (value, next) ← Cbe.readUint data 0
  Cbe.assertFullyConsumed data next
  return value

theorem readWholeUint_eq_ok {word : UInt64} :
    readWholeUint data = .ok word ↔ data = Cbe.encodeUint word := by
  simp only [readWholeUint, bind_eq_ok, Prod.exists, Cbe.readUint_eq_ok,
    Cbe.assertFullyConsumed_eq_ok, exists_const, pure_eq_ok, drop_zero, Nat.zero_add]
  constructor
  · rintro ⟨_, _, ⟨hdata, rfl⟩, hlength, rfl⟩
    rwa [hlength, drop_length, append_nil] at hdata
  · rintro rfl
    have hlength := Cbe.encodeUint_length word
    refine ⟨word, 9, ⟨?_, rfl⟩, hlength.symm, rfl⟩
    rw [drop_of_length_le hlength.le, append_nil]

/-- The step machine finds in these bytes what the reader of the encoding finds. -/
def ReadsCanonically (data : Bytes) : Prop :=
  ∀ value, decodeNat data = .ok value ↔
    data = [] ∧ value = 0 ∨ ∃ word, readWholeUint data = .ok word ∧ word.toNat = value

theorem decodeNat_encodeUint (word : UInt64) :
    decodeNat (Cbe.encodeUint word) = .ok word.toNat := by
  have hlt : word.toNat < 256 ^ 8 := word.toNat_lt
  rw [decodeNat_of_length (Cbe.encodeUint_length word).ge, Cbe.encodeUint, Cbe.encodeHead,
    drop_one, tail_cons, take_of_length_le (leBytes_length 8 _).le,
    leValue_leBytes 8 _ hlt]

/-- The bytes are read canonically exactly when they are too few for a number, or nine
with the tag of one; what the machine encodes itself it reads back. -/
theorem decodeNat_canonical_iff (data : Bytes) :
    (ReadsCanonically data ↔
      data.length < 9 ∨ data.length = 9 ∧ data.head? = some Cbe.tagUint) ∧
    ∀ value < 2 ^ 64, decodeNat (encodeNat value) = .ok value := by
  refine ⟨⟨?_, ?_⟩, ?_⟩
  · intro hreads
    by_cases hshort : data.length < 9
    · exact .inl hshort
    · rcases (hreads _).mp (decodeNat_of_length (Nat.not_lt.mp hshort)) with
        ⟨rfl, _⟩ | ⟨word, hword, _⟩
      · exact .inl (by decide)
      · rw [readWholeUint_eq_ok.mp hword]
        exact .inr ⟨Cbe.encodeUint_length word, rfl⟩
  · intro hdata value
    simp only [readWholeUint_eq_ok]
    rcases hdata with hshort | ⟨hlength, htag⟩
    · have hnever : ∀ word, data ≠ Cbe.encodeUint word := by
        rintro word rfl
        exact absurd (Cbe.encodeUint_length word) hshort.ne
      cases data with
      | nil => simp [decodeNat, hnever, eq_comm]
      | cons =>
        rw [decodeNat, if_neg (by simp), if_pos hshort]
        simp [hnever]
    · cases data with
      | nil => cases htag
      | cons tag rest =>
        have hrest : rest.length = 8 := Nat.succ.inj hlength
        have hlt : leValue rest < 2 ^ 64 := (leValue_lt rest).trans_eq (by rw [hrest]; rfl)
        have hcanonical : tag :: rest = Cbe.encodeUint (UInt64.ofNat (leValue rest)) := by
          rw [Option.some.inj htag, Cbe.encodeUint, Cbe.encodeHead,
            UInt64.toNat_ofNat_of_lt' hlt, ← hrest, leBytes_leValue]
        rw [hcanonical, decodeNat_encodeUint]
        constructor
        · intro hvalue
          exact .inr ⟨_, rfl, Except.ok.inj hvalue⟩
        · rintro (⟨hnil, _⟩ | ⟨word, hword, rfl⟩)
          · cases hnil
          · rw [← decodeNat_encodeUint, hword, decodeNat_encodeUint]
  · intro value hvalue
    have hlt : value < 256 ^ 8 := hvalue
    rw [decodeNat_of_length (by simp [encodeNat]), encodeNat, drop_one, tail_cons,
      take_of_length_le (leBytes_length 8 _).le, leValue_leBytes 8 _ hlt]

theorem decodeNat_canonical_seven :
    ReadsCanonically (Cbe.encodeUint 7) ∧ decodeNat (encodeNat 7) = .ok 7 :=
  ⟨(decodeNat_canonical_iff _).1.mpr (.inr ⟨rfl, rfl⟩),
    (decodeNat_canonical_iff []).2 7 (by decide)⟩

/-- A byte string of one byte more, with the tag of an array, is read as the number 7. -/
theorem decodeNat_accepts_malformed :
    decodeNat (Cbe.encodeHead Cbe.tagArray 7 ++ [1]) = .ok 7 ∧
      readWholeUint (Cbe.encodeHead Cbe.tagArray 7 ++ [1]) =
        .error (.invalidMajorType Cbe.tagArray Cbe.tagUint) ∧
      decodeNat (Cbe.encodeUint 7) = .ok 7 ∧
      readWholeUint (encodeNat 7) = .error (.invalidMajorType 0x1B Cbe.tagUint) := by
  decide

end StepVM
end Canon
