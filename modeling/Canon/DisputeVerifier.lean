import Canon.SequencerStake

/-!
# The dispute verifier

Disputes are filed against a log index with one of three kinds of claim.  A
quorum of adjudicators and a fresh run of the claim's verifier over evidence
supplied by the caller decide them.

The contents of the identity registry and the receivers' acceptance of ether
are arguments of a call, and signature recovery is a parameter.  A call is
atomic.  None of the functions is payable.
-/

namespace Canon
namespace Dispute

open Cbe

inductive VerifierError where
  | unknownDispute
  | alreadyDecided
  | quorumNotMet (verified : ℕ) (required : UInt8)
  | evidenceNotUpheld
  | evidenceNotRejected
  | selfClaimInvalid
  | invalidClaimVariant
  | maxPrefixLenExceeded
  | zeroAddress
  | quorumThresholdOutOfRange
  | evidenceBlobTooLarge (actual maxBytes : ℕ)
  | tooManySigners (supplied maxAllowed : ℕ)
  | missingSignerHint
  | doubleApplyConcatBadCount (declared expected : UInt64)
  | signatureMalformed
  | arithmeticPanic
  | cbe (error : DecodeError)
  | stake (error : Stake.StakeError)
  | bridge (error : Bridge.BridgeError)
  deriving DecidableEq, Repr

structure VerifierParams where
  canonVersionTag : Bytes32
  bridge : Address
  sequencerStake : Address
  identityRegistry : Address
  migration : Address
  quorumThreshold : UInt8
  approvedAdjudicators : List Address
  chainId : ℕ
  self : Address
  bridge_ne_zero : bridge ≠ 0
  sequencerStake_ne_zero : sequencerStake ≠ 0
  identityRegistry_ne_zero : identityRegistry ≠ 0
  quorumThreshold_ne_zero : quorumThreshold ≠ 0
  quorumThreshold_le : quorumThreshold.toNat ≤ approvedAdjudicators.length
  adjudicators_ne_zero : ∀ adjudicator ∈ approvedAdjudicators, adjudicator ≠ 0

structure ConstructorArgs where
  canonVersionTag : Bytes32
  bridge : Address
  sequencerStake : Address
  identityRegistry : Address
  migration : Address
  quorumThreshold : UInt8
  approvedAdjudicators : List Address

/-- The constructor.  The list of adjudicators is kept as given, as the
membership mapping merges repetitions. -/
def VerifierParams.deploy (chainId : ℕ) (self : Address)
    (args : ConstructorArgs) : Except VerifierError VerifierParams :=
  if hbridge : args.bridge = 0 then .error .zeroAddress
  else if hstake : args.sequencerStake = 0 then .error .zeroAddress
  else if hregistry : args.identityRegistry = 0 then .error .zeroAddress
  else if args.approvedAdjudicators.length = 0 then
    .error .quorumThresholdOutOfRange
  else if hquorum : args.quorumThreshold = 0 ∨
      args.approvedAdjudicators.length < args.quorumThreshold.toNat then
    .error .quorumThresholdOutOfRange
  else if hadjudicators : args.approvedAdjudicators.any (fun adjudicator =>
      adjudicator = 0) then .error .zeroAddress
  else .ok {
    canonVersionTag := args.canonVersionTag
    bridge := args.bridge
    sequencerStake := args.sequencerStake
    identityRegistry := args.identityRegistry
    migration := args.migration
    quorumThreshold := args.quorumThreshold
    approvedAdjudicators := args.approvedAdjudicators
    chainId := chainId
    self := self
    bridge_ne_zero := hbridge
    sequencerStake_ne_zero := hstake
    identityRegistry_ne_zero := hregistry
    quorumThreshold_ne_zero := fun hzero => hquorum (.inl hzero)
    quorumThreshold_le := Nat.not_lt.mp fun hlt => hquorum (.inr hlt)
    adjudicators_ne_zero := fun adjudicator hmem hzero => hadjudicators
      (List.any_eq_true.mpr ⟨adjudicator, hmem, decide_eq_true hzero⟩) }

def VerifierParams.deploymentId (params : VerifierParams) : Bytes32 :=
  keccak256 (abiWord params.chainId ++ abiAddress params.self ++ params.canonVersionTag.toBytes)

def maxVerdictSigners : ℕ := 64

def maxEvidenceBlobBytes : ℕ := 100000

def maxPrefixLen : UInt64 := 256

def claimSignatureInvalid : UInt8 := 1

def claimNonceMismatch : UInt8 := 2

def claimDoubleApply : UInt8 := 4

inductive Verdict where
  | upheld
  | rejected
  | inconclusive
  deriving DecidableEq, Repr

def Verdict.index : Verdict → ℕ
  | .upheld => 0
  | .rejected => 1
  | .inconclusive => 2

inductive DisputeStatus where
  | «open»
  | upheld
  | rejected
  deriving DecidableEq, Repr

structure DisputeRecord where
  impugnedLogIndex : UInt64
  challenger : Address
  claimVariant : UInt8
  status : DisputeStatus
  filedAtBlock : UInt64
  deriving DecidableEq

/-- The record of an id which was never filed: its challenger is zero. -/
def DisputeRecord.unset : DisputeRecord := ⟨0, 0, 0, .open, 0⟩

inductive SignerKind where
  | unregistered
  | ecdsaEoa
  | eip1271Contract
  deriving DecidableEq, Repr

structure IdentityRecord where
  kind : SignerKind
  pubkey : Bytes

/-- The identity registry as seen by `lookup`. -/
abbrev Identities := Address → IdentityRecord

structure Deployment where
  verifier : VerifierParams
  stake : Stake.StakeParams
  bridge : Bridge.BridgeParams
  stake_wired : verifier.sequencerStake = stake.self
  bridge_wired : verifier.bridge = bridge.self

structure State where
  disputes : UInt64 → DisputeRecord
  nextDisputeId : UInt64
  escrow : Stake.Escrow
  ledger : Bridge.Ledger

def fileDispute (sender : Address) (state : State)
    (impugnedLogIndex : UInt64) (claimVariant : UInt8)
    (evidenceBlob : Bytes) : Except VerifierError (UInt64 × State) := do
  revertIf (claimVariant ≠ claimSignatureInvalid ∧
    claimVariant ≠ claimNonceMismatch ∧ claimVariant ≠ claimDoubleApply) .invalidClaimVariant
  revertIf (maxEvidenceBlobBytes < evidenceBlob.length)
    (.evidenceBlobTooLarge evidenceBlob.length maxEvidenceBlobBytes)
  let disputeId := state.nextDisputeId
  let nextDisputeId ← checkedAdd64 .arithmeticPanic disputeId 1
  return (disputeId, { state with
    nextDisputeId := nextDisputeId
    disputes := Function.update state.disputes disputeId
      { impugnedLogIndex := impugnedLogIndex
        challenger := sender
        claimVariant := claimVariant
        status := .open
        filedAtBlock := UInt64.ofNat state.ledger.blockNumber } })

/-! ## Log entries on the wire -/

structure LogEntry where
  prevHash : Bytes32
  actionHash : Bytes32
  signer : UInt64
  nonce : UInt64
  sig : Bytes
  deriving DecidableEq

def LogEntry.encode (entry : LogEntry) : Bytes :=
  encodeBytes32 entry.prevHash ++ (encodeBytes32 entry.actionHash ++
    (encodeUint entry.signer ++ (encodeUint entry.nonce ++ encodeBytes entry.sig)))

/-- The five fields of a log entry, as the verifiers of invalid signatures and
of nonces read them. -/
def readLogEntry (blob : Bytes) (offset : ℕ) : Except DecodeError (LogEntry × ℕ) := do
  let (prevHash, offset) ← readBytes32Exact blob offset
  let (actionHash, offset) ← readBytes32Exact blob offset
  let (signer, offset) ← readUint blob offset
  let (nonce, offset) ← readUint blob offset
  let (sig, offset) ← readBytes blob offset
  return (⟨prevHash, actionHash, signer, nonce, sig⟩, offset)

theorem readLogEntry_of_drop {blob rest : Bytes} {offset : ℕ} {entry : LogEntry}
    (hsize : entry.sig.length < 2 ^ 64) (hblob : blob.drop offset = entry.encode ++ rest) :
    readLogEntry blob offset = .ok (entry, offset + entry.encode.length) := by
  have hlength : offset + entry.encode.length =
      offset + 41 + 41 + 9 + 9 + 9 + entry.sig.length := by
    simp [LogEntry.encode]
    omega
  simp only [LogEntry.encode, List.append_assoc] at hblob
  obtain ⟨hprev, hrest⟩ := carries_of_drop (encodeBytes32_length _) hblob
  obtain ⟨haction, hrest⟩ := carries_of_drop (encodeBytes32_length _) hrest
  obtain ⟨hsigner, hrest⟩ := carries_of_drop (encodeUint_length _) hrest
  obtain ⟨hnonce, hrest⟩ := carries_of_drop (encodeUint_length _) hrest
  obtain ⟨hsig, _⟩ := carries_of_drop (encodeBytes_length _) hrest
  rw [← Nat.add_assoc] at hsig
  simp only [readLogEntry, bind_eq_ok, Prod.exists, readUint_eq_ok, readBytes32Exact_eq_ok,
    readBytes_eq_ok, pure_eq_ok, hlength]
  exact ⟨entry.prevHash, _, ⟨hprev, rfl⟩, entry.actionHash, _, ⟨haction, rfl⟩, entry.signer, _,
    ⟨hsigner, rfl⟩, entry.nonce, _, ⟨hnonce, rfl⟩, entry.sig, _, ⟨hsize, hsig, rfl⟩, rfl⟩

/-- `_readSignerNonce`: the signature and anything after it are not read. -/
def readSignerNonce (blob : Bytes) : Except DecodeError (UInt64 × UInt64) := do
  let (_, offset) ← readBytes32Exact blob 0
  let (_, offset) ← readBytes32Exact blob offset
  let (signer, offset) ← readUint blob offset
  let (nonce, _) ← readUint blob offset
  return (signer, nonce)

/-! ## The claim verifiers -/

section Verifiers

variable (recover : Recover) (deployment : Deployment) (identities : Identities)

/-- `address(uint160(uint256(keccak256(pubkey))))`. -/
def derivedAddress (pubkey : Bytes) : Address :=
  BitVec.ofNat 160 (beValue (keccak256 pubkey).toBytes)

def actionDigest (entry : LogEntry) : Bytes32 := Eip712.digest
    (Eip712.domainSeparator "CanonAction" "1" deployment.verifier.chainId 0
      deployment.verifier.bridge)
    (Eip712.actionStructHash entry.actionHash entry.signer entry.nonce
      deployment.bridge.deploymentId)

def checkSignatureInvalid (logEntryBlob : Bytes)
    (expectedSignerAddr : Address) : Except VerifierError Verdict := do
  let (entry, _) ← (readLogEntry logEntryBlob 0).mapError .cbe
  if expectedSignerAddr = 0 then
    return .inconclusive
  if (identities expectedSignerAddr).kind ≠ .ecdsaEoa then
    return .inconclusive
  if derivedAddress (identities expectedSignerAddr).pubkey ≠ expectedSignerAddr then
    return .inconclusive
  if entry.sig.length ≠ 65 then
    return .upheld
  match recover (actionDigest deployment entry) entry.sig with
  | none => return .upheld
  | some recovered =>
    if recovered = 0 then
      return .upheld
    if recovered = expectedSignerAddr then
      return .rejected
    return .upheld

/-- The expected nonces, with the signer's entry replaced or appended. -/
def setExpectedNonce (expected : List (UInt64 × UInt64))
    (signer nonce : UInt64) : List (UInt64 × UInt64) :=
  if (expected.lookup signer).isSome then
    expected.map fun slot => if slot.1 = signer then (signer, nonce) else slot
  else expected ++ [(signer, nonce)]

/-- The loop of `checkNonceMismatch` over the remaining entries. -/
def replayNonces (prefixBlob : Bytes) (impugnedLogIndex : UInt64) :
    ℕ → UInt64 → ℕ → List (UInt64 × UInt64) → Except VerifierError Verdict
  | 0, _, _, _ => .ok .inconclusive
  | remaining + 1, index, offset, expected => do
      let (entry, offset) ← (readLogEntry prefixBlob offset).mapError .cbe
      if index = impugnedLogIndex then
        if entry.nonce ≠ (expected.lookup entry.signer).getD 0 then
          return .upheld
        return .rejected
      let nonce ← checkedAdd64 .arithmeticPanic entry.nonce 1
      replayNonces prefixBlob impugnedLogIndex remaining (index + 1) offset
        (setExpectedNonce expected entry.signer nonce)

def checkNonceMismatch (impugnedLogIndex : UInt64) (prefixBlob : Bytes) :
    Except VerifierError Verdict := do
  let (entryCount, offset) ← (readArrayHead prefixBlob 0).mapError .cbe
  revertIf (maxPrefixLen < entryCount) .maxPrefixLenExceeded
  replayNonces prefixBlob impugnedLogIndex entryCount.toNat 0 offset []

/-- The body shared by `checkDoubleApply` and `checkDoubleApplyFromBytes`. -/
def checkDoubleApply (impugnedLogIndex secondaryLogIndex : UInt64)
    (impugnedBlob secondaryBlob : Bytes) : Except VerifierError Verdict := do
  revertIf (impugnedLogIndex = secondaryLogIndex) .selfClaimInvalid
  let (sigA, nonceA) ← (readSignerNonce impugnedBlob).mapError .cbe
  let (sigB, nonceB) ← (readSignerNonce secondaryBlob).mapError .cbe
  if sigA = sigB ∧ nonceA = nonceB then
    return .upheld
  return .rejected

/-- The decoding half of `_runDoubleApplyFromConcat`: the secondary index, and
the impugned and the secondary byte string. -/
def readDoubleApplyConcat (blob : Bytes) : Except VerifierError (UInt64 × Bytes × Bytes) := do
  let (secondaryLogIndex, offset) ← (readUint blob 0).mapError .cbe
  let (count, offset) ← (readArrayHead blob offset).mapError .cbe
  revertIf (count ≠ 2) (.doubleApplyConcatBadCount count 2)
  let (impugnedBytes, offset) ← (readBytes blob offset).mapError .cbe
  let (secondaryBytes, offset) ← (readBytes blob offset).mapError .cbe
  (assertFullyConsumed blob offset).mapError .cbe
  return (secondaryLogIndex, impugnedBytes, secondaryBytes)

def runDoubleApplyFromConcat (impugnedLogIndex : UInt64) (blob : Bytes) :
    Except VerifierError Verdict := do
  let (secondaryLogIndex, impugnedBytes, secondaryBytes) ← readDoubleApplyConcat blob
  checkDoubleApply impugnedLogIndex secondaryLogIndex impugnedBytes secondaryBytes

def runClaimVerifier (dispute : DisputeRecord) (reEvidenceBlob : Bytes)
    (signerHint : Address) : Except VerifierError Verdict :=
  if dispute.claimVariant = claimSignatureInvalid then do
    revertIf (signerHint = 0) .missingSignerHint
    checkSignatureInvalid recover deployment identities reEvidenceBlob signerHint
  else if dispute.claimVariant = claimNonceMismatch then
    checkNonceMismatch dispute.impugnedLogIndex reEvidenceBlob
  else if dispute.claimVariant = claimDoubleApply then
    runDoubleApplyFromConcat dispute.impugnedLogIndex reEvidenceBlob
  else .error .invalidClaimVariant

end Verifiers

/-! ## Verdicts -/

section Verdicts

variable (recover : Recover) (deployment : Deployment) (identities : Identities) (state : State)

def verdictDigest (disputeId : UInt64) (outcome : Verdict) : Bytes32 := Eip712.digest
    (Eip712.domainSeparator "CanonDisputeVerifier" "1"
      deployment.verifier.chainId 0 deployment.verifier.self)
    (keccak256 (
      Eip712.textHash ("Verdict(uint64 disputeId,uint8 outcome," ++
        "bytes32 deploymentId)") ++
      abiWord disputeId.toNat ++ abiWord outcome.index ++
      deployment.verifier.deploymentId.toBytes))

/-- The counting loop, with the signers already seen.  A signature which the
recovery refuses reverts the whole call. -/
def countSignatures (approved : List Address) (verdictHash : Bytes32) :
    List (Address × Bytes) → List Address → Except VerifierError ℕ
  | [], seen => .ok seen.length
  | (signer, sig) :: rest, seen =>
    if signer = 0 ∨ signer ∉ approved ∨ sig.length ≠ 65 ∨ signer ∈ seen then
      countSignatures approved verdictHash rest seen
    else
      match recover verdictHash sig with
      | none => .error .signatureMalformed
      | some recovered =>
        if recovered ≠ signer then
          countSignatures approved verdictHash rest seen
        else
          countSignatures approved verdictHash rest (seen ++ [signer])

def countVerifiedSignatures (verdictHash : Bytes32) (signers : List Address)
    (sigs : List Bytes) : Except VerifierError ℕ :=
  if signers.length ≠ sigs.length then .ok 0
  else if maxVerdictSigners < signers.length then .ok 0
  else countSignatures recover deployment.verifier.approvedAdjudicators
    verdictHash (signers.zip sigs) []

/-- The checks which `finalizeUpheld` and `finalizeRejected` share: an open
dispute, a quorum for the outcome, and evidence which again gives it. -/
def checkVerdict (disputeId : UInt64) (reEvidenceBlob : Bytes)
    (signerHint : Address) (signers : List Address) (sigs : List Bytes)
    (outcome : Verdict) (evidenceError : VerifierError) : Except VerifierError Unit := do
  let dispute := state.disputes disputeId
  revertIf (dispute.challenger = 0) .unknownDispute
  revertIf (dispute.status ≠ .open) .alreadyDecided
  revertIf (maxVerdictSigners < signers.length) (.tooManySigners signers.length maxVerdictSigners)
  let verified ← countVerifiedSignatures recover deployment
    (verdictDigest deployment disputeId outcome) signers sigs
  revertIf (verified < deployment.verifier.quorumThreshold.toNat)
    (.quorumNotMet verified deployment.verifier.quorumThreshold)
  let verdict ← runClaimVerifier recover deployment identities dispute reEvidenceBlob signerHint
  revertIf (verdict ≠ outcome) evidenceError

def State.decide (disputeId : UInt64) (status : DisputeStatus) : State :=
  { state with
    disputes := Function.update state.disputes disputeId
      { state.disputes disputeId with status := status } }

def finalizeUpheld (disputeId : UInt64) (reEvidenceBlob : Bytes)
    (signerHint : Address) (signers : List Address) (sigs : List Bytes)
    (challengerAccepts burnAccepts : Bool) : Except VerifierError State := do
  checkVerdict recover deployment identities state disputeId reEvidenceBlob
    signerHint signers sigs .upheld .evidenceNotUpheld
  let dispute := state.disputes disputeId
  let escrow ← (Stake.slash deployment.stake deployment.verifier.self
    state.escrow disputeId dispute.challenger challengerAccepts burnAccepts).mapError .stake
  let ledger ← (Bridge.revertToPriorRoot deployment.bridge deployment.verifier.self state.ledger 0
    dispute.impugnedLogIndex).mapError .bridge
  return { state.decide disputeId .upheld with
    escrow := escrow
    ledger := ledger }

def finalizeRejected (disputeId : UInt64) (reEvidenceBlob : Bytes)
    (signerHint : Address) (signers : List Address) (sigs : List Bytes) :
    Except VerifierError State := do
  checkVerdict recover deployment identities state disputeId reEvidenceBlob
    signerHint signers sigs .rejected .evidenceNotRejected
  return state.decide disputeId .rejected

end Verdicts

/-! ## What a finalisation requires -/

section Effects

variable {recover : Recover} {deployment : Deployment}
  {identities : Identities} {state next : State} {disputeId : UInt64} {reEvidenceBlob : Bytes}
  {signerHint : Address} {signers : List Address} {sigs : List Bytes}

theorem checkVerdict_eq_ok {outcome : Verdict} {evidenceError : VerifierError} {done : Unit} :
    checkVerdict recover deployment identities state disputeId
        reEvidenceBlob signerHint signers sigs outcome evidenceError = .ok done ↔
    (state.disputes disputeId).challenger ≠ 0 ∧ (state.disputes disputeId).status = .open ∧
      signers.length ≤ maxVerdictSigners ∧
      (∃ verified, countVerifiedSignatures recover deployment
          (verdictDigest deployment disputeId outcome) signers sigs = .ok verified ∧
        deployment.verifier.quorumThreshold.toNat ≤ verified) ∧
      runClaimVerifier recover deployment identities
        (state.disputes disputeId) reEvidenceBlob signerHint = .ok outcome := by
  simp only [checkVerdict, bind_eq_ok, revertIf_eq_ok, exists_const, ne_eq, not_not, Nat.not_lt]
  constructor
  · rintro ⟨hknown, hopen, hsigners, verified, hcount, hquorum, verdict, hverdict, rfl⟩
    exact ⟨hknown, hopen, hsigners, ⟨verified, hcount, hquorum⟩, hverdict⟩
  · rintro ⟨hknown, hopen, hsigners, ⟨verified, hcount, hquorum⟩, hverdict⟩
    exact ⟨hknown, hopen, hsigners, verified, hcount, hquorum, outcome, hverdict, rfl⟩

structure Upheld (recover : Recover) (deployment : Deployment)
    (identities : Identities) (state next : State) (disputeId : UInt64)
    (reEvidenceBlob : Bytes) (signerHint : Address) : Prop where
  wasOpen : (state.disputes disputeId).status = .open
  evidence : runClaimVerifier recover deployment identities
    (state.disputes disputeId) reEvidenceBlob signerHint = .ok .upheld
  decided : next.disputes = (state.decide disputeId .upheld).disputes
  slashed : Stake.Slashed deployment.stake state.escrow next.escrow disputeId
    deployment.verifier.self
  rolledBack : Bridge.revertToPriorRoot deployment.bridge deployment.verifier.self state.ledger 0
    (state.disputes disputeId).impugnedLogIndex = .ok next.ledger

theorem finalizeUpheld_effect {challengerAccepts burnAccepts : Bool}
    (hcall : finalizeUpheld recover deployment identities state disputeId
      reEvidenceBlob signerHint signers sigs challengerAccepts burnAccepts = .ok next) :
    Upheld recover deployment identities state next disputeId reEvidenceBlob
      signerHint := by
  simp only [finalizeUpheld, bind_eq_ok, exists_const, checkVerdict_eq_ok,
    mapError_eq_ok, pure_eq_ok] at hcall
  obtain ⟨⟨_, hopen, _, _, hverdict⟩, escrow, hslash, ledger, hrollback, hnext⟩ := hcall
  subst hnext
  exact {
    wasOpen := hopen
    evidence := hverdict
    decided := rfl
    slashed := Stake.slash_effect hslash
    rolledBack := hrollback }

end Effects

end Dispute
end Canon
