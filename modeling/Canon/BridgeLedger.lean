import Canon.Eip712Digests
import Canon.TransitionRuns
import Canon.WithdrawalProof

/-!
# The bridge contract

Deposits, attested state roots, withdrawals against finalised roots, and the
rollback hook of the dispute verifier, in the order of the source's checks.
Signature recovery is a parameter of the model.  Whether the migration contract is
activated, and what a token or a receiver of ether does with a transfer, are
arguments of a call.
-/

namespace Canon
namespace Bridge

open Cbe Function List

def resourceIdNativeEth : UInt64 := 0

structure ResourcesValid (resources : List (UInt64 × Address)) : Prop where
  ids_ne : ∀ entry ∈ resources, entry.1 ≠ resourceIdNativeEth
  tokens_ne : ∀ entry ∈ resources, entry.2 ≠ 0
  ids_nodup : (resources.map Prod.fst).Nodup
  tokens_nodup : (resources.map Prod.snd).Nodup

structure BridgeParams where
  canonVersionTag : Bytes32
  attestor : Address
  disputeVerifier : Address
  sequencerStake : Address
  migration : Address
  disputeWindowBlocks : UInt64
  maxRedemptionWindowBlocks : UInt64
  maxAttestationStaleBlocks : UInt64
  cooldownBlocks : UInt64
  tvlCap : ℕ
  resources : List (UInt64 × Address)
  chainId : ℕ
  self : Address
  redemption_le_dispute : maxRedemptionWindowBlocks ≤ disputeWindowBlocks
  attestor_ne_zero : attestor ≠ 0
  disputeVerifier_ne_zero : disputeVerifier ≠ 0
  sequencerStake_ne_zero : sequencerStake ≠ 0
  resourcesValid : ResourcesValid resources

def BridgeParams.deploymentId (params : BridgeParams) : Bytes32 :=
  keccak256 (abiWord params.chainId ++ abiAddress params.self ++ params.canonVersionTag.toBytes)

/-- `_resourceTokens`, zero for an id which is not registered. -/
def BridgeParams.resourceToken (params : BridgeParams) (resourceId : UInt64) : Address :=
  (params.resources.lookup resourceId).getD 0

/-- The constructor's loop over the two parallel arrays, with the entries
wired so far. -/
def wireResources : List (UInt64 × Address) → List (UInt64 × Address) →
    Except BridgeError (List (UInt64 × Address))
  | wired, [] => .ok wired
  | wired, (rid, tok) :: rest => do
      revertIf (rid = resourceIdNativeEth ∨ tok = 0) .unsupportedResource
      revertIf (rid ∈ wired.map Prod.fst) .unsupportedResource
      revertIf (tok ∈ wired.map Prod.snd) (.duplicateResourceToken tok)
      wireResources (wired ++ [(rid, tok)]) rest

theorem wireResources_valid {wired entries resources : List (UInt64 × Address)}
    (hwired : ResourcesValid wired) (hwire : wireResources wired entries = .ok resources) :
    ResourcesValid resources := by
  induction entries generalizing wired with
  | nil =>
    cases hwire
    exact hwired
  | cons entry _ ih =>
    simp only [wireResources, bind_eq_ok, revertIf_eq_ok, exists_const, not_or] at hwire
    obtain ⟨⟨hrid, htok⟩, hfreshId, hfreshToken, hrest⟩ := hwire
    refine ih ⟨?_, ?_, ?_, ?_⟩ hrest
    · intro other hother
      rcases mem_append.mp hother with hold | hnew
      · exact hwired.ids_ne other hold
      · rw [mem_singleton.mp hnew]
        exact hrid
    · intro other hother
      rcases mem_append.mp hother with hold | hnew
      · exact hwired.tokens_ne other hold
      · rw [mem_singleton.mp hnew]
        exact htok
    · rw [map_append, map_singleton, ← concat_eq_append]
      exact hwired.ids_nodup.concat hfreshId
    · rw [map_append, map_singleton, ← concat_eq_append]
      exact hwired.tokens_nodup.concat hfreshToken

structure ConstructorArgs where
  canonVersionTag : Bytes32
  attestor : Address
  disputeVerifier : Address
  sequencerStake : Address
  migration : Address
  disputeWindowBlocks : UInt64
  maxRedemptionWindowBlocks : UInt64
  maxAttestationStaleBlocks : UInt64
  cooldownBlocks : UInt64
  tvlCap : ℕ
  erc20ResourceIds : List UInt64
  erc20TokenAddrs : List Address

def BridgeParams.deploy (chainId : ℕ) (self : Address)
    (args : ConstructorArgs) : Except BridgeError BridgeParams :=
  if hwindow : args.disputeWindowBlocks < args.maxRedemptionWindowBlocks then
    .error .disputeWindowVsRedemption
  else if hattestor : args.attestor = 0 then .error .notAttestor
  else if hverifier : args.disputeVerifier = 0 then .error .notDisputeVerifier
  else if hstake : args.sequencerStake = 0 then .error .zeroSequencerStake
  else if args.erc20ResourceIds.length ≠ args.erc20TokenAddrs.length then
    .error .unsupportedResource
  else
    match hwire : wireResources [] (args.erc20ResourceIds.zip args.erc20TokenAddrs) with
    | .error error => .error error
    | .ok resources => .ok {
        canonVersionTag := args.canonVersionTag
        attestor := args.attestor
        disputeVerifier := args.disputeVerifier
        sequencerStake := args.sequencerStake
        migration := args.migration
        disputeWindowBlocks := args.disputeWindowBlocks
        maxRedemptionWindowBlocks := args.maxRedemptionWindowBlocks
        maxAttestationStaleBlocks := args.maxAttestationStaleBlocks
        cooldownBlocks := args.cooldownBlocks
        tvlCap := args.tvlCap
        resources := resources
        chainId := chainId
        self := self
        redemption_le_dispute := UInt64.not_lt.mp hwindow
        attestor_ne_zero := hattestor
        disputeVerifier_ne_zero := hverifier
        sequencerStake_ne_zero := hstake
        resourcesValid := wireResources_valid ⟨by simp, by simp, by simp, by simp⟩ hwire }

section Table

variable {params : BridgeParams} {resourceId other : UInt64} {token : Address}

theorem resourceToken_eq (hentry : (resourceId, token) ∈ params.resources) :
    params.resourceToken resourceId = token := by
  have hmem : (resourceId, params.resourceToken resourceId) ∈ params.resources := by
    unfold BridgeParams.resourceToken
    cases hlookup : params.resources.lookup resourceId with
    | none =>
      have hnone := lookup_eq_none_iff.mp hlookup _ hentry
      simp at hnone
    | some =>
      obtain ⟨before, after, hsplit, _⟩ := lookup_eq_some_iff.mp hlookup
      simp [hsplit]
  have hsame := inj_on_of_nodup_map params.resourcesValid.ids_nodup hmem hentry rfl
  exact congrArg Prod.snd hsame

theorem resourceToken_mem (hregistered : resourceId ∈ params.resources.map Prod.fst) :
    (resourceId, params.resourceToken resourceId) ∈ params.resources := by
  obtain ⟨⟨rid, token⟩, hentry, rfl⟩ := mem_map.mp hregistered
  rw [resourceToken_eq hentry]
  exact hentry

theorem resourceToken_ne_zero (hregistered : resourceId ∈ params.resources.map Prod.fst) :
    params.resourceToken resourceId ≠ 0 :=
  params.resourcesValid.tokens_ne _ (resourceToken_mem hregistered)

theorem registered_of_resourceToken_ne (htoken : params.resourceToken resourceId ≠ 0) :
    resourceId ∈ params.resources.map Prod.fst := by
  by_contra hnot
  apply htoken
  have hlookup : params.resources.lookup resourceId = none := by
    rw [lookup_eq_none_iff]
    intro entry hentry
    have hne : resourceId ≠ entry.1 := by
      intro heq
      exact hnot (mem_map.mpr ⟨entry, hentry, heq.symm⟩)
    simpa using hne
  rw [BridgeParams.resourceToken, hlookup, Option.getD_none]

theorem resourceToken_ne_of_ne (htoken : params.resourceToken resourceId ≠ 0)
    (hne : resourceId ≠ other) : params.resourceToken resourceId ≠ params.resourceToken other := by
  intro hshared
  have hfirst := resourceToken_mem (registered_of_resourceToken_ne htoken)
  rw [hshared] at htoken
  have hsecond := resourceToken_mem (registered_of_resourceToken_ne htoken)
  have hsame := inj_on_of_nodup_map params.resourcesValid.tokens_nodup hfirst hsecond hshared
  exact hne (congrArg Prod.fst hsame)

end Table

structure StateRootRecord where
  root : Bytes32
  logIndexHigh : UInt64
  submittedAtBlock : UInt64
  «exists» : Bool
  deriving DecidableEq

def StateRootRecord.unset : StateRootRecord := ⟨.zero, 0, 0, false⟩

structure Ledger where
  depositNonce : Address → UInt64
  stateRoots : UInt64 → StateRootRecord
  latestSubmittedLogIndexHigh : UInt64
  latestStateRootSubmittedAtBlock : UInt64
  lastUpheldDisputeBlock : UInt64
  lowestRevertedLogIndexHigh : UInt64
  revertedThroughLogIndexHigh : UInt64
  withdrawalLeafRedeemed : Bytes32 → Bool
  totalLockedValue : ℕ
  balance : ℕ
  blockNumber : ℕ

/-- The storage after construction: the reverted range is empty, with the
floor at the largest `uint64`. -/
def Ledger.initial (blockNumber : ℕ) : Ledger where
  depositNonce := fun _ => 0
  stateRoots := fun _ => .unset
  latestSubmittedLogIndexHigh := 0
  latestStateRootSubmittedAtBlock := 0
  lastUpheldDisputeBlock := 0
  lowestRevertedLogIndexHigh := 0xFFFFFFFFFFFFFFFF
  revertedThroughLogIndexHigh := 0
  withdrawalLeafRedeemed := fun _ => false
  totalLockedValue := 0
  balance := 0
  blockNumber := blockNumber

def Ledger.isStateRootReverted (ledger : Ledger) (logIndexHigh : UInt64) : Bool :=
  ledger.lowestRevertedLogIndexHigh ≤ logIndexHigh &&
    logIndexHigh ≤ ledger.revertedThroughLogIndexHigh

def Ledger.isStateRootFinalised (params : BridgeParams) (ledger : Ledger)
    (logIndexHigh : UInt64) : Bool :=
  let record := ledger.stateRoots logIndexHigh
  if !record.exists then false
  else if ledger.isStateRootReverted logIndexHigh then false
  else decide (record.submittedAtBlock.toNat +
    params.disputeWindowBlocks.toNat ≤ ledger.blockNumber)

/-- The lock-up test of the stake contract.  It looks at the latest root only,
and its sum is one of two `uint64`. -/
def Ledger.hasOpenDisputeOlderThan (params : BridgeParams) (ledger : Ledger)
    (thresholdBlock : UInt64) : Except BridgeError Bool :=
  if ledger.latestStateRootSubmittedAtBlock = 0 then .ok false
  else if ledger.latestStateRootSubmittedAtBlock ≤ thresholdBlock then
    .ok false
  else do
    let windowEnd ← checkedAdd64 .arithmeticPanic
      ledger.latestStateRootSubmittedAtBlock params.disputeWindowBlocks
    return decide (ledger.blockNumber < windowEnd.toNat)

section Functions

variable (recover : Recover) (params : BridgeParams) (sender : Address)
  (migrationActivated : Bool) (ledger : Ledger)

def circuitOpen : Except BridgeError Unit := do
  revertIf (ledger.latestStateRootSubmittedAtBlock ≠ 0 ∧
    ledger.latestStateRootSubmittedAtBlock.toNat +
      params.maxAttestationStaleBlocks.toNat < ledger.blockNumber) .attestationStale
  revertIf (ledger.lastUpheldDisputeBlock ≠ 0 ∧
    ledger.blockNumber < ledger.lastUpheldDisputeBlock.toNat +
      params.cooldownBlocks.toNat) .disputeCooldown
  revertIf (params.tvlCap < ledger.totalLockedValue) .tvlCapReached
  revertIf (params.migration ≠ 0 ∧ migrationActivated = true) .migrationActivated

def registerDeposit (amount : ℕ) : Except BridgeError Ledger := do
  let newTvl ← checkedAdd 256 .arithmeticPanic ledger.totalLockedValue amount
  revertIf (params.tvlCap < newTvl) .tvlCapReached
  return { ledger with
    totalLockedValue := newTvl
    depositNonce := update ledger.depositNonce sender (ledger.depositNonce sender + 1) }

def depositETH (value : ℕ) : Except BridgeError Ledger := do
  circuitOpen params migrationActivated ledger
  registerDeposit params sender { ledger with balance := ledger.balance + value } value

/-- `received` is the measured change of the token balance, `none` when the
token reverts. -/
def depositERC20 (value : ℕ) (resourceId : UInt64) (token : Address)
    (amount : ℕ) (received : Option ℕ) : Except BridgeError Ledger := do
  revertIf (value ≠ 0) .nonPayable
  circuitOpen params migrationActivated ledger
  revertIf (resourceId = resourceIdNativeEth ∨
    resourceId ∉ params.resources.map Prod.fst) .unsupportedResource
  revertIf (params.resourceToken resourceId ≠ token) .unsupportedResource
  match received with
  | none => .error .transferFailed
  | some measured => do
      revertIf (measured ≠ amount) (.transferAmountMismatch amount measured)
      registerDeposit params sender ledger amount

def stateRootDigest (root : Bytes32) (logIndexHigh : UInt64) : Bytes32 := Eip712.digest
    (Eip712.domainSeparator "CanonBridge" "1" params.chainId 0 params.self)
    (keccak256 (
      Eip712.textHash ("StateRoot(bytes32 root,uint64 logIndexHigh," ++
        "bytes32 deploymentId)") ++
      root.toBytes ++ abiWord logIndexHigh.toNat ++
      params.deploymentId.toBytes))

def submitStateRoot (value : ℕ) (root : Bytes32) (logIndexHigh : UInt64)
    (attestorSig : Bytes) : Except BridgeError Ledger := do
  revertIf (value ≠ 0) .nonPayable
  circuitOpen params migrationActivated ledger
  revertIf (logIndexHigh ≤ ledger.latestSubmittedLogIndexHigh) .nonMonotonic
  revertIf (attestorSig.length ≠ 65) .invalidSignatureLength
  match recover (stateRootDigest params root logIndexHigh) attestorSig with
  | none => .error .signatureInvalid
  | some recovered => do
      revertIf (recovered ≠ params.attestor) .notAttestor
      return { ledger with
        latestSubmittedLogIndexHigh := logIndexHigh
        latestStateRootSubmittedAtBlock := UInt64.ofNat ledger.blockNumber
        stateRoots := update ledger.stateRoots logIndexHigh
          ⟨root, logIndexHigh, UInt64.ofNat ledger.blockNumber, true⟩ }

/-- The last phase of a withdrawal: ether or the registered token. -/
def payWithdrawal (wd : PendingWithdrawal) (accepted : Bool) : Except BridgeError Ledger :=
  if wd.resourceId = resourceIdNativeEth then do
    revertIf (accepted = false ∨ ledger.balance < wd.amount.toNat) .transferFailed
    return { ledger with balance := ledger.balance - wd.amount.toNat }
  else do
    revertIf (params.resourceToken wd.resourceId = 0) .unsupportedResource
    revertIf (accepted = false) .transferFailed
    return ledger

def checkFinalised (atLogIndexHigh : UInt64) : Except BridgeError Unit :=
  if ledger.isStateRootFinalised params atLogIndexHigh then .ok ()
  else do
    revertIf ((ledger.stateRoots atLogIndexHigh).exists = false) .unknownStateRoot
    revertIf (ledger.isStateRootReverted atLogIndexHigh = true) .stateRootReverted
    .error .preFinalisation

def withdrawWithProof (value : ℕ) (atLogIndexHigh : UInt64)
    (proofBlob leafBlob : Bytes) (accepted : Bool) : Except BridgeError Ledger := do
  revertIf (value ≠ 0) .nonPayable
  let wd ← (decodePendingWithdrawal leafBlob).mapError .cbe
  revertIf (wd.recipientL1 = 0) .invalidRecipient
  checkFinalised params ledger atLogIndexHigh
  let root := (ledger.stateRoots atLogIndexHigh).root
  let leafHash := keccak256 leafBlob
  revertIf (ledger.withdrawalLeafRedeemed leafHash = true) .alreadyRedeemed
  let (proofLeaf, proofIndex, siblings) ← decodeWithdrawalProof proofBlob
  revertIf (keccak256 proofLeaf ≠ leafHash) .invalidProof
  revertIf (proofIndex ≠ wd.l2LogIndex) .invalidProof
  let verified ← verifyProof proofIndex.toNat proofLeaf siblings root
  revertIf (verified = false) .invalidProof
  revertIf (ledger.totalLockedValue < wd.amount.toNat)
    (.bridgeAccountingMismatch ledger.totalLockedValue wd.amount.toNat)
  payWithdrawal params
    { ledger with
      withdrawalLeafRedeemed := update ledger.withdrawalLeafRedeemed leafHash true
      totalLockedValue := ledger.totalLockedValue - wd.amount.toNat }
    wd accepted

def revertToPriorRoot (value : ℕ) (disputedLogIndexHigh : UInt64) : Except BridgeError Ledger := do
  revertIf (value ≠ 0) .nonPayable
  revertIf (sender ≠ params.disputeVerifier) .notDisputeVerifier
  return { ledger with
    lowestRevertedLogIndexHigh :=
      if disputedLogIndexHigh < ledger.lowestRevertedLogIndexHigh then
        disputedLogIndexHigh
      else ledger.lowestRevertedLogIndexHigh
    revertedThroughLogIndexHigh :=
      if ledger.revertedThroughLogIndexHigh < ledger.latestSubmittedLogIndexHigh then
        ledger.latestSubmittedLogIndexHigh
      else ledger.revertedThroughLogIndexHigh
    lastUpheldDisputeBlock := UInt64.ofNat ledger.blockNumber }

end Functions

inductive BridgeCall where
  | mine (blocks : ℕ)
  | depositETH (sender : Address) (value : ℕ) (migrationActivated : Bool)
  | depositERC20 (sender : Address) (value : ℕ) (migrationActivated : Bool)
      (resourceId : UInt64) (token : Address) (amount : ℕ) (received : Option ℕ)
  | submitStateRoot (value : ℕ) (migrationActivated : Bool) (root : Bytes32)
      (logIndexHigh : UInt64) (attestorSig : Bytes)
  | withdrawWithProof (value : ℕ) (atLogIndexHigh : UInt64)
      (proofBlob leafBlob : Bytes) (accepted : Bool)
  | revertToPriorRoot (sender : Address) (value : ℕ) (disputedLogIndexHigh : UInt64)
  deriving DecidableEq

def bridgeStep (recover : Recover) (params : BridgeParams)
    (ledger : Ledger) : BridgeCall → Except BridgeError Ledger
  | .mine blocks =>
    .ok { ledger with blockNumber := ledger.blockNumber + blocks }
  | .depositETH sender value migrationActivated =>
    depositETH params sender migrationActivated ledger value
  | .depositERC20 sender value migrationActivated resourceId token amount received =>
    depositERC20 params sender migrationActivated ledger value resourceId token amount received
  | .submitStateRoot value migrationActivated root logIndexHigh attestorSig =>
    submitStateRoot recover params migrationActivated ledger value root logIndexHigh attestorSig
  | .withdrawWithProof value atLogIndexHigh proofBlob leafBlob accepted =>
    withdrawWithProof params ledger value atLogIndexHigh proofBlob leafBlob accepted
  | .revertToPriorRoot sender value disputedLogIndexHigh =>
    revertToPriorRoot params sender ledger value disputedLogIndexHigh

/-! ## What a successful call has checked and written -/

section Effects

variable {recover : Recover} {params : BridgeParams} {ledger next : Ledger}

/-- The part of the storage that the finality of roots depends on, apart from
the time, is the same. -/
structure SameRoots (before after : Ledger) : Prop where
  stateRoots : after.stateRoots = before.stateRoots
  latest : after.latestSubmittedLogIndexHigh = before.latestSubmittedLogIndexHigh
  floor : after.lowestRevertedLogIndexHigh = before.lowestRevertedLogIndexHigh
  ceiling : after.revertedThroughLogIndexHigh = before.revertedThroughLogIndexHigh

variable {sender : Address} {migrationActivated : Bool} {value : ℕ} {amount : ℕ}
  {atLogIndexHigh : UInt64} {accepted : Bool}

theorem registerDeposit_effect (hcall : registerDeposit params sender ledger amount = .ok next) :
    SameRoots ledger next ∧ next.blockNumber = ledger.blockNumber ∧
      next.withdrawalLeafRedeemed = ledger.withdrawalLeafRedeemed := by
  simp only [registerDeposit, bind_eq_ok, checkedAdd_eq_ok, revertIf_eq_ok,
    exists_const, pure_eq_ok] at hcall
  obtain ⟨newTvl, _, _, hnext⟩ := hcall
  subst hnext
  exact ⟨⟨rfl, rfl, rfl, rfl⟩, rfl, rfl⟩

theorem depositETH_effect
    (hcall : depositETH params sender migrationActivated ledger value = .ok next) :
    SameRoots ledger next ∧ next.blockNumber = ledger.blockNumber ∧
      next.withdrawalLeafRedeemed = ledger.withdrawalLeafRedeemed := by
  simp only [depositETH, bind_eq_ok] at hcall
  obtain ⟨_, _, hregister⟩ := hcall
  obtain ⟨hroots, hblock, hredeemed⟩ := registerDeposit_effect hregister
  exact ⟨⟨hroots.stateRoots, hroots.latest, hroots.floor, hroots.ceiling⟩, hblock, hredeemed⟩

theorem depositERC20_effect {resourceId : UInt64} {token : Address} {received : Option ℕ}
    (hcall : depositERC20 params sender migrationActivated ledger value
      resourceId token amount received = .ok next) :
    SameRoots ledger next ∧ next.blockNumber = ledger.blockNumber ∧
      next.withdrawalLeafRedeemed = ledger.withdrawalLeafRedeemed := by
  simp only [depositERC20, bind_eq_ok, revertIf_eq_ok, exists_const] at hcall
  obtain ⟨_, _, _, _, _, hreceived⟩ := hcall
  cases received with
  | none => cases hreceived
  | some =>
    simp only [bind_eq_ok, revertIf_eq_ok, exists_const] at hreceived
    exact registerDeposit_effect hreceived.2

theorem submitStateRoot_effect {root : Bytes32} {logIndexHigh : UInt64} {attestorSig : Bytes}
    (hcall : submitStateRoot recover params migrationActivated ledger value
      root logIndexHigh attestorSig = .ok next) :
    ledger.latestSubmittedLogIndexHigh < logIndexHigh ∧
      next = { ledger with
        latestSubmittedLogIndexHigh := logIndexHigh
        latestStateRootSubmittedAtBlock := UInt64.ofNat ledger.blockNumber
        stateRoots := update ledger.stateRoots logIndexHigh
          ⟨root, logIndexHigh, UInt64.ofNat ledger.blockNumber, true⟩ } := by
  simp only [submitStateRoot, bind_eq_ok, revertIf_eq_ok, exists_const] at hcall
  obtain ⟨_, _, _, hmonotonic, _, hrecover⟩ := hcall
  split at hrecover
  · cases hrecover
  · simp only [bind_eq_ok, revertIf_eq_ok, exists_const, pure_eq_ok] at hrecover
    exact ⟨UInt64.not_le.mp hmonotonic, hrecover.2.symm⟩

theorem checkFinalised_eq_ok {done : Unit} :
    checkFinalised params ledger atLogIndexHigh = .ok done ↔
      ledger.isStateRootFinalised params atLogIndexHigh = true := by
  unfold checkFinalised
  split
  · simp_all
  · simp [bind_eq_ok, *]

theorem payWithdrawal_effect {wd : PendingWithdrawal}
    (hpay : payWithdrawal params ledger wd accepted = .ok next) :
    SameRoots ledger next ∧ next.blockNumber = ledger.blockNumber ∧
      next.withdrawalLeafRedeemed = ledger.withdrawalLeafRedeemed := by
  unfold payWithdrawal at hpay
  split at hpay <;>
    simp only [bind_eq_ok, revertIf_eq_ok, exists_const, pure_eq_ok] at hpay
  · obtain ⟨_, hnext⟩ := hpay
    subst hnext
    exact ⟨⟨rfl, rfl, rfl, rfl⟩, rfl, rfl⟩
  · obtain ⟨_, _, hnext⟩ := hpay
    subst hnext
    exact ⟨⟨rfl, rfl, rfl, rfl⟩, rfl, rfl⟩

structure Withdrawn (params : BridgeParams) (ledger next : Ledger)
    (atLogIndexHigh : UInt64) (proofBlob leafBlob : Bytes) : Prop where
  finalised : ledger.isStateRootFinalised params atLogIndexHigh = true
  fresh : ledger.withdrawalLeafRedeemed (keccak256 leafBlob) = false
  redeemed : next.withdrawalLeafRedeemed = update
    ledger.withdrawalLeafRedeemed (keccak256 leafBlob) true
  sameRoots : SameRoots ledger next
  blockNumber : next.blockNumber = ledger.blockNumber
  proven : ∃ (wd : PendingWithdrawal) (proofLeaf : Bytes) (siblings : List Bytes),
    leafBlob = wd.encode ∧ wd.recipientL1 ≠ 0 ∧
      decodeWithdrawalProof proofBlob = .ok (proofLeaf, wd.l2LogIndex, siblings) ∧
      keccak256 proofLeaf = keccak256 leafBlob ∧
      verifyProof wd.l2LogIndex.toNat proofLeaf siblings
        (ledger.stateRoots atLogIndexHigh).root = .ok true

theorem withdrawWithProof_effect {proofBlob leafBlob : Bytes}
    (hcall : withdrawWithProof params ledger value atLogIndexHigh proofBlob
      leafBlob accepted = .ok next) :
    Withdrawn params ledger next atLogIndexHigh proofBlob leafBlob := by
  simp only [withdrawWithProof, bind_eq_ok, revertIf_eq_ok, exists_const,
    mapError_eq_ok, decodePendingWithdrawal_eq_ok, checkFinalised_eq_ok,
    Prod.exists, ne_eq, not_not, Bool.not_eq_true, Bool.not_eq_false] at hcall
  obtain ⟨_, wd, hleaf, hrecipient, hfinalised, hfresh, proofLeaf,
    proofIndex, siblings, hdecode, hhash, hindex, verified, hverify, hverified, _, hpay⟩ := hcall
  obtain ⟨hroots, hblock, hredeemed⟩ := payWithdrawal_effect hpay
  subst hindex hverified
  exact ⟨hfinalised, hfresh, hredeemed,
    ⟨hroots.stateRoots, hroots.latest, hroots.floor, hroots.ceiling⟩, hblock,
    ⟨wd, proofLeaf, siblings, hleaf, hrecipient, hdecode, hhash, hverify⟩⟩

theorem revertToPriorRoot_effect {disputedLogIndexHigh : UInt64}
    (hcall : revertToPriorRoot params sender ledger value disputedLogIndexHigh = .ok next) :
    sender = params.disputeVerifier ∧
      next = { ledger with
        lowestRevertedLogIndexHigh :=
          if disputedLogIndexHigh < ledger.lowestRevertedLogIndexHigh then
            disputedLogIndexHigh
          else ledger.lowestRevertedLogIndexHigh
        revertedThroughLogIndexHigh :=
          if ledger.revertedThroughLogIndexHigh < ledger.latestSubmittedLogIndexHigh then
            ledger.latestSubmittedLogIndexHigh
          else ledger.revertedThroughLogIndexHigh
        lastUpheldDisputeBlock := UInt64.ofNat ledger.blockNumber } := by
  simp only [revertToPriorRoot, bind_eq_ok, revertIf_eq_ok, exists_const,
    pure_eq_ok, ne_eq, not_not] at hcall
  obtain ⟨_, hsender, hnext⟩ := hcall
  exact ⟨hsender, hnext.symm⟩

theorem bridgeStep_cases {call : BridgeCall}
    (hstep : bridgeStep recover params ledger call = .ok next) :
    (∃ logIndexHigh root, ledger.latestSubmittedLogIndexHigh < logIndexHigh ∧
        next = { ledger with
          latestSubmittedLogIndexHigh := logIndexHigh
          latestStateRootSubmittedAtBlock := UInt64.ofNat ledger.blockNumber
          stateRoots := update ledger.stateRoots logIndexHigh
            ⟨root, logIndexHigh, UInt64.ofNat ledger.blockNumber, true⟩ } ∧
        ∀ sender value disputed, call ≠ .revertToPriorRoot sender value disputed) ∨
      (∃ sender value disputed, call = .revertToPriorRoot sender value disputed ∧
          revertToPriorRoot params sender ledger value disputed = .ok next) ∨
      (SameRoots ledger next ∧ ledger.blockNumber ≤ next.blockNumber ∧
        ∀ sender value disputed, call ≠ .revertToPriorRoot sender value disputed) := by
  cases call with
  | mine =>
    cases hstep
    exact .inr (.inr ⟨⟨rfl, rfl, rfl, rfl⟩, Nat.le_add_right _ _, by simp⟩)
  | depositETH =>
    obtain ⟨hroots, hblock, _⟩ := depositETH_effect hstep
    exact .inr (.inr ⟨hroots, hblock.ge, by simp⟩)
  | depositERC20 =>
    obtain ⟨hroots, hblock, _⟩ := depositERC20_effect hstep
    exact .inr (.inr ⟨hroots, hblock.ge, by simp⟩)
  | submitStateRoot _ _ root logIndexHigh =>
    obtain ⟨hmonotonic, hnext⟩ := submitStateRoot_effect hstep
    exact .inl ⟨logIndexHigh, root, hmonotonic, hnext, by simp⟩
  | withdrawWithProof =>
    have hwithdrawn := withdrawWithProof_effect hstep
    exact .inr (.inr ⟨hwithdrawn.sameRoots, hwithdrawn.blockNumber.ge, by simp⟩)
  | revertToPriorRoot sender value disputed =>
    exact .inr (.inl ⟨sender, value, disputed, rfl, hstep⟩)

end Effects

end Bridge
end Canon
