import Canon.CbeCodec
import Canon.KeccakSponge

/-!
# The wire encoding of actions

The ingestor's encoder writes the constructor tag of an action and then its
fields in the order of their declaration.  A field is a `u64`, a `u128` which
has to fit in 64 bits, or a byte string whose length has to.
-/

namespace Canon
namespace Ingest

open List

abbrev ActorId := UInt64

abbrev ResourceId := UInt64

abbrev Amount := BitVec 128

abbrev Nonce := BitVec 128

abbrev LogIndex := UInt64

abbrev DepositId := UInt64

/-- The variants which the encoder knows.  Disputes, verdicts and declared
policies are not among them. -/
inductive Action where
  | transfer (r : ResourceId) (sender receiver : ActorId) (amount : Amount)
  | mint (r : ResourceId) («to» : ActorId) (amount : Amount)
  | burn (r : ResourceId) (fromActor : ActorId) (amount : Amount)
  | freezeResource (r : ResourceId)
  | replaceKey (actor : ActorId) (newKey : Bytes)
  | reward (r : ResourceId) («to» : ActorId) (amount : Amount)
  | distributeOthers (r : ResourceId) (excluded : ActorId) (amount : Amount)
  | proportionalDilute (r : ResourceId) (excluded : ActorId) (totalReward : Amount)
  | disputeWithdraw (idx : LogIndex)
  | rollback (targetIdx : LogIndex)
  | registerIdentity (actor : ActorId) (pk : Bytes)
  | deposit (r : ResourceId) (recipient : ActorId) (amount : Amount) (depositId : DepositId)
  | withdraw (r : ResourceId) (sender : ActorId) (amount : Amount) (recipientL1 : Address)
  | revokeLocalPolicy
  | faultProofChallenge (bindingHash : Bytes)
      (disputedStartIdx disputedEndIdx : LogIndex) (challengerCommit : Bytes)
  | faultProofResolution (bindingHash : Bytes) (gameId : BitVec 128)
      (winner : ActorId) (revertFromIdx : LogIndex)
  deriving DecidableEq

def Action.tag : Action → UInt64
  | .transfer .. => 0
  | .mint .. => 1
  | .burn .. => 2
  | .freezeResource .. => 3
  | .replaceKey .. => 4
  | .reward .. => 5
  | .distributeOthers .. => 6
  | .proportionalDilute .. => 7
  | .disputeWithdraw .. => 9
  | .rollback .. => 11
  | .registerIdentity .. => 12
  | .deposit .. => 13
  | .withdraw .. => 14
  | .revokeLocalPolicy => 16
  | .faultProofChallenge .. => 17
  | .faultProofResolution .. => 18

inductive EncodeError where
  | fieldExceedsBound (value : BitVec 128)
  | lengthExceedsBound (len : ℕ)
  deriving DecidableEq

/-! ## Items -/

def cbeTagUint : UInt8 := 0x00

def cbeTagBytes : UInt8 := 0x02

def writeU64Le (n : UInt64) : Bytes := leBytes 8 n.toNat

def writeHead (tag : UInt8) (n : UInt64) : Bytes := tag :: writeU64Le n

def encodeU64 (value : UInt64) : Bytes := writeHead cbeTagUint value

def encodeU128Checked (value : BitVec 128) : Option Bytes :=
  if 1#128 <<< 64 ≤ value then none
  else some (encodeU64 (UInt64.ofNat value.toNat))

def encodeBytesChecked (bytes : Bytes) : Option Bytes :=
  if bytes.length < 2 ^ 64 then
    some (writeHead cbeTagBytes (UInt64.ofNat bytes.length) ++ bytes)
  else none

def encodeAmount (amount : BitVec 128) : Except EncodeError Bytes :=
  match encodeU128Checked amount with
  | some encoded => .ok encoded
  | none => .error (.fieldExceedsBound amount)

def encodeByteString (bytes : Bytes) : Except EncodeError Bytes :=
  match encodeBytesChecked bytes with
  | some encoded => .ok encoded
  | none => .error (.lengthExceedsBound bytes.length)

/-! ## Actions -/

inductive WireField where
  | u64 (value : UInt64)
  | u128 (value : BitVec 128)
  | bytes (payload : Bytes)
  deriving DecidableEq

def WireField.encode : WireField → Except EncodeError Bytes
  | .u64 value => .ok (encodeU64 value)
  | .u128 value => encodeAmount value
  | .bytes payload => encodeByteString payload

/-- What the match of `encode_action` appends after the tag. -/
def Action.fields : Action → List WireField
  | .transfer r sender receiver amount =>
    [.u64 r, .u64 sender, .u64 receiver, .u128 amount]
  | .mint r «to» amount => [.u64 r, .u64 «to», .u128 amount]
  | .burn r fromActor amount => [.u64 r, .u64 fromActor, .u128 amount]
  | .freezeResource r => [.u64 r]
  | .replaceKey actor newKey => [.u64 actor, .bytes newKey]
  | .reward r «to» amount => [.u64 r, .u64 «to», .u128 amount]
  | .distributeOthers r excluded amount =>
    [.u64 r, .u64 excluded, .u128 amount]
  | .proportionalDilute r excluded totalReward =>
    [.u64 r, .u64 excluded, .u128 totalReward]
  | .disputeWithdraw idx => [.u64 idx]
  | .rollback targetIdx => [.u64 targetIdx]
  | .registerIdentity actor pk => [.u64 actor, .bytes pk]
  | .deposit r recipient amount depositId =>
    [.u64 r, .u64 recipient, .u128 amount, .u64 depositId]
  | .withdraw r sender amount recipientL1 =>
    [.u64 r, .u64 sender, .u128 amount, .bytes (beBytes 20 recipientL1.toNat)]
  | .revokeLocalPolicy => []
  | .faultProofChallenge bindingHash disputedStartIdx disputedEndIdx challengerCommit =>
    [.bytes bindingHash, .u64 disputedStartIdx, .u64 disputedEndIdx, .bytes challengerCommit]
  | .faultProofResolution bindingHash gameId winner revertFromIdx =>
    [.bytes bindingHash, .u128 gameId, .u64 winner, .u64 revertFromIdx]

def encodeFields (out : Bytes) : List WireField → Except EncodeError Bytes
  | [] => .ok out
  | field :: rest => do
      let encoded ← field.encode
      encodeFields (out ++ encoded) rest

def encodeAction (action : Action) : Except EncodeError Bytes :=
  encodeFields (encodeU64 action.tag) action.fields

/-! ## Signed actions -/

def signedActionDomain : Bytes :=
  asciiBytes "legalkernel/v1/signedaction"

def signingInput (action : Action) (signer : ActorId) (nonce : Nonce)
    (deploymentId : Bytes) : Except EncodeError Bytes := do
  let domain ← encodeByteString signedActionDomain
  let deployment ← encodeByteString deploymentId
  let encoded ← encodeAction action
  let last ← encodeAmount nonce
  return domain ++ deployment ++ encoded ++ encodeU64 signer ++ last

def encodeSignedAction (action : Action) (signer : ActorId) (nonce : Nonce)
    (sig : Bytes) : Except EncodeError Bytes := do
  let encoded ← encodeAction action
  let number ← encodeAmount nonce
  let signature ← encodeByteString sig
  return encoded ++ encodeU64 signer ++ number ++ signature

/-! ## When the encoder succeeds -/

variable {encoded : Bytes} {action : Action} {signer : ActorId} {nonce : Nonce}
  {deploymentId : Bytes}

theorem encodeU64_eq_encodeUint (value : UInt64) : encodeU64 value = Cbe.encodeUint value := rfl

theorem encodeU128Checked_eq_some {value : BitVec 128} :
    encodeU128Checked value = some encoded ↔
      value.toNat < 2 ^ 64 ∧ encoded = Cbe.encodeUint (UInt64.ofNat value.toNat) := by
  have hbound : 1#128 <<< 64 ≤ value ↔ 2 ^ 64 ≤ value.toNat := by
    rfl
  unfold encodeU128Checked
  rw [encodeU64_eq_encodeUint]
  split
  · simp_all
  · simp_all [eq_comm]

theorem encodeBytesChecked_eq_some {bytes : Bytes} :
    encodeBytesChecked bytes = some encoded ↔
      bytes.length < 2 ^ 64 ∧ encoded = Cbe.encodeBytes bytes := by
  unfold encodeBytesChecked
  split
  · simp_all only [Option.some.injEq, true_and]
    exact eq_comm
  · simp_all

def WireField.Bounded : WireField → Prop
  | .u64 _ => True
  | .u128 value => value.toNat < 2 ^ 64
  | .bytes payload => payload.length < 2 ^ 64

def WireField.toBytes : WireField → Bytes
  | .u64 value => Cbe.encodeUint value
  | .u128 value => Cbe.encodeUint (UInt64.ofNat value.toNat)
  | .bytes payload => Cbe.encodeBytes payload

theorem WireField.encode_eq_ok {field : WireField} {encoded : Bytes} :
    field.encode = .ok encoded ↔ field.Bounded ∧ encoded = field.toBytes := by
  cases field with
  | u64 =>
    simp [WireField.encode, WireField.Bounded, WireField.toBytes, encodeU64_eq_encodeUint, eq_comm]
  | u128 value =>
    rw [WireField.Bounded, WireField.toBytes, ← encodeU128Checked_eq_some]
    simp only [WireField.encode, encodeAmount]
    cases encodeU128Checked value <;> simp
  | bytes payload =>
    rw [WireField.Bounded, WireField.toBytes, ← encodeBytesChecked_eq_some]
    simp only [WireField.encode, encodeByteString]
    cases encodeBytesChecked payload <;> simp

theorem encodeFields_eq_ok {fields : List WireField} {out : Bytes} :
    encodeFields out fields = .ok encoded ↔
      (∀ field ∈ fields, field.Bounded) ∧ encoded = out ++ fields.flatMap WireField.toBytes := by
  induction fields generalizing out with
  | nil => simp [encodeFields, eq_comm]
  | cons _ _ ih =>
    simp only [encodeFields, bind_eq_ok, WireField.encode_eq_ok, ih, forall_mem_cons, flatMap_cons]
    constructor
    · rintro ⟨_, ⟨hfield, rfl⟩, hrest, rfl⟩
      exact ⟨⟨hfield, hrest⟩, append_assoc _ _ _⟩
    · rintro ⟨⟨hfield, hrest⟩, rfl⟩
      exact ⟨_, ⟨hfield, rfl⟩, hrest, (append_assoc _ _ _).symm⟩

theorem encodeAction_eq_ok :
    encodeAction action = .ok encoded ↔
      (∀ field ∈ action.fields, field.Bounded) ∧
        encoded = Cbe.encodeUint action.tag ++ action.fields.flatMap WireField.toBytes := by
  rw [encodeAction, encodeFields_eq_ok, encodeU64_eq_encodeUint]

def Action.items (action : Action) : List WireField := .u64 action.tag :: action.fields

def signingItems (action : Action) (signer : ActorId) (nonce : Nonce)
    (deploymentId : Bytes) : List WireField := [.bytes signedActionDomain, .bytes deploymentId] ++
    action.items ++ [.u64 signer, .u128 nonce]

def signedItems (action : Action) (signer : ActorId) (nonce : Nonce)
    (sig : Bytes) : List WireField := action.items ++ [.u64 signer, .u128 nonce, .bytes sig]

theorem encodeByteString_eq_ok {payload : Bytes} :
    encodeByteString payload = .ok encoded ↔
      payload.length < 2 ^ 64 ∧ encoded = Cbe.encodeBytes payload :=
  @WireField.encode_eq_ok (.bytes payload) encoded

theorem encodeAmount_eq_ok {amount : BitVec 128} :
    encodeAmount amount = .ok encoded ↔
      amount.toNat < 2 ^ 64 ∧ encoded = Cbe.encodeUint (UInt64.ofNat amount.toNat) :=
  @WireField.encode_eq_ok (.u128 amount) encoded

theorem signingItems_bounded :
    (∀ field ∈ signingItems action signer nonce deploymentId, field.Bounded) ↔
      deploymentId.length < 2 ^ 64 ∧ (∀ field ∈ action.fields, field.Bounded) ∧
        nonce.toNat < 2 ^ 64 := by
  have hdomain : signedActionDomain.length < 2 ^ 64 := by decide
  simp only [signingItems, Action.items, forall_mem_append, forall_mem_cons, WireField.Bounded]
  constructor
  · rintro ⟨⟨⟨_, hdeployment, _⟩, _, hfields⟩, _, hnonce, _⟩
    exact ⟨hdeployment, hfields, hnonce⟩
  · rintro ⟨hdeployment, hfields, hnonce⟩
    exact ⟨⟨⟨hdomain, hdeployment, forall_mem_nil _⟩, trivial, hfields⟩,
      trivial, hnonce, forall_mem_nil _⟩

theorem signingInput_eq_ok :
    signingInput action signer nonce deploymentId = .ok encoded ↔
      (∀ field ∈ signingItems action signer nonce deploymentId, field.Bounded) ∧
      encoded = (signingItems action signer nonce deploymentId).flatMap WireField.toBytes := by
  rw [signingItems_bounded]
  simp only [signingInput, bind_eq_ok, encodeByteString_eq_ok,
    encodeAction_eq_ok, encodeAmount_eq_ok, pure_eq_ok, signingItems,
    Action.items, encodeU64_eq_encodeUint]
  constructor
  · rintro ⟨_, ⟨_, rfl⟩, _, ⟨hdeployment, rfl⟩, _, ⟨hfields, rfl⟩, _, ⟨hnonce, rfl⟩, rfl⟩
    exact ⟨⟨hdeployment, hfields, hnonce⟩, by simp [WireField.toBytes]⟩
  · rintro ⟨⟨hdeployment, hfields, hnonce⟩, rfl⟩
    refine ⟨_, ⟨by decide, rfl⟩, _, ⟨hdeployment, rfl⟩, _, ⟨hfields, rfl⟩, _, ⟨hnonce, rfl⟩, ?_⟩
    simp [WireField.toBytes]

theorem encodeSignedAction_eq_ok {sig : Bytes} :
    encodeSignedAction action signer nonce sig = .ok encoded ↔
      (∀ field ∈ signedItems action signer nonce sig, field.Bounded) ∧
      encoded = (signedItems action signer nonce sig).flatMap WireField.toBytes := by
  simp only [encodeSignedAction, bind_eq_ok, encodeByteString_eq_ok,
    encodeAction_eq_ok, encodeAmount_eq_ok, pure_eq_ok, signedItems,
    Action.items, encodeU64_eq_encodeUint]
  constructor
  · rintro ⟨_, ⟨hfields, rfl⟩, _, ⟨hnonce, rfl⟩, _, ⟨hsig, rfl⟩, rfl⟩
    refine ⟨?_, by simp [WireField.toBytes]⟩
    simp only [forall_mem_append, forall_mem_cons, WireField.Bounded]
    exact ⟨⟨trivial, hfields⟩, trivial, hnonce, hsig, forall_mem_nil _⟩
  · rintro ⟨hbounded, rfl⟩
    simp only [forall_mem_append, forall_mem_cons, WireField.Bounded] at hbounded
    obtain ⟨⟨_, hfields⟩, _, hnonce, hsig, _⟩ := hbounded
    refine ⟨_, ⟨hfields, rfl⟩, _, ⟨hnonce, rfl⟩, _, ⟨hsig, rfl⟩, ?_⟩
    simp [WireField.toBytes]

end Ingest
end Canon
