import Canon.BridgeLedger

/-!
# The sequencer's stake

The escrow which an upheld dispute slashes.  The whole stake goes at once: a
share to the challenger, the rest to the burn address.  Whether a receiver accepts
ether is an argument of a call.
-/

namespace Canon
namespace Stake

inductive StakeError where
  | notSequencer
  | notDisputeVerifier
  | insufficientStake
  | withdrawDuringOpenDispute
  | alreadySlashed (disputeId : UInt64)
  | slashRatioOutOfRange
  | zeroAddress
  | transferFailed
  | bareTransfer
  | arithmeticPanic
  | bridge (error : Bridge.BridgeError)
  deriving DecidableEq, Repr

structure StakeParams where
  sequencer : Address
  disputeVerifier : Address
  bridge : Address
  burnAddress : Address
  slashRatioBps : ℕ
  disputeWindowBlocks : UInt64
  self : Address
  ratio_le : slashRatioBps ≤ 10000
  sequencer_ne_zero : sequencer ≠ 0
  disputeVerifier_ne_zero : disputeVerifier ≠ 0
  bridge_ne_zero : bridge ≠ 0
  burnAddress_ne_zero : burnAddress ≠ 0

def StakeParams.deploy (self sequencer disputeVerifier bridge : Address)
    (slashRatioBps : ℕ) (disputeWindowBlocks : UInt64)
    (burnAddress : Address) : Except StakeError StakeParams :=
  if hratio : 10000 < slashRatioBps then .error .slashRatioOutOfRange
  else if hzero : sequencer = 0 ∨ disputeVerifier = 0 ∨ bridge = 0 ∨
      burnAddress = 0 then .error .zeroAddress
  else .ok {
    sequencer := sequencer
    disputeVerifier := disputeVerifier
    bridge := bridge
    burnAddress := burnAddress
    slashRatioBps := slashRatioBps
    disputeWindowBlocks := disputeWindowBlocks
    self := self
    ratio_le := Nat.not_lt.mp hratio
    sequencer_ne_zero := by tauto
    disputeVerifier_ne_zero := by tauto
    bridge_ne_zero := by tauto
    burnAddress_ne_zero := by tauto }

structure Escrow where
  totalStaked : ℕ
  slashedDispute : UInt64 → Bool
  balance : ℕ
  transfers : List (Address × ℕ)

def Escrow.initial (balance : ℕ) : Escrow := ⟨0, fun _ => false, balance, []⟩

section Functions

variable (params : StakeParams) (sender : Address) (escrow : Escrow)

/-- `Address.sendValue`. -/
def sendValue (recipient : Address) (amount : ℕ) (accepted : Bool) : Except StakeError Escrow := do
  revertIf (escrow.balance < amount ∨ accepted = false) .transferFailed
  return { escrow with
    balance := escrow.balance - amount
    transfers := escrow.transfers ++ [(recipient, amount)] }

def sendPositive (recipient : Address) (amount : ℕ) (accepted : Bool) : Except StakeError Escrow :=
  if 0 < amount then sendValue escrow recipient amount accepted
  else .ok escrow

def deposit (value : ℕ) : Except StakeError Escrow := do
  revertIf (sender ≠ params.sequencer) .notSequencer
  let totalStaked ← checkedAdd 256 .arithmeticPanic escrow.totalStaked value
  return { escrow with
    totalStaked := totalStaked
    balance := escrow.balance + value }

def withdraw (bridgeParams : Bridge.BridgeParams) (ledger : Bridge.Ledger)
    (amount : ℕ) (accepted : Bool) : Except StakeError Escrow := do
  revertIf (sender ≠ params.sequencer) .notSequencer
  revertIf (amount = 0 ∨ escrow.totalStaked < amount) .insufficientStake
  let threshold :=
    if params.disputeWindowBlocks.toNat < ledger.blockNumber then
      UInt64.ofNat (ledger.blockNumber - params.disputeWindowBlocks.toNat)
    else 0
  let locked ← (ledger.hasOpenDisputeOlderThan bridgeParams threshold).mapError .bridge
  revertIf (locked = true) .withdrawDuringOpenDispute
  sendValue { escrow with totalStaked := escrow.totalStaked - amount }
    params.sequencer amount accepted

def slash (disputeId : UInt64) (challenger : Address)
    (challengerAccepts burnAccepts : Bool) : Except StakeError Escrow := do
  revertIf (sender ≠ params.disputeVerifier) .notDisputeVerifier
  revertIf (escrow.slashedDispute disputeId = true) (.alreadySlashed disputeId)
  revertIf (challenger = 0) .zeroAddress
  let product ← checkedMul 256 .arithmeticPanic escrow.totalStaked params.slashRatioBps
  let paid := product / 10000
  let burned := escrow.totalStaked - paid
  let rewarded ← sendPositive
    { escrow with
      slashedDispute := Function.update escrow.slashedDispute disputeId true
      totalStaked := 0 }
    challenger paid challengerAccepts
  sendPositive rewarded params.burnAddress burned burnAccepts

def receiveEther : Except StakeError Escrow := .error .bareTransfer

end Functions

inductive StakeCall where
  | deposit (sender : Address) (value : ℕ)
  | withdraw (sender : Address) (ledger : Bridge.Ledger) (amount : ℕ) (accepted : Bool)
  | slash (sender : Address) (disputeId : UInt64) (challenger : Address)
      (challengerAccepts burnAccepts : Bool)
  | receiveEther
  | forcedEther (amount : ℕ)

/-- One call.  Ether can also arrive without a call, as a block reward or from
a destroyed contract. -/
def stakeStep (params : StakeParams) (bridgeParams : Bridge.BridgeParams)
    (escrow : Escrow) : StakeCall → Except StakeError Escrow
  | .deposit sender value => deposit params sender escrow value
  | .withdraw sender ledger amount accepted =>
    withdraw params sender escrow bridgeParams ledger amount accepted
  | .slash sender disputeId challenger challengerAccepts burnAccepts =>
    slash params sender escrow disputeId challenger challengerAccepts burnAccepts
  | .receiveEther => receiveEther
  | .forcedEther amount =>
    .ok { escrow with balance := escrow.balance + amount }

section Effects

variable {params : StakeParams} {bridgeParams : Bridge.BridgeParams} {escrow next final : Escrow}
  {sender challenger : Address} {disputeId : UInt64} {challengerAccepts burnAccepts : Bool}

theorem reward_le_stake (params : StakeParams) (stake : ℕ) :
    stake * params.slashRatioBps / 10000 ≤ stake := by
  have hle := Nat.mul_le_mul_left stake params.ratio_le
  exact Nat.div_le_of_le_mul (by omega)

theorem sendPositive_effect {recipient : Address} {amount : ℕ} {accepted : Bool}
    (hsend : sendPositive escrow recipient amount accepted = .ok next) :
    amount ≤ escrow.balance ∧
      next.balance = escrow.balance - amount ∧
      next.totalStaked = escrow.totalStaked ∧
      next.slashedDispute = escrow.slashedDispute := by
  unfold sendPositive at hsend
  split at hsend
  · simp only [sendValue, bind_eq_ok, revertIf_eq_ok, exists_const,
      pure_eq_ok, not_or, Nat.not_lt] at hsend
    obtain ⟨⟨hle, _⟩, hnext⟩ := hsend
    subst hnext
    exact ⟨hle, rfl, rfl, rfl⟩
  · cases hsend
    exact ⟨by omega, by omega, rfl, rfl⟩

/-- A slash takes the whole recorded stake, once for each dispute. -/
structure Slashed (params : StakeParams) (escrow next : Escrow)
    (disputeId : UInt64) (sender : Address) : Prop where
  authorised : sender = params.disputeVerifier
  fresh : escrow.slashedDispute disputeId = false
  marked : next.slashedDispute = Function.update escrow.slashedDispute disputeId true
  emptied : next.totalStaked = 0
  paid : escrow.balance = next.balance + escrow.totalStaked

theorem slash_effect (hcall : slash params sender escrow disputeId challenger
      challengerAccepts burnAccepts = .ok next) : Slashed params escrow next disputeId sender := by
  simp only [slash, bind_eq_ok, revertIf_eq_ok, exists_const, ne_eq, not_not,
    Bool.not_eq_true, checkedMul_eq_ok] at hcall
  obtain ⟨hsender, hfresh, _, product, ⟨_, rfl⟩, rewarded, hreward, hburn⟩ := hcall
  have hle := reward_le_stake params escrow.totalStaked
  obtain ⟨hpaid, hrewarded, hstaked, hslashed⟩ := sendPositive_effect hreward
  obtain ⟨hburned, hbalance, hnextStaked, hnextSlashed⟩ := sendPositive_effect hburn
  simp only at hpaid hrewarded
  exact {
    authorised := hsender
    fresh := hfresh
    marked := hnextSlashed.trans hslashed
    emptied := hnextStaked.trans hstaked
    paid := by omega }

def Solvent (escrow : Escrow) : Prop := escrow.totalStaked ≤ escrow.balance

theorem stakeStep_solvent {call : StakeCall} (hsolvent : Solvent escrow)
    (hstep : stakeStep params bridgeParams escrow call = .ok next) : Solvent next := by
  unfold Solvent at hsolvent ⊢
  cases call with
  | deposit =>
    simp only [stakeStep, deposit, bind_eq_ok, revertIf_eq_ok,
      exists_const, pure_eq_ok, checkedAdd_eq_ok] at hstep
    obtain ⟨_, _, ⟨_, rfl⟩, rfl⟩ := hstep
    simp only
    omega
  | withdraw =>
    simp only [stakeStep, withdraw, sendValue, bind_eq_ok, revertIf_eq_ok,
      exists_const, pure_eq_ok, not_or, Nat.not_lt] at hstep
    obtain ⟨_, ⟨_, hamount⟩, _, _, _, _, rfl⟩ := hstep
    simp only
    omega
  | slash =>
    rw [(slash_effect hstep).emptied]
    exact Nat.zero_le _
  | receiveEther => cases hstep
  | forcedEther =>
    cases hstep
    simp only
    omega

end Effects

end Stake
end Canon
