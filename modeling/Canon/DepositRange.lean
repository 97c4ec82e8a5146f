import Canon.ActionEncoding
import Canon.BridgeSolvency

/-!
# Deposits which can go out again

A deposit is a `uint256`, bounded by the cap of the bridge.  On the other side
it is the amount of a deposit action, which the encoder writes in 64 bits, and
in the end the amount of a withdrawal leaf, which the bridge reads from 64 bits.
-/

namespace Canon
namespace Bridge

open Cbe Ingest

/-- A deposit which the bridge has taken in some reachable state. -/
structure AcceptedDeposit (recover : Recover) (params : BridgeParams) where
  before : Vault
  call : VaultCall
  after : Vault
  resourceId : UInt64
  amount : ℕ
  reachable : ∃ blockNumber ether tokenBalance, Reachable (vaultStep recover params)
      (Vault.deployed blockNumber ether tokenBalance) before
  deposits : call.deposit = some (resourceId, amount)
  accepted : vaultStep recover params before call = .ok after

def ActionCarries (resourceId : UInt64) (amount : ℕ) : Prop :=
  ∃ (recipient : ActorId) (wide : Amount) (depositId : DepositId) (encoded : Bytes),
    wide.toNat = amount ∧ encodeAction (.deposit resourceId recipient wide depositId) = .ok encoded

def LeafCarries (resourceId : UInt64) (amount : ℕ) : Prop :=
  ∃ (leafBlob : Bytes) (wd : PendingWithdrawal), decodePendingWithdrawal leafBlob = .ok wd ∧
      wd.resourceId = resourceId ∧ wd.amount.toNat = amount

def AcceptedDeposit.Representable {recover : Recover} {params : BridgeParams}
    (deposit : AcceptedDeposit recover params) : Prop :=
  ActionCarries deposit.resourceId deposit.amount ∧ LeafCarries deposit.resourceId deposit.amount

section Range

variable {resourceId : UInt64} {amount : ℕ}

theorem actionCarries_iff : ActionCarries resourceId amount ↔ amount < 2 ^ 64 := by
  simp only [ActionCarries, encodeAction_eq_ok, Action.fields,
    List.forall_mem_cons, WireField.Bounded]
  constructor
  · rintro ⟨_, wide, _, _, rfl, ⟨_, _, hbound, _⟩, _⟩
    exact hbound
  · intro hbound
    have hwide : (BitVec.ofNat 128 amount).toNat = amount := by
      rw [BitVec.toNat_ofNat, Nat.mod_eq_of_lt (by omega)]
    refine ⟨0, BitVec.ofNat 128 amount, 0, _, hwide, ?_, rfl⟩
    simpa [hwide] using hbound

theorem leafCarries_iff : LeafCarries resourceId amount ↔ amount < 2 ^ 64 := by
  simp only [LeafCarries, decodePendingWithdrawal_eq_ok]
  constructor
  · rintro ⟨_, wd, _, _, rfl⟩
    exact wd.amount.toNat_lt
  · intro hbound
    exact ⟨_, ⟨resourceId, 0, UInt64.ofNat amount, 0⟩, rfl, rfl, UInt64.toNat_ofNat_of_lt hbound⟩

end Range

section Deployments

variable {recover : Recover} {params : BridgeParams}

theorem AcceptedDeposit.representable_iff (deposit : AcceptedDeposit recover params) :
    deposit.Representable ↔ deposit.amount < 2 ^ 64 := by
  rw [AcceptedDeposit.Representable, actionCarries_iff, leafCarries_iff, and_self_iff]

theorem AcceptedDeposit.amount_le_cap (deposit : AcceptedDeposit recover params) :
    deposit.amount ≤ params.tvlCap := by
  obtain ⟨blockNumber, ether, tokenBalance, trace, hrun⟩ := deposit.reachable
  have haccounts := vaultStep_accounts deposit.accepted
  have hcap := haccounts.capped (capped_of_run hrun (Nat.zero_le _))
  have hlocked := haccounts.locked
  have hredemption : deposit.call.redemption = none := by
    have hdeposits := deposit.deposits
    cases hcall : deposit.call <;> rw [hcall] at hdeposits <;>
      first | rfl | cases hdeposits
  rw [hredemption, deposit.deposits] at hlocked
  simp only [amountOf] at hlocked
  omega

def freshDeposit (recover : Recover) (params : BridgeParams) (amount : ℕ)
    (hfits : amount < 2 ^ 256) (hcap : amount ≤ params.tvlCap) :
    AcceptedDeposit recover params where
  before := Vault.deployed 0 0 fun _ => 0
  call := .depositETH 0 amount false
  after := ⟨{ Ledger.initial 0 with
      balance := amount
      totalLockedValue := amount
      depositNonce := Function.update (fun _ => 0) 0 1 }, fun _ => 0⟩
  resourceId := resourceIdNativeEth
  amount := amount
  reachable := ⟨0, 0, fun _ => 0, .refl _⟩
  deposits := rfl
  accepted := by
    refine Vault.withLedger_eq_ok.mpr ⟨_, ?_, rfl⟩
    simp only [depositETH, circuitOpen, registerDeposit, bind_eq_ok,
      revertIf_eq_ok, exists_const, checkedAdd_eq_ok, pure_eq_ok]
    refine ⟨⟨?_, ?_, ?_, ?_⟩, amount, ⟨?_, ?_⟩, ?_, ?_⟩
    · exact fun hstale => hstale.1 rfl
    · exact fun hcooldown => hcooldown.1 rfl
    · exact Nat.not_lt_zero _
    · simp
    · simpa [Vault.deployed, Ledger.initial] using hfits
    · exact Nat.zero_add amount
    · exact Nat.not_lt.mpr hcap
    · simp [Vault.deployed, Ledger.initial]

end Deployments

/-- The deposits which can go out again are those below `2 ^ 64`, and all of
them can exactly on a bridge whose cap is below this bound. -/
theorem deposits_representable_iff (recover : Recover) (params : BridgeParams) :
    (∀ deposit : AcceptedDeposit recover params, deposit.Representable ↔ deposit.amount < 2 ^ 64) ∧
      ((∀ deposit : AcceptedDeposit recover params, deposit.Representable) ↔
        params.tvlCap < 2 ^ 64) := by
  refine ⟨AcceptedDeposit.representable_iff, ?_, ?_⟩
  · intro hall
    by_contra hcap
    have hbound := (AcceptedDeposit.representable_iff _).mp
      (hall (freshDeposit recover params (2 ^ 64) (by norm_num) (Nat.not_lt.mp hcap)))
    exact absurd hbound (lt_irrefl _)
  · intro hcap deposit
    rw [deposit.representable_iff]
    exact deposit.amount_le_cap.trans_lt hcap

theorem sampleBridge_deposits_representable :
    ∃ deposit : AcceptedDeposit sampleRecover sampleBridge,
      deposit.amount = 1000000 ∧ deposit.Representable :=
  ⟨freshDeposit sampleRecover sampleBridge 1000000 (by norm_num) le_rfl, rfl,
    (deposits_representable_iff sampleRecover sampleBridge).2.mpr (by decide) _⟩

/-- The sample bridge with the default cap of the deployment script, 100000
ether. -/
def defaultCapBridge : BridgeParams := { sampleBridge with tvlCap := 100000 * 10 ^ 18 }

/-- A deposit of `2 ^ 64` wei is taken and has neither an action nor a
leaf. -/
theorem deposit_beyond_encodings :
    ∃ deposit : AcceptedDeposit sampleRecover defaultCapBridge, deposit.amount = 2 ^ 64 ∧
        ¬ ActionCarries deposit.resourceId deposit.amount ∧
        ¬ LeafCarries deposit.resourceId deposit.amount := by
  refine ⟨freshDeposit sampleRecover defaultCapBridge (2 ^ 64)
    (by norm_num) (by norm_num [defaultCapBridge]), rfl, ?_, ?_⟩
  · rw [actionCarries_iff]
    exact lt_irrefl _
  · rw [leafCarries_iff]
    exact lt_irrefl _

end Bridge
end Canon
