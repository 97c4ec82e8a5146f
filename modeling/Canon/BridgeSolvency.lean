import Canon.BridgeWithdrawal
import Canon.RunAccounting

/-!
# Solvency of the bridge

The ledger of the bridge counts all resources in one number.  This file adds
the token balances which the bridge holds, for tokens which move exactly the
requested amount or revert.  Ether can be forced into the contract and tokens can be
sent to it, so a reserve may exceed what was deposited.

Every function which touches the accounts has the reentrancy guard.  The other
two functions may be entered during a transfer; they are steps of their own,
before or after it.
-/

namespace Canon
namespace Bridge

open Cbe Function

/-! ## The resource table -/

theorem wireResources_eq_append {wired entries resources : List (UInt64 × Address)}
    (hwire : wireResources wired entries = .ok resources) : resources = wired ++ entries := by
  induction entries generalizing wired with
  | nil =>
    cases hwire
    simp
  | cons entry _ ih =>
    simp only [wireResources, bind_eq_ok, revertIf_eq_ok, exists_const] at hwire
    rw [ih hwire.2.2.2]
    simp

theorem deploy_resources {chainId : ℕ} {self : Address} {args : ConstructorArgs}
    {params : BridgeParams} (hdeploy : BridgeParams.deploy chainId self args = .ok params) :
    params.resources = args.erc20ResourceIds.zip args.erc20TokenAddrs ∧
      params.tvlCap = args.tvlCap := by
  unfold BridgeParams.deploy at hdeploy
  split at hdeploy
  · cases hdeploy
  split at hdeploy
  · cases hdeploy
  split at hdeploy
  · cases hdeploy
  split at hdeploy
  · cases hdeploy
  split at hdeploy
  · cases hdeploy
  split at hdeploy
  · cases hdeploy
  · rename_i resources hwire
    cases hdeploy
    exact ⟨by simpa using wireResources_eq_append hwire, rfl⟩

/-! ## Ledger and tokens together -/

structure Vault where
  ledger : Ledger
  tokenBalance : Address → ℕ

/-- After construction.  Ether and tokens may have been sent to the address
before. -/
def Vault.deployed (blockNumber ether : ℕ) (tokenBalance : Address → ℕ) : Vault where
  ledger := { Ledger.initial blockNumber with balance := ether }
  tokenBalance := tokenBalance

/-- The bridge's balances after `transferFrom(sender, self, amount)`, `none`
when the sum does not fit the token's balance. -/
def pullTokens (self : Address) (tokenBalance : Address → ℕ)
    (sender token : Address) (amount : ℕ) : Option (Address → ℕ) :=
  if sender = self then some tokenBalance
  else if tokenBalance token + amount < 2 ^ 256 then
    some (update tokenBalance token (tokenBalance token + amount))
  else none

/-- The bridge's balances after `transfer(recipient, amount)`. -/
def pushTokens (self : Address) (tokenBalance : Address → ℕ)
    (recipient token : Address) (amount : ℕ) : Option (Address → ℕ) :=
  if tokenBalance token < amount then none
  else if recipient = self then some tokenBalance
  else
    some (update tokenBalance token (tokenBalance token - amount))

def balanceDelta (balBefore balAfter : ℕ) : ℕ := (balAfter + 2 ^ 256 - balBefore) % 2 ^ 256

/-- The token side of a payment.  A payment of ether to the bridge itself
fails, since bare transfers are refused. -/
def payTokens (params : BridgeParams) (tokenBalance : Address → ℕ)
    (wd : PendingWithdrawal) : Option (Address → ℕ) :=
  if wd.resourceId = resourceIdNativeEth then
    if wd.recipientL1 = params.self then none else some tokenBalance
  else
    pushTokens params.self tokenBalance wd.recipientL1
      (params.resourceToken wd.resourceId) wd.amount.toNat

inductive VaultCall where
  | mine (blocks : ℕ)
  | depositETH (sender : Address) (value : ℕ) (migrationActivated : Bool)
  | depositERC20 (sender : Address) (value : ℕ) (migrationActivated : Bool)
      (resourceId : UInt64) (token : Address) (amount : ℕ) (transferable : Bool)
  | submitStateRoot (value : ℕ) (migrationActivated : Bool) (root : Bytes32)
      (logIndexHigh : UInt64) (attestorSig : Bytes)
  | withdrawWithProof (value : ℕ) (atLogIndexHigh : UInt64)
      (proofBlob leafBlob : Bytes) (accepted : Bool)
  | revertToPriorRoot (sender : Address) (value : ℕ) (disputedLogIndexHigh : UInt64)
  | forceEther (amount : ℕ)
  | sendTokens (sender token : Address) (amount : ℕ)

section Step

variable (recover : Recover) (params : BridgeParams) (vault : Vault)

def Vault.withLedger (call : Except BridgeError Ledger) : Except BridgeError Vault :=
  call.map fun ledger => { vault with ledger }

def Vault.depositERC20 (sender : Address) (migrationActivated : Bool)
    (value : ℕ) (resourceId : UInt64) (token : Address) (amount : ℕ)
    (transferable : Bool) : Except BridgeError Vault := do
  let balances :=
    if transferable then
      pullTokens params.self vault.tokenBalance sender token amount
    else none
  let ledger ← Bridge.depositERC20 params sender migrationActivated
    vault.ledger value resourceId token amount
    (balances.map fun after =>
      balanceDelta (vault.tokenBalance token) (after token))
  return ⟨ledger, balances.getD vault.tokenBalance⟩

def Vault.withdrawWithProof (value : ℕ) (atLogIndexHigh : UInt64)
    (proofBlob leafBlob : Bytes) (accepted : Bool) : Except BridgeError Vault := do
  let balances := (decodePendingWithdrawal leafBlob).toOption.bind
    (payTokens params vault.tokenBalance)
  let ledger ← Bridge.withdrawWithProof params vault.ledger value
    atLogIndexHigh proofBlob leafBlob (accepted && balances.isSome)
  return ⟨ledger, balances.getD vault.tokenBalance⟩

def vaultStep : VaultCall → Except BridgeError Vault
  | .mine blocks =>
    vault.withLedger (bridgeStep recover params vault.ledger (.mine blocks))
  | .depositETH sender value migrationActivated =>
    vault.withLedger (depositETH params sender migrationActivated vault.ledger value)
  | .depositERC20 sender value migrationActivated resourceId token amount transferable =>
    vault.depositERC20 params sender migrationActivated value resourceId token amount transferable
  | .submitStateRoot value migrationActivated root logIndexHigh attestorSig =>
    vault.withLedger (submitStateRoot recover params migrationActivated
      vault.ledger value root logIndexHigh attestorSig)
  | .withdrawWithProof value atLogIndexHigh proofBlob leafBlob accepted =>
    vault.withdrawWithProof params value atLogIndexHigh proofBlob leafBlob accepted
  | .revertToPriorRoot sender value disputedLogIndexHigh =>
    vault.withLedger (revertToPriorRoot params sender vault.ledger value disputedLogIndexHigh)
  | .forceEther amount =>
    .ok { vault with ledger := { vault.ledger with balance := vault.ledger.balance + amount } }
  | .sendTokens sender token amount =>
    match pullTokens params.self vault.tokenBalance sender token amount with
    | none => .error .transferFailed
    | some balances => .ok { vault with tokenBalance := balances }

end Step

/-! ## Amounts -/

def VaultCall.deposit : VaultCall → Option (UInt64 × ℕ)
  | .depositETH _ value _ => some (resourceIdNativeEth, value)
  | .depositERC20 _ _ _ resourceId _ amount _ => some (resourceId, amount)
  | _ => none

def VaultCall.redemption : VaultCall → Option (UInt64 × ℕ)
  | .withdrawWithProof _ _ _ leafBlob _ =>
    (decodePendingWithdrawal leafBlob).toOption.map fun wd =>
      (wd.resourceId, wd.amount.toNat)
  | _ => none

def amountOf : Option (UInt64 × ℕ) → ℕ
  | none => 0
  | some (_, amount) => amount

def amountIn (resourceId : UInt64) : Option (UInt64 × ℕ) → ℕ
  | none => 0
  | some (moved, amount) => if moved = resourceId then amount else 0

@[simp] theorem amountIn_none (resourceId : UInt64) : amountIn resourceId none = 0 := rfl

@[simp] theorem amountIn_self (resourceId : UInt64) (amount : ℕ) :
    amountIn resourceId (some (resourceId, amount)) = amount := by
  simp [amountIn]

theorem amountIn_of_ne {resourceId other : UInt64} (hne : resourceId ≠ other) (amount : ℕ) :
    amountIn resourceId (some (other, amount)) = 0 := by
  simp [amountIn, Ne.symm hne]

def Vault.reserve (params : BridgeParams) (vault : Vault) (resourceId : UInt64) : ℕ :=
  if resourceId = resourceIdNativeEth then vault.ledger.balance
  else vault.tokenBalance (params.resourceToken resourceId)

def Supported (params : BridgeParams) (resourceId : UInt64) : Prop :=
  resourceId = resourceIdNativeEth ∨ params.resourceToken resourceId ≠ 0

structure StepAccounts (params : BridgeParams) (before after : Vault)
    (call : VaultCall) : Prop where
  locked : after.ledger.totalLockedValue + amountOf call.redemption =
    before.ledger.totalLockedValue + amountOf call.deposit
  capped : before.ledger.totalLockedValue ≤ params.tvlCap →
    after.ledger.totalLockedValue ≤ params.tvlCap
  covered : ∀ resourceId, Supported params resourceId →
    before.reserve params resourceId + amountIn resourceId call.deposit ≤
      after.reserve params resourceId + amountIn resourceId call.redemption

section Effects

variable {recover : Recover} {params : BridgeParams} {before after : Vault}

variable {sender self token : Address} {ledger next : Ledger} {amount value : ℕ}
  {tokenBalance balances : Address → ℕ} {accepted : Bool} {migrationActivated : Bool}
  {resourceId atLogIndexHigh : UInt64} {proofBlob leafBlob : Bytes}

theorem Vault.withLedger_eq_ok {call : Except BridgeError Ledger} :
    before.withLedger call = .ok after ↔
      ∃ ledger, call = .ok ledger ∧ { before with ledger } = after := by
  unfold Vault.withLedger
  cases call <;> simp [Except.map]

theorem StepAccounts.of_kept {call : VaultCall}
    (hdeposit : call.deposit = none) (hredemption : call.redemption = none)
    (hlocked : after.ledger.totalLockedValue = before.ledger.totalLockedValue)
    (hether : before.ledger.balance ≤ after.ledger.balance)
    (htokens : ∀ token, before.tokenBalance token ≤ after.tokenBalance token) :
    StepAccounts params before after call where
  locked := by rw [hdeposit, hredemption, hlocked]
  capped := by
    rw [hlocked]
    exact id
  covered := by
    intro resourceId _
    rw [hdeposit, hredemption]
    unfold Vault.reserve
    split
    · simpa using hether
    · simpa using htokens _

theorem registerDeposit_accounts (hcall : registerDeposit params sender ledger amount = .ok next) :
    next.totalLockedValue = ledger.totalLockedValue + amount ∧
      next.totalLockedValue ≤ params.tvlCap ∧
      next.balance = ledger.balance := by
  simp only [registerDeposit, bind_eq_ok, checkedAdd_eq_ok, revertIf_eq_ok,
    exists_const, pure_eq_ok] at hcall
  obtain ⟨newTvl, ⟨_, rfl⟩, hcap, rfl⟩ := hcall
  exact ⟨rfl, Nat.not_lt.mp hcap, rfl⟩

theorem depositETH_accounts
    (hcall : depositETH params sender migrationActivated before.ledger value = .ok ledger) :
    StepAccounts params before { before with ledger }
      (.depositETH sender value migrationActivated) := by
  simp only [depositETH, bind_eq_ok] at hcall
  obtain ⟨_, _, hregister⟩ := hcall
  obtain ⟨hlocked, hcap, hbalance⟩ := registerDeposit_accounts hregister
  refine ⟨hlocked, fun _ => hcap, ?_⟩
  intro resourceId _
  by_cases heth : resourceId = resourceIdNativeEth
  · subst heth
    simp [Vault.reserve, VaultCall.deposit, VaultCall.redemption, hbalance]
  · simp [Vault.reserve, VaultCall.deposit, VaultCall.redemption, heth, amountIn_of_ne heth]

theorem pullTokens_of_delta
     (hpull : pullTokens self tokenBalance sender token amount = some balances)
    (hdelta : balanceDelta (tokenBalance token) (balances token) = amount) :
    balances = update tokenBalance token (tokenBalance token + amount) := by
  unfold pullTokens at hpull
  split at hpull
  · cases hpull
    have hamount : amount = 0 := by
      rw [← hdelta]
      simp [balanceDelta]
    simp [hamount]
  · split at hpull
    · cases hpull
      rfl
    · cases hpull

theorem Vault.reserve_update {moved : UInt64} (hnative : moved ≠ resourceIdNativeEth)
    (htoken : params.resourceToken moved ≠ 0) (balance : ℕ) :
    Vault.reserve params ⟨ledger, update tokenBalance
        (params.resourceToken moved) balance⟩ resourceId =
      if resourceId = moved then balance
      else Vault.reserve params ⟨ledger, tokenBalance⟩ resourceId := by
  unfold Vault.reserve
  by_cases hsame : resourceId = moved
  · subst hsame
    simp [hnative]
  · have hother := resourceToken_ne_of_ne htoken (Ne.symm hsame)
    simp [hsame, update_of_ne (Ne.symm hother)]

theorem Vault.depositERC20_accounts {transferable : Bool}
    (hcall : before.depositERC20 params sender migrationActivated value
      resourceId token amount transferable = .ok after) :
    StepAccounts params before after (.depositERC20 sender value
      migrationActivated resourceId token amount transferable) := by
  simp only [Vault.depositERC20, Bridge.depositERC20, bind_eq_ok,
    revertIf_eq_ok, exists_const, pure_eq_ok, not_or, not_not, ne_eq] at hcall
  obtain ⟨ledger, ⟨_, _, _, ⟨hnative, hregistered⟩, htoken, hreceived⟩, rfl⟩ := hcall
  subst htoken
  split at hreceived
  · cases hreceived
  · rename_i measured hmeasured
    obtain ⟨balances, hbalances, hdelta⟩ := Option.map_eq_some_iff.mp hmeasured
    simp only [bind_eq_ok, revertIf_eq_ok, exists_const, not_not] at hreceived
    obtain ⟨rfl, hregister⟩ := hreceived
    have hpull : pullTokens params.self before.tokenBalance sender
        (params.resourceToken resourceId) measured = some balances := by
      cases transferable with
      | false => cases hbalances
      | true => exact hbalances
    obtain ⟨hlocked, hcap, hbalance⟩ := registerDeposit_accounts hregister
    rw [hbalances, Option.getD_some, pullTokens_of_delta hpull hdelta]
    refine ⟨hlocked, fun _ => hcap, ?_⟩
    intro other _
    rw [Vault.reserve_update hnative (resourceToken_ne_zero hregistered)]
    by_cases hsame : other = resourceId
    · subst hsame
      simp [Vault.reserve, VaultCall.deposit, VaultCall.redemption, hnative]
    · simp [Vault.reserve, VaultCall.deposit, VaultCall.redemption, hsame,
        amountIn_of_ne hsame, hbalance]

theorem payWithdrawal_accounts {wd : PendingWithdrawal}
    (hpay : payWithdrawal params ledger wd accepted = .ok next) :
    accepted = true ∧
      next.totalLockedValue = ledger.totalLockedValue ∧
      (wd.resourceId = resourceIdNativeEth →
        next.balance + wd.amount.toNat = ledger.balance) ∧
      (wd.resourceId ≠ resourceIdNativeEth →
        params.resourceToken wd.resourceId ≠ 0 ∧ next.balance = ledger.balance) := by
  unfold payWithdrawal at hpay
  split at hpay <;>
    simp only [bind_eq_ok, revertIf_eq_ok, exists_const, pure_eq_ok, not_or,
      Bool.not_eq_false, Nat.not_lt] at hpay
  · rename_i hnative
    obtain ⟨⟨haccepted, hfunds⟩, rfl⟩ := hpay
    exact ⟨haccepted, rfl, fun _ => Nat.sub_add_cancel hfunds, fun hne => absurd hnative hne⟩
  · rename_i htoken
    obtain ⟨hregistered, haccepted, rfl⟩ := hpay
    exact ⟨haccepted, rfl, fun heq => absurd heq htoken, fun _ => ⟨hregistered, rfl⟩⟩

theorem pushTokens_covered {recipient : Address}
     (hpush : pushTokens self tokenBalance recipient token amount = some balances) :
    ∃ balance, balances = update tokenBalance token balance ∧
      tokenBalance token ≤ balance + amount := by
  unfold pushTokens at hpush
  split at hpush
  · cases hpush
  · split at hpush
    · cases hpush
      exact ⟨tokenBalance token, by simp, by omega⟩
    · cases hpush
      exact ⟨_, rfl, by omega⟩

theorem withdrawWithProof_payment
    (hcall : withdrawWithProof params ledger value atLogIndexHigh proofBlob
      leafBlob accepted = .ok next) :
    ∃ wd, decodePendingWithdrawal leafBlob = .ok wd ∧ accepted = true ∧
      next.totalLockedValue + wd.amount.toNat = ledger.totalLockedValue ∧
      (wd.resourceId = resourceIdNativeEth →
        next.balance + wd.amount.toNat = ledger.balance) ∧
      (wd.resourceId ≠ resourceIdNativeEth →
        params.resourceToken wd.resourceId ≠ 0 ∧ next.balance = ledger.balance) := by
  simp only [withdrawWithProof, bind_eq_ok, revertIf_eq_ok, exists_const,
    mapError_eq_ok, Prod.exists] at hcall
  obtain ⟨_, wd, hdecode, _, _, _, _, _, _, _, _, _, _, _, _, _, hlocked, hpay⟩ := hcall
  obtain ⟨haccepted, hkept, hether, htoken⟩ := payWithdrawal_accounts hpay
  refine ⟨wd, hdecode, haccepted, ?_, hether, htoken⟩
  rw [hkept]
  exact Nat.sub_add_cancel (Nat.not_lt.mp hlocked)

theorem Vault.withdrawWithProof_accounts
    (hcall : before.withdrawWithProof params value atLogIndexHigh proofBlob
      leafBlob accepted = .ok after) :
    StepAccounts params before after (.withdrawWithProof value atLogIndexHigh
      proofBlob leafBlob accepted) := by
  simp only [Vault.withdrawWithProof, bind_eq_ok, pure_eq_ok] at hcall
  obtain ⟨ledger, hledger, rfl⟩ := hcall
  obtain ⟨wd, hdecode, hpaid, hlocked, hether, htoken⟩ := withdrawWithProof_payment hledger
  have hredemption : (VaultCall.withdrawWithProof value atLogIndexHigh
      proofBlob leafBlob accepted).redemption = some (wd.resourceId, wd.amount.toNat) := by
    simp [VaultCall.redemption, hdecode, Except.toOption]
  simp only [hdecode, Except.toOption, Option.bind_some, Bool.and_eq_true,
    Option.isSome_iff_exists] at hpaid ⊢
  obtain ⟨_, balances, hbalances⟩ := hpaid
  rw [hbalances, Option.getD_some]
  refine ⟨?_, ?_, ?_⟩
  · rw [hredemption]
    exact hlocked
  · intro hcap
    exact (Nat.le.intro hlocked).trans hcap
  · intro resourceId _
    rw [hredemption]
    by_cases hnative : wd.resourceId = resourceIdNativeEth
    · have hfunds := hether hnative
      have hkept : balances = before.tokenBalance := by
        simp only [payTokens, hnative, if_true] at hbalances
        split at hbalances
        · cases hbalances
        · exact (Option.some.inj hbalances).symm
      rw [hkept, hnative]
      by_cases hsame : resourceId = resourceIdNativeEth
      · subst hsame
        simpa [Vault.reserve, VaultCall.deposit] using hfunds.ge
      · simp [Vault.reserve, VaultCall.deposit, hsame, amountIn_of_ne hsame]
    · obtain ⟨hregistered, hkept⟩ := htoken hnative
      simp only [payTokens, hnative, if_false] at hbalances
      obtain ⟨balance, rfl, hcovered⟩ := pushTokens_covered hbalances
      rw [Vault.reserve_update hnative hregistered]
      by_cases hsame : resourceId = wd.resourceId
      · subst hsame
        simpa [Vault.reserve, VaultCall.deposit, hnative] using hcovered
      · simp [Vault.reserve, VaultCall.deposit, hsame, amountIn_of_ne hsame, hkept]

theorem pullTokens_le
    (hpull : pullTokens self tokenBalance sender token amount = some balances) (other : Address) :
    tokenBalance other ≤ balances other := by
  unfold pullTokens at hpull
  split at hpull
  · cases hpull
    exact le_rfl
  · split at hpull
    · cases hpull
      by_cases hsame : other = token
      · subst hsame
        simp
      · simp [update_of_ne hsame]
    · cases hpull

theorem vaultStep_accounts {call : VaultCall}
    (hstep : vaultStep recover params before call = .ok after) :
    StepAccounts params before after call := by
  cases call with
  | mine =>
    obtain ⟨ledger, hledger, rfl⟩ := Vault.withLedger_eq_ok.mp hstep
    cases hledger
    exact .of_kept rfl rfl rfl le_rfl fun _ => le_rfl
  | depositETH =>
    obtain ⟨ledger, hledger, rfl⟩ := Vault.withLedger_eq_ok.mp hstep
    exact depositETH_accounts hledger
  | depositERC20 =>
    exact Vault.depositERC20_accounts hstep
  | submitStateRoot =>
    obtain ⟨ledger, hledger, rfl⟩ := Vault.withLedger_eq_ok.mp hstep
    obtain ⟨_, rfl⟩ := submitStateRoot_effect hledger
    exact .of_kept rfl rfl rfl le_rfl fun _ => le_rfl
  | withdrawWithProof =>
    exact Vault.withdrawWithProof_accounts hstep
  | revertToPriorRoot =>
    obtain ⟨ledger, hledger, rfl⟩ := Vault.withLedger_eq_ok.mp hstep
    obtain ⟨_, rfl⟩ := revertToPriorRoot_effect hledger
    exact .of_kept rfl rfl rfl le_rfl fun _ => le_rfl
  | forceEther =>
    cases hstep
    exact .of_kept rfl rfl rfl (Nat.le_add_right _ _) fun _ => le_rfl
  | sendTokens =>
    simp only [vaultStep] at hstep
    split at hstep
    · cases hstep
    · rename_i balances hpull
      cases hstep
      exact .of_kept rfl rfl rfl le_rfl (pullTokens_le hpull)

end Effects

/-! ## Whole runs -/

/-- The books of the bridge after the accepted calls of a trace. -/
structure Solvent (args : ConstructorArgs) (trace : List (Vault × VaultCall))
    (vault : Vault) : Prop where
  locked : vault.ledger.totalLockedValue +
      traceTotal (fun _ call => amountOf call.redemption) trace =
    traceTotal (fun _ call => amountOf call.deposit) trace
  capped : vault.ledger.totalLockedValue ≤ args.tvlCap
  ether : traceTotal (fun _ call => amountIn resourceIdNativeEth call.deposit) trace ≤
    vault.ledger.balance + traceTotal
      (fun _ call => amountIn resourceIdNativeEth call.redemption) trace
  tokens : ∀ resourceId token,
    (resourceId, token) ∈ args.erc20ResourceIds.zip args.erc20TokenAddrs →
      traceTotal (fun _ call => amountIn resourceId call.deposit) trace ≤
        vault.tokenBalance token + traceTotal
          (fun _ call => amountIn resourceId call.redemption) trace

section Runs

variable {recover : Recover} {params : BridgeParams} {start final : Vault}
  {trace : List (Vault × VaultCall)}

section

variable (hrun : Run (vaultStep recover params) start trace final)
include hrun

theorem locked_of_run :
    final.ledger.totalLockedValue + traceTotal (fun _ call => amountOf call.redemption) trace =
      start.ledger.totalLockedValue + traceTotal (fun _ call => amountOf call.deposit) trace :=
  @Run.accounts _ _ _ _ (fun vault => vault.ledger.totalLockedValue)
    (fun _ call => amountOf call.deposit) (fun _ call => amountOf call.redemption) _ _ _
    (fun _ _ _ _ hstep => (vaultStep_accounts hstep).locked) hrun

theorem reserve_of_run {resourceId : UInt64} (hsupported : Supported params resourceId) :
    traceTotal (fun _ call => amountIn resourceId call.deposit) trace ≤
      final.reserve params resourceId +
        traceTotal (fun _ call => amountIn resourceId call.redemption)
          trace := by
  have hcovers := @Run.covers _ _ _ _ (fun vault => vault.reserve params resourceId)
    (fun _ call => amountIn resourceId call.deposit)
    (fun _ call => amountIn resourceId call.redemption) _ _ _
    (fun _ _ _ _ hstep =>
      (vaultStep_accounts hstep).covered resourceId hsupported) hrun
  exact (Nat.le_add_left _ _).trans hcovers

theorem capped_of_run (hstart : start.ledger.totalLockedValue ≤ params.tvlCap) :
    final.ledger.totalLockedValue ≤ params.tvlCap := hrun.invariant
    (fun _ _ _ hstep hcap => (vaultStep_accounts hstep).capped hcap) hstart

end

end Runs

/-- The accounts of the bridge after any sequence of calls, accepted or not. -/
theorem solvent_after_calls {recover : Recover} {chainId : ℕ} {self : Address}
    {args : ConstructorArgs} {params : BridgeParams}
    (hdeploy : BridgeParams.deploy chainId self args = .ok params)
    (blockNumber ether : ℕ) (tokenBalance : Address → ℕ) (calls : List VaultCall) :
    let start := Vault.deployed blockNumber ether tokenBalance
    let history := submitAll (vaultStep recover params) start calls
    Solvent args history.1 history.2 ∧
      (∀ resourceId other, params.resourceToken resourceId ≠ 0 → resourceId ≠ other →
        params.resourceToken resourceId ≠ params.resourceToken other) ∧
      ∀ call error, vaultStep recover params history.2 call = .error error →
        submitAll (vaultStep recover params) start (calls ++ [call]) =
          history := by
  intro start history
  obtain ⟨hresources, hcap⟩ := deploy_resources hdeploy
  have hrun : Run (vaultStep recover params) start history.1 history.2 := run_submitAll start calls
  refine ⟨⟨?_, ?_, ?_, ?_⟩, ?_, ?_⟩
  · simpa [start, Vault.deployed, Ledger.initial] using locked_of_run hrun
  · rw [← hcap]
    exact capped_of_run hrun (Nat.zero_le _)
  · simpa [Vault.reserve] using reserve_of_run hrun (.inl rfl)
  · intro resourceId token hentry
    rw [← hresources] at hentry
    have htoken := resourceToken_eq hentry
    have hnative := params.resourcesValid.ids_ne _ hentry
    have hnonzero := params.resourcesValid.tokens_ne _ hentry
    have hcovered := reserve_of_run hrun (.inr (htoken ▸ hnonzero))
    rw [Vault.reserve, if_neg hnative, htoken] at hcovered
    exact hcovered
  · intro resourceId other htoken hne
    exact resourceToken_ne_of_ne htoken hne
  · intro call error hstep
    rw [submitAll_snoc]
    exact submit_of_error hstep

def sampleArgs : ConstructorArgs where
  canonVersionTag := .zero
  attestor := 0xA77
  disputeVerifier := 0xD15
  sequencerStake := 0x57A
  migration := 0
  disputeWindowBlocks := 50
  maxRedemptionWindowBlocks := 40
  maxAttestationStaleBlocks := 1000
  cooldownBlocks := 10
  tvlCap := 1000000
  erc20ResourceIds := [1]
  erc20TokenAddrs := [0x70C]

/-- Deposits of ether and of a token between gifts of both; a deposit above the
cap and one of an unknown resource revert. -/
def sampleDeposits : List VaultCall :=
  [.forceEther 5, .depositETH 0xACC 100 false,
    .depositETH 0xACC 1000000 false, .sendTokens 0xACC 0x70C 7,
    .depositERC20 0xACC 0 false 1 0x70C 30 true, .depositERC20 0xACC 0 false 2 0x70C 30 true]

theorem solvent_after_sampleDeposits :
    let history := submitAll (vaultStep sampleRecover sampleBridge)
      (Vault.deployed 100 0 fun _ => 0) sampleDeposits
    BridgeParams.deploy 1 0xB1D sampleArgs = .ok sampleBridge ∧
      history.1.length = 4 ∧ history.2.ledger.totalLockedValue = 130 ∧
      Solvent sampleArgs history.1 history.2 :=
  ⟨rfl, by decide +kernel, by decide +kernel,
    (@solvent_after_calls sampleRecover 1 0xB1D sampleArgs sampleBridge rfl
      100 0 (fun _ => 0) sampleDeposits).1⟩

end Bridge
end Canon
