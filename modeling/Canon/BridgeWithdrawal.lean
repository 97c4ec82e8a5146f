import Canon.BridgeRollback

/-!
# Withdrawals against the canonical tree

The contract compares the proof's index with the log index in the leaf, which is
another number than the withdrawal id.  An accepted proof carries a populated leaf:
above the leaves this is the soundness of the climb; at the leaves only the
concatenation of two leaves is known, and a forged split is excluded by the leaf
decoder on the left and by the index comparison on the right.
-/

namespace Canon
namespace Bridge

open Cbe Function List

section Completeness

variable {params : BridgeParams} {ledger : Ledger}
  {pending : UInt64 → Option PendingWithdrawal} {id : UInt64} {wd : PendingWithdrawal}
  {atLogIndexHigh : UInt64}

theorem leafOf_length_le (id : ℕ) : (leafOf pending id).length ≤ 56 := by
  unfold leafOf
  split
  · simp
  · simp [emptyLeaf]

theorem canonicalSiblings_size {sibling : Bytes} (hmem : sibling ∈ canonicalSiblings pending id) :
    sibling.length < 2 ^ 64 := by
  rw [canonicalSiblings, mem_reverse] at hmem
  obtain ⟨level, number, hsibling⟩ := MerkleTree.exists_nodeAt_of_mem_pathSiblings hmem
  rw [hsibling]
  cases level with
  | zero =>
    have hle := @leafOf_length_le pending number
    simp only [MerkleTree.nodeAt]
    omega
  | succ =>
    simp only [MerkleTree.nodeAt, hashBytes_length]
    norm_num

theorem decode_canonicalProof :
    decodeWithdrawalProof (encodeWithdrawalProof wd.encode id (canonicalSiblings pending id)) =
      .ok (wd.encode, id, canonicalSiblings pending id) := by
  rw [decodeWithdrawalProof_eq_ok]
  exact ⟨canonicalSiblings_length pending id, by simp,
    fun _ hmem => canonicalSiblings_size hmem, rfl⟩

theorem verify_canonicalProof (hwd : pending id = some wd) :
    verifyProof id.toNat wd.encode (canonicalSiblings pending id)
      (canonicalRoot pending) = .ok true := by
  rw [verifyProof_eq_true (canonicalSiblings_length pending id),
    canonicalRoot_toBytes, ← leafOf_populated hwd, canonicalSiblings, reverse_reverse]
  have hclimb := @MerkleTree.climb_pathSiblings UInt8 hashBytes
    (leafOf pending) smtHeight 0 id.toNat
  rw [id_div_height, Nat.zero_add] at hclimb
  exact hclimb

theorem payWithdrawal_succeeds
    (hbalance : wd.resourceId = resourceIdNativeEth → wd.amount.toNat ≤ ledger.balance)
    (hresource : wd.resourceId ≠ resourceIdNativeEth →
      wd.resourceId ∈ params.resources.map Prod.fst) :
    ∃ next, payWithdrawal params ledger wd true = .ok next := by
  unfold payWithdrawal
  split
  · rename_i heth
    refine ⟨_, bind_eq_ok.mpr ⟨(), ?_, rfl⟩⟩
    apply revertIf_of_not
    simpa using hbalance heth
  · rename_i htoken
    refine ⟨_, bind_eq_ok.mpr ⟨(), ?_, bind_eq_ok.mpr ⟨(), ?_, rfl⟩⟩⟩
    · exact revertIf_of_not (resourceToken_ne_zero (hresource htoken))
    · exact revertIf_of_not (by simp)

structure Redeemable (params : BridgeParams) (ledger : Ledger)
    (pending : UInt64 → Option PendingWithdrawal) (atLogIndexHigh : UInt64)
    (wd : PendingWithdrawal) : Prop where
  recipient : wd.recipientL1 ≠ 0
  finalised : ledger.isStateRootFinalised params atLogIndexHigh = true
  root : (ledger.stateRoots atLogIndexHigh).root = canonicalRoot pending
  locked : wd.amount.toNat ≤ ledger.totalLockedValue
  balance : wd.resourceId = resourceIdNativeEth → wd.amount.toNat ≤ ledger.balance
  registered : wd.resourceId ≠ resourceIdNativeEth → wd.resourceId ∈ params.resources.map Prod.fst
  fresh : ledger.withdrawalLeafRedeemed (keccak256 wd.encode) = false

theorem withdraw_canonical_of_index (hwd : pending id = some wd)
    (hready : Redeemable params ledger pending atLogIndexHigh wd) (hindex : id = wd.l2LogIndex) :
    ∃ next, withdrawWithProof params ledger 0 atLogIndexHigh
      (encodeWithdrawalProof wd.encode id (canonicalSiblings pending id))
      wd.encode true = .ok next := by
  have hverify := verify_canonicalProof hwd
  rw [← hready.root] at hverify
  obtain ⟨next, hpay⟩ := @payWithdrawal_succeeds params
    { ledger with
      withdrawalLeafRedeemed := update ledger.withdrawalLeafRedeemed (keccak256 wd.encode) true
      totalLockedValue := ledger.totalLockedValue - wd.amount.toNat }
    wd hready.balance hready.registered
  refine ⟨next, ?_⟩
  simp only [withdrawWithProof, bind_eq_ok, revertIf_eq_ok, exists_const,
    mapError_eq_ok, decodePendingWithdrawal_eq_ok, checkFinalised_eq_ok,
    Prod.exists, ne_eq, not_not, not_true_eq_false, not_false_eq_true, true_and]
  refine ⟨wd, rfl, hready.recipient, hready.finalised,
    by simp [hready.fresh], wd.encode, id, canonicalSiblings pending id,
    decode_canonicalProof, rfl, hindex, true, hverify, by simp, ?_, hpay⟩
  exact Nat.not_lt.mpr hready.locked

theorem index_of_withdraw_canonical {value : ℕ} {accepted : Bool} {next : Ledger}
    (hcall : withdrawWithProof params ledger value atLogIndexHigh
      (encodeWithdrawalProof wd.encode id (canonicalSiblings pending id))
      wd.encode accepted = .ok next) : id = wd.l2LogIndex := by
  obtain ⟨other, proofLeaf, siblings, hleaf, _, hdecode, _, _⟩ :=
    (withdrawWithProof_effect hcall).proven
  have hother := PendingWithdrawal.encode_injective hleaf
  rw [decode_canonicalProof, Except.ok.injEq, Prod.mk.injEq, Prod.mk.injEq] at hdecode
  rw [hother]
  exact hdecode.2.1

end Completeness

/-- The canonical proof of a populated id redeems its leaf exactly when the id
is the log index which the leaf records. -/
theorem withdraw_canonical_iff {params : BridgeParams} {ledger : Ledger}
    {pending : UInt64 → Option PendingWithdrawal} {id : UInt64}
    {wd : PendingWithdrawal} {atLogIndexHigh : UInt64} (hwd : pending id = some wd)
    (hready : Redeemable params ledger pending atLogIndexHigh wd) :
    (∃ next, withdrawWithProof params ledger 0 atLogIndexHigh
        (encodeWithdrawalProof wd.encode id (canonicalSiblings pending id))
        wd.encode true = .ok next) ↔ id = wd.l2LogIndex := by
  constructor
  · rintro ⟨next, hcall⟩
    exact index_of_withdraw_canonical hcall
  · exact withdraw_canonical_of_index hwd hready

def singleWithdrawal (id l2LogIndex : UInt64) : UInt64 → Option PendingWithdrawal :=
  update (fun _ => none) id (some ⟨0, 0xACC, 70, l2LogIndex⟩)

/-- A bridge with 100 locked ether units, on which the map's root is final. -/
def fundedLedger (pending : UInt64 → Option PendingWithdrawal) : Ledger :=
  { Ledger.initial 200 with
    stateRoots := update (fun _ => .unset) 1 ⟨canonicalRoot pending, 1, 100, true⟩
    latestSubmittedLogIndexHigh := 1
    latestStateRootSubmittedAtBlock := 100
    totalLockedValue := 100
    balance := 100 }

theorem fundedLedger_redeemable (id l2LogIndex : UInt64) :
    Redeemable sampleBridge (fundedLedger (singleWithdrawal id l2LogIndex))
      (singleWithdrawal id l2LogIndex) 1 ⟨0, 0xACC, 70, l2LogIndex⟩ where
  recipient := by simp
  finalised := rfl
  root := rfl
  locked := by simp [fundedLedger]
  balance := fun _ => by simp [fundedLedger]
  registered := fun hne => absurd rfl hne
  fresh := rfl

/-- Withdrawal 0 was applied at log index 1; its canonical proof is refused. -/
theorem withdraw_canonical_refused :
    ∃ (pending : UInt64 → Option PendingWithdrawal) (wd : PendingWithdrawal) (ledger : Ledger),
      pending 0 = some wd ∧ Redeemable sampleBridge ledger pending 1 wd ∧
        ¬ ∃ next, withdrawWithProof sampleBridge ledger 0 1
          (encodeWithdrawalProof wd.encode 0 (canonicalSiblings pending 0))
          wd.encode true = .ok next := by
  refine ⟨singleWithdrawal 0 1, ⟨0, 0xACC, 70, 1⟩,
    fundedLedger (singleWithdrawal 0 1), rfl, fundedLedger_redeemable 0 1, ?_⟩
  rintro ⟨next, hcall⟩
  have hindex := index_of_withdraw_canonical hcall
  simp at hindex

theorem withdraw_canonical_paid :
    ∃ next, withdrawWithProof sampleBridge (fundedLedger (singleWithdrawal 5 5)) 0 1
      (encodeWithdrawalProof (PendingWithdrawal.encode ⟨0, 0xACC, 70, 5⟩) 5
        (canonicalSiblings (singleWithdrawal 5 5) 5))
      (PendingWithdrawal.encode ⟨0, 0xACC, 70, 5⟩) true = .ok next :=
  (withdraw_canonical_iff rfl (fundedLedger_redeemable 5 5)).mpr rfl

/-! ## Soundness -/

section Soundness

variable {params : BridgeParams} {ledger next : Ledger}
  {pending : UInt64 → Option PendingWithdrawal}

variable {wd : PendingWithdrawal} {sibling : Bytes}

theorem PendingWithdrawal.encode_tag (wd : PendingWithdrawal) : wd.encode[9]? = some tagBytes := by
  unfold PendingWithdrawal.encode
  simp [encodeAddress, encodeBytes, encodeHead]

theorem PendingWithdrawal.encode_suffix (wd : PendingWithdrawal) :
    ∃ front, wd.encode = front ++ leBytes 8 wd.l2LogIndex.toNat := by
  refine ⟨encodeUint wd.resourceId ++ (encodeAddress wd.recipientL1 ++
    (encodeUint wd.amount ++ [tagUint])), ?_⟩
  have hindex : encodeUint wd.l2LogIndex = [tagUint] ++ leBytes 8 wd.l2LogIndex.toNat := rfl
  rw [PendingWithdrawal.encode, hindex]
  simp only [append_assoc]

theorem populated_of_leafOf {id : UInt64}
    (hleaf : leafOf pending id.toNat = wd.encode) : pending id = some wd := by
  unfold leafOf at hleaf
  rw [UInt64.ofNat_toNat] at hleaf
  cases hpending : pending id with
  | some =>
    rw [hpending] at hleaf
    rw [PendingWithdrawal.encode_injective hleaf]
  | none =>
    rw [hpending] at hleaf
    have hlength := congrArg List.length hleaf
    simp [emptyLeaf] at hlength

theorem leafOf_eq_of_left {id : ℕ} {right : Bytes}
    (hjoined : wd.encode ++ sibling = leafOf pending id ++ right) :
    leafOf pending id = wd.encode := by
  cases hpending : pending (UInt64.ofNat id) with
  | some other =>
    have hleaf : leafOf pending id = other.encode := by
      simp [leafOf, hpending]
    rw [hleaf] at hjoined ⊢
    exact (append_inj hjoined (by simp)).1.symm
  | none =>
    have hleaf : leafOf pending id = emptyLeaf := by
      simp [leafOf, hpending]
    have hbyte := congrArg (fun bytes : Bytes => bytes[9]?) hjoined
    simp only [hleaf] at hbyte
    rw [List.getElem?_append_left (by simp), List.getElem?_append_left (by simp [emptyLeaf]),
      PendingWithdrawal.encode_tag] at hbyte
    simp [emptyLeaf, tagBytes] at hbyte

theorem leafOf_eq_of_right {id : ℕ} {left : Bytes}
    (hjoined : sibling ++ wd.encode = left ++ leafOf pending id)
    (hindex : wd.l2LogIndex.toNat ≠ 0) : leafOf pending id = wd.encode := by
  cases hpending : pending (UInt64.ofNat id) with
  | some other =>
    have hleaf : leafOf pending id = other.encode := by
      simp [leafOf, hpending]
    rw [hleaf] at hjoined ⊢
    exact (append_inj' hjoined (by simp)).2.symm
  | none =>
    exfalso
    have hleaf : leafOf pending id = List.replicate 24 0 ++ leBytes 8 0 := by
      simp [leafOf, hpending, emptyLeaf, leBytes_zero]
    obtain ⟨front, hsuffix⟩ := wd.encode_suffix
    rw [hleaf, hsuffix, ← append_assoc, ← append_assoc] at hjoined
    have hbytes := (append_inj' hjoined (by simp)).2
    have hlt : wd.l2LogIndex.toNat < 256 ^ 8 := by
      have := wd.l2LogIndex.toNat_lt
      omega
    exact hindex (leBytes_injective_of_lt hlt (by norm_num) hbytes)

theorem leafOf_eq_of_joined
    (hjoined : MerkleTree.joined wd.l2LogIndex.toNat wd.encode sibling =
      leafOf pending (2 * (wd.l2LogIndex.toNat / 2)) ++
        leafOf pending (2 * (wd.l2LogIndex.toNat / 2) + 1)) :
    leafOf pending wd.l2LogIndex.toNat = wd.encode := by
  rcases Nat.mod_two_eq_zero_or_one wd.l2LogIndex.toNat with heven | hodd
  · have hself : 2 * (wd.l2LogIndex.toNat / 2) = wd.l2LogIndex.toNat := by
      omega
    rw [MerkleTree.joined, if_neg (by omega), hself] at hjoined
    exact leafOf_eq_of_left hjoined
  · have hself : 2 * (wd.l2LogIndex.toNat / 2) + 1 = wd.l2LogIndex.toNat := by omega
    rw [MerkleTree.joined, if_pos hodd, hself] at hjoined
    exact leafOf_eq_of_right hjoined (by omega)

/-- None of the preimages which the redemption compares is a collision: the
two leaf strings, and on every level the recomputed preimage and that of the
tree. -/
def CollisionFreeProof (pending : UInt64 → Option PendingWithdrawal)
    (proofBlob leafBlob : Bytes) : Prop := ∀ proofLeaf index siblings,
    decodeWithdrawalProof proofBlob = .ok (proofLeaf, index, siblings) →
      NoCollision proofLeaf leafBlob ∧
        MerkleTree.NoCollisionAlong hashBytes (leafOf pending) 0
          index.toNat proofLeaf siblings.reverse

theorem withdrawn_leaf_populated {value : ℕ} {atLogIndexHigh : UInt64} {proofBlob leafBlob : Bytes}
    {accepted : Bool} (hroot : (ledger.stateRoots atLogIndexHigh).root = canonicalRoot pending)
    (hfree : CollisionFreeProof pending proofBlob leafBlob)
    (hcall : withdrawWithProof params ledger value atLogIndexHigh proofBlob
      leafBlob accepted = .ok next) :
    ∃ index siblings wd, decodeWithdrawalProof proofBlob = .ok (leafBlob, index, siblings) ∧
        pending index = some wd ∧ leafBlob = wd.encode := by
  obtain ⟨wd, proofLeaf, siblings, hleaf, _, hdecode, hhash, hverify⟩ :=
    (withdrawWithProof_effect hcall).proven
  obtain ⟨hsame, halong⟩ := hfree _ _ _ hdecode
  have hproofLeaf : proofLeaf = leafBlob := hsame hhash
  rw [hproofLeaf] at hdecode hverify halong
  have hlength := (decodeWithdrawalProof_eq_ok.mp hdecode).1
  rw [verifyProof_eq_true hlength, hroot, canonicalRoot_toBytes] at hverify
  refine ⟨wd.l2LogIndex, siblings, wd, hdecode, ?_, hleaf⟩
  apply populated_of_leafOf
  cases hpath : siblings.reverse with
  | nil =>
    have hzero := congrArg List.length hpath
    rw [length_reverse, hlength] at hzero
    cases hzero
  | cons _ rest =>
    have hrest : rest.length + 1 = smtHeight := by
      have hcount := congrArg List.length hpath
      rw [length_reverse, hlength] at hcount
      exact hcount.symm
    rw [hpath] at hverify halong
    have hjoined := MerkleTree.joined_eq_of_climb hashBytes_length halong
      (by rw [hverify, hrest, id_div_height])
    rw [hleaf] at hjoined
    exact leafOf_eq_of_joined hjoined

end Soundness

/-! ## Single payment -/

section Payments

variable {recover : Recover} {params : BridgeParams} {ledger next final : Ledger}

def paysFor (leafBlob : Bytes) : Ledger × BridgeCall → Bool
  | (_, .withdrawWithProof _ _ _ paid _) => decide (paid = leafBlob)
  | _ => false

theorem bridgeStep_redeemed {call : BridgeCall}
    (hstep : bridgeStep recover params ledger call = .ok next) {leafHash : Bytes32}
    (hredeemed : ledger.withdrawalLeafRedeemed leafHash = true) :
    next.withdrawalLeafRedeemed leafHash = true := by
  cases call with
  | mine =>
    cases hstep
    exact hredeemed
  | depositETH =>
    rw [(depositETH_effect hstep).2.2]
    exact hredeemed
  | depositERC20 =>
    rw [(depositERC20_effect hstep).2.2]
    exact hredeemed
  | submitStateRoot =>
    rw [(submitStateRoot_effect hstep).2]
    exact hredeemed
  | withdrawWithProof _ _ _ leafBlob =>
    rw [(withdrawWithProof_effect hstep).redeemed]
    by_cases hhash : leafHash = keccak256 leafBlob
    · rw [hhash, update_self]
    · rw [update_of_ne hhash]
      exact hredeemed
  | revertToPriorRoot =>
    rw [(revertToPriorRoot_effect hstep).2]
    exact hredeemed

theorem bridgeStep_pays {call : BridgeCall} {leafBlob : Bytes}
    (hstep : bridgeStep recover params ledger call = .ok next)
    (hpays : paysFor leafBlob (ledger, call) = true) :
    ledger.withdrawalLeafRedeemed (keccak256 leafBlob) = false ∧
      next.withdrawalLeafRedeemed (keccak256 leafBlob) = true := by
  cases call with
  | withdrawWithProof _ _ _ paid =>
    have hsame : paid = leafBlob := by simpa [paysFor] using hpays
    subst hsame
    have hwithdrawn := withdrawWithProof_effect hstep
    refine ⟨hwithdrawn.fresh, ?_⟩
    rw [hwithdrawn.redeemed, update_self]
  | _ => cases hpays

theorem payments_le_one {trace : List (Ledger × BridgeCall)}
    (hrun : Run (bridgeStep recover params) ledger trace final) (leafBlob : Bytes) :
    trace.countP (paysFor leafBlob) ≤ 1 ∧
      (0 < trace.countP (paysFor leafBlob) →
        final.withdrawalLeafRedeemed (keccak256 leafBlob) = true) := by
  induction hrun with
  | nil => simp
  | @snoc trace before after call hprefix hlast ih =>
    obtain ⟨hcount, hmarked⟩ := ih
    rw [countP_append, countP_singleton]
    cases hpays : paysFor leafBlob (before, call) with
    | true =>
      obtain ⟨hfresh, hredeemed⟩ := bridgeStep_pays hlast hpays
      have hnone : trace.countP (paysFor leafBlob) = 0 := by
        by_contra hsome
        have hearlier := hmarked (Nat.pos_of_ne_zero hsome)
        rw [hfresh] at hearlier
        cases hearlier
      exact ⟨by simp [hnone], fun _ => hredeemed⟩
    | false =>
      exact ⟨hcount, fun hpos => bridgeStep_redeemed hlast (hmarked hpos)⟩

end Payments

/-- An accepted withdrawal against the canonical root of a map carries the
populated leaf at the proof's index, and in every run each leaf is paid for at
most once, under whatever roots. -/
theorem withdrawal_sound_and_single (recover : Recover) (params : BridgeParams) :
    (∀ (ledger next : Ledger) (pending : UInt64 → Option PendingWithdrawal)
        (value : ℕ) (atLogIndexHigh : UInt64) (proofBlob leafBlob : Bytes) (accepted : Bool),
      (ledger.stateRoots atLogIndexHigh).root = canonicalRoot pending →
      CollisionFreeProof pending proofBlob leafBlob →
      withdrawWithProof params ledger value atLogIndexHigh proofBlob leafBlob accepted = .ok next →
      ∃ index siblings wd, decodeWithdrawalProof proofBlob = .ok (leafBlob, index, siblings) ∧
          pending index = some wd ∧ leafBlob = wd.encode) ∧
    ∀ (ledger final : Ledger) (trace : List (Ledger × BridgeCall)),
      Run (bridgeStep recover params) ledger trace final →
      ∀ leafBlob, trace.countP (paysFor leafBlob) ≤ 1 := by
  constructor
  · intro ledger next pending value atLogIndexHigh proofBlob leafBlob accepted hroot hfree hcall
    exact withdrawn_leaf_populated hroot hfree hcall
  · intro ledger final trace hrun leafBlob
    exact (payments_le_one hrun leafBlob).1

theorem collisionFree_canonicalProof {pending : UInt64 → Option PendingWithdrawal} {id : UInt64}
    {wd : PendingWithdrawal} (hwd : pending id = some wd) :
    CollisionFreeProof pending (encodeWithdrawalProof wd.encode id (canonicalSiblings pending id))
      wd.encode := by
  intro proofLeaf index siblings hdecode
  rw [decode_canonicalProof, Except.ok.injEq, Prod.mk.injEq, Prod.mk.injEq] at hdecode
  obtain ⟨rfl, rfl, rfl⟩ := hdecode
  refine ⟨NoCollision.refl _, ?_⟩
  rw [canonicalSiblings, reverse_reverse, ← leafOf_populated hwd]
  exact MerkleTree.noCollisionAlong_pathSiblings (leafOf pending) smtHeight 0 id.toNat

/-- The withdrawal with id 5 is accepted: it is the populated leaf 5, and the
run which redeems it pays for it once. -/
theorem withdrawal_sound_at_five :
    (∃ index siblings wd, decodeWithdrawalProof
          (encodeWithdrawalProof (PendingWithdrawal.encode ⟨0, 0xACC, 70, 5⟩) 5
            (canonicalSiblings (singleWithdrawal 5 5) 5)) =
        .ok (PendingWithdrawal.encode ⟨0, 0xACC, 70, 5⟩, index, siblings) ∧
      singleWithdrawal 5 5 index = some wd ∧
      PendingWithdrawal.encode ⟨0, 0xACC, 70, 5⟩ = wd.encode) ∧
    ∃ trace final, Run (bridgeStep sampleRecover sampleBridge)
        (fundedLedger (singleWithdrawal 5 5)) trace final ∧
      0 < trace.countP (paysFor (PendingWithdrawal.encode ⟨0, 0xACC, 70, 5⟩)) ∧
      trace.countP (paysFor (PendingWithdrawal.encode ⟨0, 0xACC, 70, 5⟩)) ≤ 1 := by
  obtain ⟨next, hcall⟩ := withdraw_canonical_of_index rfl (fundedLedger_redeemable 5 5) rfl
  have hrun : Run (bridgeStep sampleRecover sampleBridge) (fundedLedger (singleWithdrawal 5 5))
      ([] ++ [(_, .withdrawWithProof 0 1 _ _ true)]) next := Run.snoc Run.nil hcall
  constructor
  · exact (withdrawal_sound_and_single sampleRecover sampleBridge).1 _ next
      (singleWithdrawal 5 5) 0 1 _ _ true (fundedLedger_redeemable 5 5).root
      (collisionFree_canonicalProof rfl) hcall
  · refine ⟨_, next, hrun, by simp [paysFor], ?_⟩
    exact (withdrawal_sound_and_single sampleRecover sampleBridge).2 _ _ _ hrun _

end Bridge
end Canon
