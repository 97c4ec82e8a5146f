import Canon.DisputeReplayEvidence
import Canon.DisputeVerifierV2

/-!
# Counting a quorum

Both dispute verifiers go through the pairs of signers and signatures once, skip
what does not concern them, and remember the signers already counted.  The first
version calls the recovery library directly, which reverts on a malformed signature;
the second version catches the revert.
-/

namespace Canon
namespace Quorum

open List

/-! ## The set which is counted -/

section Signers

variable (recover : Recover) (approved : List Address) (digest : Bytes32)

/-- The pair is not skipped before the recovery: an approved non-zero signer
with a signature of the right length. -/
def Eligible (pair : Address × Bytes) : Prop := pair.1 ≠ 0 ∧ pair.1 ∈ approved ∧ pair.2.length = 65

instance (pair : Address × Bytes) : Decidable (Eligible approved pair) :=
  inferInstanceAs (Decidable (_ ∧ _ ∧ _))

/-- The pair is a valid signature of the digest by an approved signer. -/
def Signs (pair : Address × Bytes) : Prop :=
  Eligible approved pair ∧ recover digest pair.2 = some pair.1

instance (pair : Address × Bytes) : Decidable (Signs recover approved digest pair) :=
  inferInstanceAs (Decidable (_ ∧ _))

def validSigners (pairs : List (Address × Bytes)) : Finset Address :=
  ((pairs.filter (fun pair => Signs recover approved digest pair)).map Prod.fst).toFinset

/-- The approved non-zero addresses which occur at some position with a valid
65-byte signature of the digest. -/
def signedBy (signers : List Address) (sigs : List Bytes) : Set Address :=
  {signer | signer ≠ 0 ∧ signer ∈ approved ∧
    ∃ (position : ℕ) (sig : Bytes), signers[position]? = some signer ∧
      sigs[position]? = some sig ∧ sig.length = 65 ∧ recover digest sig = some signer}

/-- No pair reaches the recovery with a signature which the library refuses,
unless its signer was counted at an earlier position. -/
def Unblocked (seen : Finset Address) (pairs : List (Address × Bytes)) :
    Prop :=
  ∀ before pair after, pairs = before ++ pair :: after →
    Eligible approved pair → recover digest pair.2 = none →
    pair.1 ∈ seen ∪ validSigners recover approved digest before

end Signers

section Facts

variable {recover : Recover} {approved : List Address} {digest : Bytes32}
  {pairs : List (Address × Bytes)} {signer : Address}

theorem mem_validSigners :
    signer ∈ validSigners recover approved digest pairs ↔
      ∃ sig, (signer, sig) ∈ pairs ∧ Signs recover approved digest (signer, sig) := by
  simp [validSigners]

@[simp] theorem validSigners_nil : validSigners recover approved digest [] = ∅ := rfl

theorem validSigners_cons (pair : Address × Bytes) (pairs : List (Address × Bytes)) :
    validSigners recover approved digest (pair :: pairs) =
      if Signs recover approved digest pair then
        insert pair.1 (validSigners recover approved digest pairs)
      else validSigners recover approved digest pairs := by
  by_cases hsigns : Signs recover approved digest pair
  all_goals simp [validSigners, hsigns]

theorem validSigners_mono {others : List (Address × Bytes)} (hsubset : pairs ⊆ others) :
    validSigners recover approved digest pairs ⊆ validSigners recover approved digest others := by
  intro signer hsigner
  obtain ⟨sig, hmem, hsigns⟩ := mem_validSigners.mp hsigner
  exact mem_validSigners.mpr ⟨sig, hsubset hmem, hsigns⟩

theorem coe_validSigners (signers : List Address) (sigs : List Bytes) :
    (validSigners recover approved digest (signers.zip sigs) : Set Address) =
      signedBy recover approved digest signers sigs := by
  ext signer
  rw [Finset.mem_coe, mem_validSigners]
  constructor
  · rintro ⟨sig, hmem, ⟨hzero, happroved, hlength⟩, hrecover⟩
    obtain ⟨position, hposition⟩ := mem_iff_getElem?.mp hmem
    obtain ⟨hsigner, hsig⟩ := List.getElem?_zip_eq_some.mp hposition
    exact ⟨hzero, happroved, position, sig, hsigner, hsig, hlength, hrecover⟩
  · rintro ⟨hzero, happroved, position, sig, hsigner, hsig, hlength, hrecover⟩
    have hmem : (signer, sig) ∈ signers.zip sigs := mem_iff_getElem?.mpr ⟨position,
        List.getElem?_zip_eq_some.mpr ⟨hsigner, hsig⟩⟩
    exact ⟨sig, hmem, ⟨hzero, happroved, hlength⟩, hrecover⟩

theorem ncard_signedBy (signers : List Address) (sigs : List Bytes) :
    (signedBy recover approved digest signers sigs).ncard =
      (validSigners recover approved digest (signers.zip sigs)).card := by
  rw [← coe_validSigners, Set.ncard_coe_finset]

theorem unblocked_cons {seen : Finset Address} {pair : Address × Bytes} :
    Unblocked recover approved digest seen (pair :: pairs) ↔
      (Eligible approved pair → recover digest pair.2 = none → pair.1 ∈ seen) ∧
      Unblocked recover approved digest
        (seen ∪ validSigners recover approved digest [pair]) pairs := by
  have hsplit : ∀ before : List (Address × Bytes),
      validSigners recover approved digest (pair :: before) =
        validSigners recover approved digest [pair] ∪
          validSigners recover approved digest before := by
    intro before
    rw [validSigners_cons, validSigners_cons pair [], validSigners_nil]
    split
    · rw [Finset.insert_union, Finset.empty_union]
    · rw [Finset.empty_union]
  constructor
  · intro hunblocked
    constructor
    · intro heligible hnone
      have hmem := hunblocked [] pair pairs rfl heligible hnone
      simpa using hmem
    · intro before next after hpairs heligible hnone
      have hmem := hunblocked (pair :: before) next after
        (by rw [hpairs, cons_append]) heligible hnone
      rwa [hsplit, ← Finset.union_assoc] at hmem
  · rintro ⟨hfirst, hrest⟩ before next after hpairs heligible hnone
    cases before with
    | nil =>
      obtain ⟨rfl, rfl⟩ := List.cons.inj hpairs
      exact Finset.mem_union_left _ (hfirst heligible hnone)
    | cons _ before =>
      obtain ⟨rfl, rfl⟩ := List.cons.inj hpairs
      rw [hsplit, ← Finset.union_assoc]
      exact hrest before next after rfl heligible hnone

theorem toFinset_snoc (seen : List Address) (signer : Address) :
    (seen ++ [signer]).toFinset = insert signer seen.toFinset := by
  ext other
  simp

theorem nodup_snoc {seen : List Address} (hnodup : seen.Nodup) (hfresh : signer ∉ seen) :
    (seen ++ [signer]).Nodup := by
  rw [nodup_append]
  refine ⟨hnodup, nodup_singleton signer, ?_⟩
  intro other hother last hlast
  rw [mem_singleton] at hlast
  rintro rfl
  exact hfresh (hlast ▸ hother)

end Facts

/-! ## The two loops -/

section Loops

variable {recover : Recover} {digest : Bytes32} {seen : List Address}

theorem countSignatures_eq_card (wiring : DisputeV2.Wiring) (pairs : List (Address × Bytes))
    (hnodup : seen.Nodup) :
    DisputeV2.countSignatures recover wiring digest pairs seen =
      (seen.toFinset ∪ validSigners recover
        wiring.verifier.approvedAdjudicators digest pairs).card := by
  induction pairs generalizing seen with
  | nil =>
    rw [validSigners_nil, Finset.union_empty, toFinset_card_of_nodup hnodup]
    rfl
  | cons pair _ ih =>
    obtain ⟨signer, sig⟩ := pair
    have happroved : wiring.verifier.isApprovedAdjudicator signer = false ↔
        signer ∉ wiring.verifier.approvedAdjudicators := by
      rw [← Bool.not_eq_true, not_iff_not]
      simp [DisputeV2.VerifierParams.isApprovedAdjudicator]
    rw [DisputeV2.countSignatures, validSigners_cons]
    simp only [happroved, any_eq_true, decide_eq_true_eq, exists_eq_right]
    by_cases hskip : signer = 0 ∨ signer ∉ wiring.verifier.approvedAdjudicators ∨
        sig.length ≠ 65 ∨ signer ∈ seen
    · rw [if_pos hskip, ih hnodup]
      split
      · rename_i hsigns
        have hseen : signer ∈ seen := by
          obtain ⟨⟨hzero, hmem, hlength⟩, _⟩ := hsigns
          tauto
        rw [Finset.union_insert, Finset.insert_eq_of_mem]
        exact Finset.mem_union_left _ (mem_toFinset.mpr hseen)
      · rfl
    · rw [if_neg hskip]
      have heligible : Eligible wiring.verifier.approvedAdjudicators (signer, sig) := by
        tauto
      have hfresh : signer ∉ seen := by tauto
      by_cases hrecover : recover digest sig = some signer
      · rw [if_pos hrecover, ih (nodup_snoc hnodup hfresh),
          if_pos ⟨heligible, hrecover⟩, toFinset_snoc, Finset.insert_union, Finset.union_insert]
      · rw [if_neg hrecover, ih hnodup, if_neg]
        exact fun hsigns => hrecover hsigns.2

theorem countSignatures_cons (approved : List Address) (signer : Address)
    (sig : Bytes) (pairs : List (Address × Bytes)) (seen : List Address) :
    Dispute.countSignatures recover approved digest ((signer, sig) :: pairs) seen =
      if signer = 0 ∨ signer ∉ approved ∨ sig.length ≠ 65 ∨ signer ∈ seen then
        Dispute.countSignatures recover approved digest pairs seen
      else
        match recover digest sig with
        | none => .error .signatureMalformed
        | some recovered =>
          if recovered ≠ signer then
            Dispute.countSignatures recover approved digest pairs seen
          else
            Dispute.countSignatures recover approved digest pairs (seen ++ [signer]) :=
  rfl

theorem countSignatures_eq_ok_iff (approved : List Address) (pairs : List (Address × Bytes))
    (hnodup : seen.Nodup) (count : ℕ) :
    Dispute.countSignatures recover approved digest pairs seen = .ok count ↔
      Unblocked recover approved digest seen.toFinset pairs ∧
        count = (seen.toFinset ∪ validSigners recover approved digest pairs).card := by
  induction pairs generalizing seen with
  | nil =>
    have hnone : Unblocked recover approved digest seen.toFinset [] := by
      intro before pair after hpairs
      cases before <;> cases hpairs
    rw [validSigners_nil, Finset.union_empty, toFinset_card_of_nodup hnodup]
    constructor
    · intro hok
      exact ⟨hnone, (Except.ok.inj hok).symm⟩
    · rintro ⟨_, rfl⟩
      rfl
  | cons pair _ ih =>
    obtain ⟨signer, sig⟩ := pair
    rw [countSignatures_cons, unblocked_cons, validSigners_cons,
      validSigners_cons, validSigners_nil]
    by_cases hskip : signer = 0 ∨ signer ∉ approved ∨ sig.length ≠ 65 ∨ signer ∈ seen
    · rw [if_pos hskip, ih hnodup]
      have hfirst : Eligible approved (signer, sig) →
          recover digest sig = none → signer ∈ seen.toFinset := by
        rintro ⟨hzero, hmem, hlength⟩ _
        rw [mem_toFinset]
        tauto
      split
      · rename_i hsigns
        have hseen : signer ∈ seen.toFinset := by
          obtain ⟨⟨hzero, hmem, hlength⟩, _⟩ := hsigns
          rw [mem_toFinset]
          tauto
        rw [Finset.union_insert, Finset.union_empty,
          Finset.insert_eq_of_mem hseen, Finset.union_insert,
          Finset.insert_eq_of_mem (Finset.mem_union_left _ hseen)]
        exact ⟨fun h => ⟨⟨hfirst, h.1⟩, h.2⟩, fun h => ⟨h.1.2, h.2⟩⟩
      · rw [Finset.union_empty]
        exact ⟨fun h => ⟨⟨hfirst, h.1⟩, h.2⟩, fun h => ⟨h.1.2, h.2⟩⟩
    · rw [if_neg hskip]
      have heligible : Eligible approved (signer, sig) := by
        tauto
      have hfresh : signer ∉ seen := by tauto
      cases hrecover : recover digest sig with
      | none =>
        constructor
        · intro herror
          cases herror
        · rintro ⟨⟨hfirst, _⟩, _⟩
          exact absurd (mem_toFinset.mp (hfirst heligible rfl)) hfresh
      | some recovered =>
        by_cases hsame : recovered = signer
        · subst hsame
          have hsigns : Signs recover approved digest (recovered, sig) := ⟨heligible, hrecover⟩
          dsimp only
          rw [if_neg (not_not.mpr rfl), ih (nodup_snoc hnodup hfresh),
            if_pos hsigns, if_pos hsigns, toFinset_snoc,
            Finset.insert_union, Finset.union_insert, Finset.union_insert, Finset.union_empty]
          exact ⟨fun h => ⟨⟨fun _ hnone => by simp at hnone, h.1⟩, h.2⟩, fun h => ⟨h.1.2, h.2⟩⟩
        · have hsigns : ¬ Signs recover approved digest (signer, sig) := by
            rintro ⟨_, hother⟩
            rw [hrecover] at hother
            exact hsame (Option.some.inj hother)
          dsimp only
          rw [if_pos hsame, ih hnodup, if_neg hsigns, if_neg hsigns, Finset.union_empty]
          exact ⟨fun h => ⟨⟨fun _ hnone => by simp at hnone, h.1⟩, h.2⟩, fun h => ⟨h.1.2, h.2⟩⟩

end Loops

/-! ## Both versions count the signers -/

section Counts

variable {recover : Recover} {digest : Bytes32} {signers : List Address} {sigs : List Bytes}

theorem v2_count_eq (wiring : DisputeV2.Wiring) (signers : List Address) (sigs : List Bytes) :
    DisputeV2.countVerifiedSignatures recover wiring digest signers sigs =
      (signedBy recover wiring.verifier.approvedAdjudicators digest signers sigs).ncard := by
  rw [DisputeV2.countVerifiedSignatures,
    countSignatures_eq_card wiring _ nodup_nil, ncard_signedBy,
    toFinset_nil, Finset.empty_union]

theorem v1_count_eq_ok_iff (deployment : Dispute.Deployment)
    (hlength : signers.length = sigs.length)
    (hmax : signers.length ≤ Dispute.maxVerdictSigners) (count : ℕ) :
    Dispute.countVerifiedSignatures recover deployment digest signers sigs = .ok count ↔
      Unblocked recover deployment.verifier.approvedAdjudicators digest ∅ (signers.zip sigs) ∧
        count = (signedBy recover deployment.verifier.approvedAdjudicators
          digest signers sigs).ncard := by
  rw [Dispute.countVerifiedSignatures, if_neg (not_not.mpr hlength), if_neg (Nat.not_lt.mpr hmax),
    countSignatures_eq_ok_iff _ _ nodup_nil, ncard_signedBy,
    toFinset_nil, Finset.empty_union]

theorem signedBy_mono {otherSigners : List Address} {otherSigs : List Bytes}
    (hsubset : signers.zip sigs ⊆ otherSigners.zip otherSigs) :
    signedBy recover approved digest signers sigs ⊆
      signedBy recover approved digest otherSigners otherSigs := by
  rw [← coe_validSigners, ← coe_validSigners]
  exact Finset.coe_subset.mpr (validSigners_mono hsubset)

end Counts

/-- The second version always returns the number of approved non-zero signers
with a valid signature at some position.  The first version returns it exactly
when no pair of an approved signer has a malformed signature before that signer
was counted, and never returns anything else.  Pairs with the same members,
whatever their order and multiplicity, have the same signers, and further pairs
take no signer away. -/
theorem quorum_count_iff (recover : Recover)
    (deployment : Dispute.Deployment) (wiring : DisputeV2.Wiring)
    (digest : Bytes32) (signers : List Address) (sigs : List Bytes)
    (hlength : signers.length = sigs.length) (hmax : signers.length ≤ 64) :
    DisputeV2.countVerifiedSignatures recover wiring digest signers sigs =
      (signedBy recover wiring.verifier.approvedAdjudicators digest signers sigs).ncard ∧
    (Dispute.countVerifiedSignatures recover deployment digest signers sigs =
        .ok (signedBy recover deployment.verifier.approvedAdjudicators digest signers sigs).ncard ↔
      Unblocked recover deployment.verifier.approvedAdjudicators digest ∅ (signers.zip sigs)) ∧
    (∀ count, Dispute.countVerifiedSignatures recover deployment digest signers sigs = .ok count →
      count = (signedBy recover deployment.verifier.approvedAdjudicators
        digest signers sigs).ncard) ∧
    (∀ approved otherSigners otherSigs,
      ((∀ pair, pair ∈ signers.zip sigs ↔ pair ∈ otherSigners.zip otherSigs) →
        signedBy recover approved digest otherSigners otherSigs =
          signedBy recover approved digest signers sigs) ∧
      (signers.zip sigs ⊆ otherSigners.zip otherSigs →
        signedBy recover approved digest signers sigs ⊆
          signedBy recover approved digest otherSigners otherSigs)) := by
  refine ⟨v2_count_eq wiring signers sigs, ?_, ?_, ?_⟩
  · rw [v1_count_eq_ok_iff deployment hlength hmax]
    exact and_iff_left rfl
  · intro count hcount
    exact ((v1_count_eq_ok_iff deployment hlength hmax count).mp hcount).2
  · intro approved otherSigners otherSigs
    refine ⟨?_, signedBy_mono⟩
    intro hsame
    exact Set.Subset.antisymm (signedBy_mono fun pair hpair => (hsame pair).mpr hpair)
      (signedBy_mono fun pair hpair => (hsame pair).mp hpair)

def refusingRecover : Recover := fun digest signature =>
  if signature.head? = some 0xFF then none
  else Bridge.sampleRecover digest signature

def malformedSignature : Bytes := List.replicate 65 0xFF

/-- One pair with a malformed signature in front of a good one: the first
version reverts, although the adjudicator has signed. -/
theorem malformedPair_blocks_count :
    Dispute.countVerifiedSignatures refusingRecover Dispute.sampleDeployment .zero [0xAD1, 0xAD1]
        [malformedSignature, Dispute.adjudicatorSignature] = .error .signatureMalformed ∧
    (signedBy refusingRecover Dispute.sampleDeployment.verifier.approvedAdjudicators .zero
      [0xAD1, 0xAD1] [malformedSignature, Dispute.adjudicatorSignature]).ncard = 1 := by
  refine ⟨by decide +kernel, ?_⟩
  rw [ncard_signedBy]
  decide +kernel

theorem malformedPair_after_count :
    Dispute.countVerifiedSignatures refusingRecover Dispute.sampleDeployment
        .zero [0xAD1, 0xAD1, 0xBAD] [Dispute.adjudicatorSignature, malformedSignature, []] = .ok 1 ∧
    DisputeV2.countVerifiedSignatures refusingRecover DisputeV2.scriptWiring
        .zero [0xAD1, 0xAD1, 0xBAD] [Dispute.adjudicatorSignature, malformedSignature, []] =
      (signedBy refusingRecover DisputeV2.scriptWiring.verifier.approvedAdjudicators .zero
        [0xAD1, 0xAD1, 0xBAD] [Dispute.adjudicatorSignature, malformedSignature, []]).ncard := by
  have hreturns : Dispute.countVerifiedSignatures refusingRecover
      Dispute.sampleDeployment .zero [0xAD1, 0xAD1, 0xBAD]
      [Dispute.adjudicatorSignature, malformedSignature, []] = .ok 1 := by
    decide +kernel
  exact ⟨hreturns, (quorum_count_iff refusingRecover Dispute.sampleDeployment
    DisputeV2.scriptWiring .zero [0xAD1, 0xAD1, 0xBAD]
    [Dispute.adjudicatorSignature, malformedSignature, []] rfl (by decide)).1⟩

/-! ## A quorum which can be met -/

section Reachable

variable {recover : Recover} {approved : List Address} {digest : Bytes32}
  {deployment : Dispute.Deployment} {wiring : DisputeV2.Wiring}

end Reachable

variable {approved : List Address} {self : Address}

end Quorum

end Canon
