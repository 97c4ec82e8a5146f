import Canon.GuardedCalls
import Canon.KeccakSponge
import Canon.KeyedMerkleTree

/-!
# Proofs of a single cell

A proof is a bitmask of 32 bytes and a list of digests: where a bit of the mask is clear,
the sibling is the digest of an empty subtree and is not in the proof.  The bits of the
mask are counted from the low end of each byte, and those of the key from the high end.
-/

namespace Canon
namespace SmtCellVerifier

open List

def smtDepth : ℕ := 256

def bitmaskBytes : ℕ := 32

def hashBytesWidth : ℕ := 32

/-- The sibling which a mask asks for and the proof does not have. -/
def paddingHash : Bytes32 := .zero

def emptyLeafSeed : Bytes := asciiBytes "EMPTY_LEAF"

inductive SmtCellError where
  | proofTooShort (actualLength : ℕ)
  | siblingsMisaligned (siblingsRegionLength : ℕ)
  | depthOutOfRange (depth : ℕ)
  deriving DecidableEq

def hashPair (left right : Bytes32) : Bytes32 := keccak256 (left.toBytes ++ right.toBytes)

def emptySubtreeHash (d : ℕ) : Except SmtCellError Bytes32 := do
  revertIf (smtDepth ≤ d) (.depthOutOfRange d)
  return (fun h => hashPair h h)^[d] (keccak256 emptyLeafSeed)

def readKeyBitMSBFirst (smtKey : Bytes) (d : ℕ) : ℕ :=
  if smtKey.length ≤ d >>> 3 then 0
  else (smtKey.getD (d >>> 3) 0).toNat >>> (7 - (d &&& 7)) &&& 1

def readBitmaskBit (bitmask : Bytes) (d : ℕ) : ℕ :=
  if bitmask.length ≤ d >>> 3 then 0
  else (bitmask.getD (d >>> 3) 0).toNat >>> (d &&& 7) &&& 1

def readSiblingAt (siblings : Bytes) (idx : ℕ) : Bytes32 :=
  .ofBytes (siblings.drop (idx * hashBytesWidth))

/-! ## The walk -/

structure WalkState where
  current : Bytes32
  emptyAtD : Bytes32
  siblingsCursor : ℕ

section Walk

variable (smtKey bitmask siblings : Bytes)

/-- The sibling at a level and the cursor behind it, where a clear bit stands for the
given digest. -/
def nextSibling (clear : Bytes32) (d siblingsCursor : ℕ) : Bytes32 × ℕ :=
  if readBitmaskBit bitmask d = 1 then
    if siblingsCursor < siblings.length / hashBytesWidth then
      (readSiblingAt siblings siblingsCursor, siblingsCursor + 1)
    else (paddingHash, siblingsCursor)
  else (clear, siblingsCursor)

def joinAt (d : ℕ) (current sibling : Bytes32) : Bytes32 :=
  if readKeyBitMSBFirst smtKey d = 1 then hashPair sibling current
  else hashPair current sibling

def walkLevel (state : WalkState) (d : ℕ) : WalkState :=
  let (sibling, siblingsCursor) :=
    nextSibling bitmask siblings state.emptyAtD d state.siblingsCursor
  { current := joinAt smtKey d state.current sibling
    emptyAtD := if d < smtDepth - 1 then hashPair state.emptyAtD state.emptyAtD
      else state.emptyAtD
    siblingsCursor := siblingsCursor }

/-- The same level with the digest of the empty subtree computed anew. -/
def referenceLevel (state : Bytes32 × ℕ) (d : ℕ) : Except SmtCellError (Bytes32 × ℕ) := do
  let clear ← emptySubtreeHash d
  let (sibling, siblingsCursor) := nextSibling bitmask siblings clear d state.2
  return (joinAt smtKey d state.1 sibling, siblingsCursor)

end Walk

def checkProofData (proofData : Bytes) : Except SmtCellError Unit := do
  revertIf (proofData.length < bitmaskBytes) (.proofTooShort proofData.length)
  revertIf ((proofData.length - bitmaskBytes) % hashBytesWidth ≠ 0)
    (.siblingsMisaligned (proofData.length - bitmaskBytes))

def recomputeRoot (smtKey leafPreimage proofData : Bytes) : Except SmtCellError Bytes32 := do
  checkProofData proofData
  let bitmask := proofData.take bitmaskBytes
  let siblings := proofData.drop bitmaskBytes
  let state := (List.range smtDepth).foldl (walkLevel smtKey bitmask siblings)
    ⟨keccak256 leafPreimage, keccak256 emptyLeafSeed, 0⟩
  return state.current

/-- The walk which looks up the digest of the empty subtree at each level. -/
def referenceRoot (smtKey leafPreimage proofData : Bytes) : Except SmtCellError Bytes32 := do
  checkProofData proofData
  let bitmask := proofData.take bitmaskBytes
  let siblings := proofData.drop bitmaskBytes
  let state ← (List.range smtDepth).foldlM (referenceLevel smtKey bitmask siblings)
    (keccak256 leafPreimage, 0)
  return state.1

def verifyCellProof (root : Bytes32) (smtKey leafPreimage proofData : Bytes) : Bool :=
  if proofData.length < bitmaskBytes then false
  else if (proofData.length - bitmaskBytes) % hashBytesWidth ≠ 0 then false
  else recomputeRoot smtKey leafPreimage proofData = .ok root

/-! ## The walk as a climb -/

def emptyHash (d : ℕ) : Bytes32 := KeyedTree.emptyAt hashPair (keccak256 emptyLeafSeed) d

variable {d : ℕ}

theorem emptySubtreeHash_of_lt (hd : d < smtDepth) : emptySubtreeHash d = .ok (emptyHash d) := by
  have hiterate : ∀ d, (fun h => hashPair h h)^[d] (keccak256 emptyLeafSeed) = emptyHash d := by
    intro d
    induction d with
    | zero => rfl
    | succ _ ih =>
      rw [Function.iterate_succ_apply', ih]
      rfl
  rw [emptySubtreeHash, revertIf_of_not (by omega), ok_bind, hiterate]
  rfl

def keyBit (smtKey : Bytes) (d : ℕ) : Bool := readKeyBitMSBFirst smtKey d = 1

theorem joinAt_eq_parent (smtKey : Bytes) (d : ℕ) (current sibling : Bytes32) :
    joinAt smtKey d current sibling =
      KeyedTree.parent hashPair (keyBit smtKey d) current sibling := by
  by_cases hbit : readKeyBitMSBFirst smtKey d = 1
  all_goals simp [joinAt, KeyedTree.parent, KeyedTree.children, keyBit, hbit]

section Climb

variable (bitmask siblings : Bytes)

/-- The siblings of the first levels, and the cursor behind them. -/
def chosenSiblings : ℕ → List Bytes32 × ℕ
  | 0 => ([], 0)
  | d + 1 =>
    let (sibling, cursor) := nextSibling bitmask siblings (emptyHash d) d (chosenSiblings d).2
    ((chosenSiblings d).1 ++ [sibling], cursor)

variable {bitmask siblings} {d : ℕ}

@[simp] theorem chosenSiblings_length (d : ℕ) :
    (chosenSiblings bitmask siblings d).1.length = d := by
  induction d with
  | zero => rfl
  | succ _ ih => simp [chosenSiblings, ih]

theorem climb_chosenSiblings_succ (smtKey : Bytes) (leaf : Bytes32) (d : ℕ) :
    KeyedTree.climb hashPair leaf
        (KeyedTree.stepsFrom keyBit smtKey 0 (chosenSiblings bitmask siblings (d + 1)).1) =
      joinAt smtKey d (KeyedTree.climb hashPair leaf
          (KeyedTree.stepsFrom keyBit smtKey 0 (chosenSiblings bitmask siblings d).1))
        (nextSibling bitmask siblings (emptyHash d) d (chosenSiblings bitmask siblings d).2).1 := by
  rw [chosenSiblings, KeyedTree.stepsFrom_concat, KeyedTree.climb_concat,
    joinAt_eq_parent, chosenSiblings_length, Nat.zero_add]

theorem walk_eq_climb (smtKey : Bytes) (leaf : Bytes32) (hd : d ≤ smtDepth) :
    (List.range d).foldl (walkLevel smtKey bitmask siblings) ⟨leaf, keccak256 emptyLeafSeed, 0⟩ =
      ⟨KeyedTree.climb hashPair leaf (KeyedTree.stepsFrom keyBit smtKey 0
          (chosenSiblings bitmask siblings d).1), emptyHash (min d (smtDepth - 1)),
        (chosenSiblings bitmask siblings d).2⟩ := by
  induction d with
  | zero => rfl
  | succ d ih =>
    have hmin : min d (smtDepth - 1) = d := by omega
    rw [range_succ, foldl_append, ih (by omega), foldl_cons,
      foldl_nil, walkLevel, climb_chosenSiblings_succ, hmin]
    simp only [WalkState.mk.injEq, true_and]
    refine ⟨?_, rfl⟩
    split_ifs with hlast
    · rw [show min (d + 1) (smtDepth - 1) = d + 1 by omega]
      rfl
    · rw [show min (d + 1) (smtDepth - 1) = d by omega]

theorem reference_eq_climb (smtKey : Bytes) (leaf : Bytes32) (hd : d ≤ smtDepth) :
    (List.range d).foldlM (referenceLevel smtKey bitmask siblings) (leaf, 0) =
      .ok (KeyedTree.climb hashPair leaf (KeyedTree.stepsFrom keyBit smtKey 0
          (chosenSiblings bitmask siblings d).1), (chosenSiblings bitmask siblings d).2) := by
  induction d with
  | zero => rfl
  | succ _ ih =>
    rw [range_succ, foldlM_append, ih (by omega), ok_bind,
      foldlM_cons, referenceLevel, emptySubtreeHash_of_lt (by omega), ok_bind,
      climb_chosenSiblings_succ]
    rfl

end Climb

def walkSteps (smtKey proofData : Bytes) : List (Bool × Bytes32) :=
  KeyedTree.stepsFrom keyBit smtKey 0
    (chosenSiblings (proofData.take bitmaskBytes) (proofData.drop bitmaskBytes) smtDepth).1

theorem recomputeRoot_eq (smtKey leafPreimage proofData : Bytes) :
    recomputeRoot smtKey leafPreimage proofData = (do
      checkProofData proofData
      return KeyedTree.climb hashPair (keccak256 leafPreimage) (walkSteps smtKey proofData)) := by
  simp only [recomputeRoot, walk_eq_climb _ _ le_rfl, walkSteps]

theorem referenceRoot_eq (smtKey leafPreimage proofData : Bytes) :
    referenceRoot smtKey leafPreimage proofData = (do
      checkProofData proofData
      return KeyedTree.climb hashPair (keccak256 leafPreimage) (walkSteps smtKey proofData)) := by
  simp only [referenceRoot, reference_eq_climb _ _ le_rfl, ok_bind, walkSteps]

theorem verifyCellProof_iff {root : Bytes32} {smtKey leafPreimage proofData : Bytes} :
    verifyCellProof root smtKey leafPreimage proofData = true ↔
      (bitmaskBytes ≤ proofData.length ∧ (proofData.length - bitmaskBytes) % hashBytesWidth = 0) ∧
      KeyedTree.climb hashPair (keccak256 leafPreimage) (walkSteps smtKey proofData) = root := by
  rw [verifyCellProof, recomputeRoot_eq, checkProofData]
  by_cases hshort : proofData.length < bitmaskBytes
  · simp [hshort, Nat.not_le.mpr hshort]
  · by_cases halign : (proofData.length - bitmaskBytes) % hashBytesWidth = 0
    · have hle := Nat.not_lt.mp hshort
      rw [if_neg hshort, if_neg (not_not.mpr halign), revertIf_of_not hshort, ok_bind,
        revertIf_of_not (not_not.mpr halign), ok_bind]
      simp [hle, halign, pure, Except.pure]
    · simp [halign]

/-! ## Binding -/

def pairBytes (pair : Bytes32 × Bytes32) : Bytes := pair.1.toBytes ++ pair.2.toBytes

theorem pairBytes_injective {pair other : Bytes32 × Bytes32}
    (heq : pairBytes pair = pairBytes other) : pair = other := by
  obtain ⟨hleft, hright⟩ := append_inj heq (by simp)
  exact Prod.ext (Bytes32.toBytes_injective hleft) (Bytes32.toBytes_injective hright)

def walkStrings (smtKey leafPreimage proofData : Bytes) : List Bytes :=
  leafPreimage :: (KeyedTree.joinedPairs hashPair (keccak256 leafPreimage)
    (walkSteps smtKey proofData)).map pairBytes

theorem stepsFrom_bits {siblings others : List Bytes32} (smtKey : Bytes) (d : ℕ)
    (hlength : siblings.length = others.length) :
    (KeyedTree.stepsFrom keyBit smtKey d siblings).map Prod.fst =
      (KeyedTree.stepsFrom keyBit smtKey d others).map Prod.fst := by
  induction siblings generalizing d others with
  | nil =>
    have hnil : others = [] := eq_nil_of_length_eq_zero hlength.symm
    rw [hnil]
  | cons _ _ ih =>
    cases others with
    | nil => cases hlength
    | cons =>
      simp only [KeyedTree.stepsFrom, map_cons]
      rw [ih (d + 1) (Nat.succ.inj hlength)]

/-- A root and a key open to one leaf only, as far as no two strings hashed at the same
level of the two walks collide. -/
theorem verifyCellProof_binding {root : Bytes32}
    {smtKey leafPreimage otherPreimage proofData otherData : Bytes}
    (haccepted : verifyCellProof root smtKey leafPreimage proofData = true)
    (hother : verifyCellProof root smtKey otherPreimage otherData = true)
    (hfree : List.Forall₂ NoCollision (walkStrings smtKey leafPreimage proofData)
      (walkStrings smtKey otherPreimage otherData)) : leafPreimage = otherPreimage := by
  have hroot := (verifyCellProof_iff.mp haccepted).2
  have hotherRoot := (verifyCellProof_iff.mp hother).2
  obtain ⟨hleaf, hwalk⟩ := forall₂_cons.mp hfree
  rw [forall₂_map_left_iff, forall₂_map_right_iff] at hwalk
  apply hleaf
  apply KeyedTree.climb_injective (stepsFrom_bits smtKey 0 (by simp)) ?_
    (hroot.trans hotherRoot.symm)
  apply hwalk.imp
  intro pair otherPair hpair heq
  exact pairBytes_injective (hpair heq)

def bareProof : Bytes := List.replicate 32 0

def explicitProof : Bytes := (1 :: List.replicate 31 0) ++ (emptyHash 0).toBytes

theorem chosenSiblings_bareProof (hd : d ≤ smtDepth) :
    (chosenSiblings (bareProof.take bitmaskBytes) (bareProof.drop bitmaskBytes) d).1 =
      (List.range d).map emptyHash := by
  have hclear : ∀ d < smtDepth, readBitmaskBit (bareProof.take bitmaskBytes) d = 0 := by
    decide +kernel
  induction d with
  | zero => rfl
  | succ d ih =>
    rw [chosenSiblings, ih (by omega), nextSibling, hclear d (by omega),
      if_neg (by decide), range_succ, map_append]
    rfl

theorem chosenSiblings_explicitProof (hd : d ≤ smtDepth) :
    (chosenSiblings (explicitProof.take bitmaskBytes) (explicitProof.drop bitmaskBytes) d).1 =
      (List.range d).map emptyHash := by
  have hmask : explicitProof.take bitmaskBytes = 1 :: List.replicate 31 0 := take_left' rfl
  have hsiblings : explicitProof.drop bitmaskBytes = (emptyHash 0).toBytes := drop_left' rfl
  have hclear : ∀ d < smtDepth, d ≠ 0 → readBitmaskBit (1 :: List.replicate 31 0) d = 0 := by
    decide +kernel
  rw [hmask, hsiblings]
  induction d with
  | zero => rfl
  | succ d ih =>
    rw [chosenSiblings, ih (by omega), nextSibling, range_succ, map_append]
    by_cases hzero : d = 0
    · subst hzero
      have hread : readSiblingAt (emptyHash 0).toBytes 0 = emptyHash 0 := by
        apply Bytes32.toBytes_injective
        exact Bytes32.toBytes_ofBytes (Bytes32.length_toBytes _)
      rw [if_pos (by decide +kernel), chosenSiblings,
        if_pos (by rw [Bytes32.length_toBytes]; decide), hread]
      rfl
    · rw [hclear d (by omega) hzero, if_neg (by decide)]
      rfl

theorem verifyCellProof_binding_masks :
    bareProof ≠ explicitProof ∧
      ∃ root, verifyCellProof root Bytes32.zero.toBytes [1] bareProof = true ∧
        verifyCellProof root Bytes32.zero.toBytes [1] explicitProof = true ∧
        ([1] : Bytes) = [1] := by
  have hsteps : walkSteps Bytes32.zero.toBytes explicitProof =
      walkSteps Bytes32.zero.toBytes bareProof := by
    rw [walkSteps, walkSteps, chosenSiblings_explicitProof le_rfl, chosenSiblings_bareProof le_rfl]
  have hlength : explicitProof.length = 64 := by
    rw [explicitProof, length_append, Bytes32.length_toBytes]
    rfl
  have hbare : verifyCellProof
      (KeyedTree.climb hashPair (keccak256 [1]) (walkSteps Bytes32.zero.toBytes bareProof))
      Bytes32.zero.toBytes [1] bareProof = true := verifyCellProof_iff.mpr ⟨by decide, rfl⟩
  have hexplicit : verifyCellProof
      (KeyedTree.climb hashPair (keccak256 [1]) (walkSteps Bytes32.zero.toBytes bareProof))
      Bytes32.zero.toBytes [1] explicitProof = true := by
    rw [verifyCellProof_iff, hlength, hsteps]
    exact ⟨by decide, rfl⟩
  refine ⟨?_, _, hbare, hexplicit, ?_⟩
  · intro heq
    have hcontra := congrArg List.length heq
    rw [hlength] at hcontra
    cases hcontra
  · apply verifyCellProof_binding hbare hexplicit
    rw [walkStrings, walkStrings, hsteps]
    exact forall₂_same.mpr fun message _ => NoCollision.refl message

end SmtCellVerifier
end Canon
