import Canon.SmtCellVerifier

/-!
# The proofs which the tree gives

The proof of a key has a bit for every level at which the subtree beside the path is not
empty, and the digests of these subtrees in the order of the walk.
-/

namespace Canon
namespace SmtCellVerifier

open List

/-! ## Bits -/

theorem shiftRight_and_one (value i : ℕ) : value >>> i &&& 1 = (value.testBit i).toNat := by
  rw [Nat.and_one_is_mod, Nat.shiftRight_eq_div_pow, Nat.toNat_testBit]

theorem shiftRight_three (d : ℕ) : d >>> 3 = d / 8 := by
  rw [Nat.shiftRight_eq_div_pow]

theorem and_seven (d : ℕ) : d &&& 7 = d % 8 := Nat.and_two_pow_sub_one_eq_mod d 3

variable {d : ℕ} {key : Bytes32}

theorem keyBit_eq_testBit (key : Bytes32) (hd : d < smtDepth) :
    keyBit key.toBytes d = (key.toBytes.getD (d / 8) 0).toNat.testBit (7 - d % 8) := by
  have hdepth : smtDepth = 256 := rfl
  rw [keyBit, readKeyBitMSBFirst, shiftRight_three, and_seven, key.length_toBytes,
    if_neg (by omega), shiftRight_and_one]
  cases (key.toBytes.getD (d / 8) 0).toNat.testBit (7 - d % 8) <;> rfl

theorem eq_of_testBit {byte other : UInt8}
    (hbits : ∀ i < 8, byte.toNat.testBit i = other.toNat.testBit i) : byte = other := by
  apply UInt8.toNat_inj.mp
  apply Nat.eq_of_testBit_eq
  intro i
  rcases Nat.lt_or_ge i 8 with hlt | hge
  · exact hbits i hlt
  · have hpow : 2 ^ 8 ≤ 2 ^ i := Nat.pow_le_pow_right (by decide) hge
    rw [Nat.testBit_lt_two_pow (byte.toNat_lt.trans_le hpow),
      Nat.testBit_lt_two_pow (other.toNat_lt.trans_le hpow)]

theorem key_of_bits {other : Bytes32}
    (hbits : ∀ d < smtDepth, keyBit key.toBytes d = keyBit other.toBytes d) : key = other := by
  have hdepth : smtDepth = 256 := rfl
  apply Bytes32.toBytes_injective
  apply ext_getElem (by rw [key.length_toBytes, other.length_toBytes])
  intro i hi hother
  rw [key.length_toBytes] at hi
  apply eq_of_testBit
  intro j hj
  have hbit := hbits (8 * i + (7 - j)) (by omega)
  rw [keyBit_eq_testBit _ (by omega), keyBit_eq_testBit _ (by omega),
    show (8 * i + (7 - j)) / 8 = i by omega,
    show 7 - (8 * i + (7 - j)) % 8 = j by omega] at hbit
  simpa [getD_eq_getElem?_getD, List.getElem?_eq_getElem, hi,
    key.length_toBytes, other.length_toBytes] using hbit

/-! ## Masks -/

/-- The bytes whose bits, from the low end of each byte, are those given. -/
def maskBytes (bits : ℕ → Bool) : Bytes := (List.range bitmaskBytes).map fun i =>
    UInt8.ofNat (Nat.ofBits fun j : Fin 8 => bits (8 * i + j))

theorem maskBytes_length (bits : ℕ → Bool) : (maskBytes bits).length = bitmaskBytes := by
  simp [maskBytes]

theorem readBitmaskBit_maskBytes (bits : ℕ → Bool) (hd : d < smtDepth) :
    readBitmaskBit (maskBytes bits) d = (bits d).toNat := by
  have hdepth : smtDepth = 256 := rfl
  have hwidth : bitmaskBytes = 32 := rfl
  have hbyte : (maskBytes bits).getD (d / 8) 0 =
      UInt8.ofNat (Nat.ofBits fun j : Fin 8 => bits (8 * (d / 8) + j)) := by
    have hlt : d / 8 < bitmaskBytes := by omega
    simp [maskBytes, getD_eq_getElem?_getD, hlt]
  have hofBits := Nat.ofBits_lt_two_pow fun j : Fin 8 => bits (8 * (d / 8) + j)
  rw [readBitmaskBit, shiftRight_three, and_seven, maskBytes_length,
    if_neg (by omega), hbyte, shiftRight_and_one, UInt8.toNat_ofNat_of_lt' hofBits,
    Nat.testBit_ofBits_lt _ _ (Nat.mod_lt d (by decide))]
  simp only [Nat.div_add_mod]

/-! ## The canonical proof -/

section Canonical

variable (entries : List (Bytes32 × Bytes)) (key : Bytes32)

def leafDigests : List (Bytes32 × Bytes32) := entries.map fun entry => (entry.1, keccak256 entry.2)

def cellBit (key : Bytes32) (d : ℕ) : Bool := keyBit key.toBytes d

def mapRoot : Bytes32 := KeyedTree.root cellBit hashPair (keccak256 emptyLeafSeed) smtDepth
    (leafDigests entries)

def besidePath : List (List (Bytes32 × Bytes32)) :=
  KeyedTree.siblingEntries cellBit key smtDepth (leafDigests entries)

def canonicalMask : Bytes := maskBytes fun d => !((besidePath entries key).getD d []).isEmpty

def canonicalSiblings : List Bytes32 :=
  KeyedTree.suppliedFrom cellBit hashPair (keccak256 emptyLeafSeed) 0 (besidePath entries key)

def canonicalProof : Bytes :=
  canonicalMask entries key ++ (canonicalSiblings entries key).flatMap Bytes32.toBytes

variable {entries key} {d : ℕ}

theorem flatMap_toBytes_length (siblings : List Bytes32) :
    (siblings.flatMap Bytes32.toBytes).length = siblings.length * hashBytesWidth := by
  induction siblings with
  | nil => rfl
  | cons sibling _ ih =>
    rw [flatMap_cons, length_append, ih, sibling.length_toBytes,
      length_cons, Nat.succ_mul, Nat.add_comm]
    rfl

theorem drop_flatMap_toBytes (siblings : List Bytes32) (i : ℕ) :
    (siblings.flatMap Bytes32.toBytes).drop (i * hashBytesWidth) =
      (siblings.drop i).flatMap Bytes32.toBytes := by
  induction i generalizing siblings with
  | zero => simp
  | succ _ ih =>
    cases siblings with
    | nil => simp
    | cons sibling =>
      have hwidth : sibling.toBytes.length = hashBytesWidth := sibling.length_toBytes
      rw [Nat.succ_mul, Nat.add_comm, ← drop_drop, flatMap_cons, drop_left' hwidth, ih]
      rfl

theorem readSiblingAt_flatMap {siblings rest : List Bytes32} {sibling : Bytes32}
    {i : ℕ} (hdrop : siblings.drop i = sibling :: rest) :
    readSiblingAt (siblings.flatMap Bytes32.toBytes) i = sibling := by
  rw [readSiblingAt, drop_flatMap_toBytes, hdrop, flatMap_cons,
    Bytes32.ofBytes_append sibling.length_toBytes]

@[simp] theorem besidePath_length : (besidePath entries key).length = smtDepth :=
  KeyedTree.siblingEntries_length ..

theorem besidePath_take_succ (hd : d < smtDepth) :
    (besidePath entries key).take (d + 1) =
      (besidePath entries key).take d ++ [(besidePath entries key).getD d []] := by
  have hlt : d < (besidePath entries key).length := by rwa [besidePath_length]
  rw [take_succ_eq_append_getElem hlt, getD_eq_getElem?_getD, List.getElem?_eq_getElem hlt]
  rfl

theorem canonicalMask_bit (hd : d < smtDepth) :
    readBitmaskBit (canonicalMask entries key) d =
      (!((besidePath entries key).getD d []).isEmpty).toNat := readBitmaskBit_maskBytes _ hd

theorem besidePath_take_length (hd : d ≤ smtDepth) :
    ((besidePath entries key).take d).length = d := by
  rw [length_take, besidePath_length]
  omega

theorem canonicalSiblings_drop {d : ℕ} (hd : d ≤ smtDepth) : (canonicalSiblings entries key).drop
        (KeyedTree.suppliedFrom cellBit hashPair (keccak256 emptyLeafSeed) 0
          ((besidePath entries key).take d)).length =
      KeyedTree.suppliedFrom cellBit hashPair (keccak256 emptyLeafSeed) d
        ((besidePath entries key).drop d) := by
  have hsplit := @KeyedTree.suppliedFrom_append Bytes32 Bytes32 cellBit hashPair
    (keccak256 emptyLeafSeed) 0 ((besidePath entries key).take d) ((besidePath entries key).drop d)
  rw [take_append_drop, besidePath_take_length hd, Nat.zero_add] at hsplit
  rw [canonicalSiblings, hsplit]
  exact drop_left

theorem chosenSiblings_canonical (hd : d ≤ smtDepth) : chosenSiblings (canonicalMask entries key)
        ((canonicalSiblings entries key).flatMap Bytes32.toBytes) d =
      (KeyedTree.digestsFrom cellBit hashPair (keccak256 emptyLeafSeed) 0
          ((besidePath entries key).take d),
        (KeyedTree.suppliedFrom cellBit hashPair (keccak256 emptyLeafSeed) 0
          ((besidePath entries key).take d)).length) := by
  induction d with
  | zero => rfl
  | succ d ih =>
    have hlt : d < (besidePath entries key).length := by
      rw [besidePath_length]
      omega
    have hdrop := @canonicalSiblings_drop entries key d (by omega)
    rw [drop_eq_getElem_cons hlt] at hdrop
    have hget : (besidePath entries key).getD d [] = (besidePath entries key)[d] := by
      rw [getD_eq_getElem?_getD, List.getElem?_eq_getElem hlt]
      rfl
    rw [chosenSiblings, ih (by omega), besidePath_take_succ (by omega),
      KeyedTree.digestsFrom_concat, KeyedTree.suppliedFrom_append,
      besidePath_take_length (by omega), Nat.zero_add, nextSibling,
      canonicalMask_bit (by omega), hget]
    cases hempty : (besidePath entries key)[d].isEmpty with
    | true =>
      have hnil := isEmpty_iff.mp hempty
      rw [if_neg (by decide), hnil, KeyedTree.root_nil]
      simp [KeyedTree.suppliedFrom, emptyHash]
    | false =>
      rw [KeyedTree.suppliedFrom, hempty, if_neg Bool.false_ne_true] at hdrop
      have hcursor : (KeyedTree.suppliedFrom cellBit hashPair
          (keccak256 emptyLeafSeed) 0 ((besidePath entries key).take d)).length <
          (canonicalSiblings entries key).length := by
        by_contra hge
        rw [drop_eq_nil_of_le (Nat.not_lt.mp hge)] at hdrop
        cases hdrop
      rw [if_pos (by decide), flatMap_toBytes_length,
        Nat.mul_div_cancel _ (by decide), if_pos hcursor, readSiblingAt_flatMap hdrop]
      simp [KeyedTree.suppliedFrom, hempty]

theorem walkSteps_canonical :
    walkSteps key.toBytes (canonicalProof entries key) = KeyedTree.stepsFrom cellBit key 0
        (KeyedTree.digestsFrom cellBit hashPair (keccak256 emptyLeafSeed) 0
          (besidePath entries key)) := by
  have hmask : (canonicalMask entries key).length = bitmaskBytes := maskBytes_length _
  have hsteps : ∀ (siblings : List Bytes32) (d : ℕ),
      KeyedTree.stepsFrom keyBit key.toBytes d siblings =
        KeyedTree.stepsFrom cellBit key d siblings := by
    intro siblings
    induction siblings with
    | nil => exact fun _ => rfl
    | cons _ _ ih =>
      intro d
      rw [KeyedTree.stepsFrom, ih]
      rfl
  rw [walkSteps, canonicalProof, take_left' hmask, drop_left' hmask,
    chosenSiblings_canonical le_rfl, hsteps, take_of_length_le]
  rw [besidePath_length]

end Canonical

theorem verifyCellProof_canonical {entries : List (Bytes32 × Bytes)} {leafPreimage : Bytes}
    (hkeys : (entries.map Prod.fst).Nodup) (hmem : (key, leafPreimage) ∈ entries) :
    verifyCellProof (mapRoot entries) key.toBytes leafPreimage
      (canonicalProof entries key) = true := by
  have hlength : (canonicalProof entries key).length =
      bitmaskBytes + (canonicalSiblings entries key).length * hashBytesWidth := by
    rw [canonicalProof, length_append, flatMap_toBytes_length]
    exact congrArg (· + _) (maskBytes_length _)
  rw [verifyCellProof_iff, hlength]
  refine ⟨⟨Nat.le_add_right _ _, ?_⟩, ?_⟩
  · rw [Nat.add_sub_cancel_left, Nat.mul_mod_left]
  · have hdigests : ((leafDigests entries).map Prod.fst).Nodup := by
      rw [leafDigests, map_map]
      exact hkeys
    have hleaf := @KeyedTree.root_matching Bytes32 Bytes32 cellBit hashPair
      (keccak256 emptyLeafSeed) key smtDepth _ _ (fun entry _ hbits => key_of_bits hbits) hdigests
      (mem_map.mpr ⟨_, hmem, rfl⟩)
    have hclimb := @KeyedTree.climb_siblings Bytes32 Bytes32 cellBit hashPair
      (keccak256 emptyLeafSeed) key smtDepth (leafDigests entries)
    rw [hleaf] at hclimb
    rw [walkSteps_canonical]
    exact hclimb

/-- The walk with the accumulator is the one which looks up the empty subtrees, and it
accepts what the tree of a map gives. -/
theorem cellVerifier_complete :
    (∀ smtKey leafPreimage proofData, recomputeRoot smtKey leafPreimage proofData =
        referenceRoot smtKey leafPreimage proofData) ∧
    ∀ (entries : List (Bytes32 × Bytes)) (key : Bytes32) (leafPreimage : Bytes),
      (entries.map Prod.fst).Nodup → (key, leafPreimage) ∈ entries →
        verifyCellProof (mapRoot entries) key.toBytes leafPreimage
          (canonicalProof entries key) = true := by
  constructor
  · intro smtKey leafPreimage proofData
    rw [recomputeRoot_eq, referenceRoot_eq]
  · intro entries key leafPreimage hkeys hmem
    exact verifyCellProof_canonical hkeys hmem

theorem cellVerifier_complete_two :
    verifyCellProof (mapRoot [(.zero, [1]), (Bytes32.zero.perturb, [2])])
      Bytes32.zero.perturb.toBytes [2]
      (canonicalProof [(.zero, [1]), (Bytes32.zero.perturb, [2])] Bytes32.zero.perturb) = true :=
  cellVerifier_complete.2 _ _ _ (by decide) (by simp)

end SmtCellVerifier
end Canon
