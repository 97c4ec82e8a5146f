import Canon.CbeCodec
import Canon.KeccakSponge
import Canon.SparseMerkleTree

/-!
# Withdrawal leaves and their Merkle proofs

The leaf of a pending withdrawal is the 56-byte encoding of its four fields.
A proof carries a leaf, an index and 64 siblings, root-adjacent first, all of
variable length.  The canonical tree of a map of pending withdrawals has the encoded
leaves at the populated ids and 32 zero bytes at the others.
-/

namespace Canon
namespace Bridge

open List

open Cbe

inductive BridgeError where
  | notAttestor
  | notDisputeVerifier
  | zeroSequencerStake
  | attestationStale
  | disputeCooldown
  | tvlCapReached
  | migrationActivated
  | nonMonotonic
  | unknownStateRoot
  | stateRootReverted
  | preFinalisation
  | alreadyRedeemed
  | invalidProof
  | unsupportedResource
  | disputeWindowVsRedemption
  | invalidRecipient
  | bridgeAccountingMismatch (totalLockedValue amountRequested : ℕ)
  | invalidSignatureLength
  | signatureInvalid
  | duplicateResourceToken (token : Address)
  | transferAmountMismatch (declared received : ℕ)
  | transferFailed
  | nonPayable
  | arithmeticPanic
  | cbe (error : DecodeError)
  | smtBadProofShape (expected actual : ℕ)
  deriving DecidableEq, Repr

/-- A decoded leaf.  The amount is a `uint64` on the wire and widened by the
contract. -/
structure PendingWithdrawal where
  resourceId : UInt64
  recipientL1 : Address
  amount : UInt64
  l2LogIndex : UInt64
  deriving DecidableEq

def PendingWithdrawal.encode (wd : PendingWithdrawal) : Bytes :=
  encodeUint wd.resourceId ++ (encodeAddress wd.recipientL1 ++
    (encodeUint wd.amount ++ encodeUint wd.l2LogIndex))

variable {siblings : List Bytes} {leaf : Bytes} {wd : PendingWithdrawal} {idx : ℕ}

@[simp] theorem PendingWithdrawal.encode_length (wd : PendingWithdrawal) :
    wd.encode.length = 56 := by
  simp [PendingWithdrawal.encode]

def decodePendingWithdrawal (leafBlob : Bytes) : Except DecodeError PendingWithdrawal := do
  let (resourceId, off) ← readUint leafBlob 0
  let (recipientL1, off) ← readAddressExact leafBlob off
  let (amount, off) ← readUint leafBlob off
  let (l2LogIndex, off) ← readUint leafBlob off
  assertFullyConsumed leafBlob off
  return ⟨resourceId, recipientL1, amount, l2LogIndex⟩

theorem decodePendingWithdrawal_eq_ok {leafBlob : Bytes} :
    decodePendingWithdrawal leafBlob = .ok wd ↔ leafBlob = wd.encode := by
  simp only [decodePendingWithdrawal, bind_eq_ok, Prod.exists,
    readUint_eq_ok, readAddressExact_eq_ok, assertFullyConsumed_eq_ok, pure_eq_ok, exists_const]
  constructor
  · rintro ⟨resourceId, _, ⟨hresource, rfl⟩, recipient, _,
      ⟨hrecipient, rfl⟩, amount, _, ⟨hamount, rfl⟩, l2LogIndex, _, ⟨hindex, rfl⟩, hend, rfl⟩
    have hnil : leafBlob.drop (0 + 9 + 29 + 9 + 9) = [] := by
      rw [hend, drop_length]
    rw [drop_zero, hrecipient, hamount, hindex, hnil, append_nil] at hresource
    exact hresource
  · intro hleaf
    have hlength : leafBlob.length = 56 := by simp [hleaf]
    have hblob : leafBlob.drop 0 = encodeUint wd.resourceId ++
        (encodeAddress wd.recipientL1 ++ (encodeUint wd.amount ++
          (encodeUint wd.l2LogIndex ++ []))) := by
      rw [hleaf, append_nil]
      rfl
    obtain ⟨hresource, hrest⟩ := carries_of_drop (encodeUint_length _) hblob
    obtain ⟨hrecipient, hrest⟩ := carries_of_drop (encodeAddress_length _) hrest
    obtain ⟨hamount, hrest⟩ := carries_of_drop (encodeUint_length _) hrest
    obtain ⟨hindex, _⟩ := carries_of_drop (encodeUint_length _) hrest
    exact ⟨wd.resourceId, _, ⟨hresource, rfl⟩, wd.recipientL1, _,
      ⟨hrecipient, rfl⟩, wd.amount, _, ⟨hamount, rfl⟩, wd.l2LogIndex, _,
      ⟨hindex, rfl⟩, hlength.symm, rfl⟩

theorem PendingWithdrawal.encode_injective : Function.Injective PendingWithdrawal.encode := by
  intro wd other heq
  have hwd := decodePendingWithdrawal_eq_ok.mpr (rfl : wd.encode = wd.encode)
  have hother := decodePendingWithdrawal_eq_ok.mpr heq
  rw [hwd] at hother
  exact Except.ok.inj hother

/-! ## The proof codec -/

def smtHeight : ℕ := 64

def readSiblings (buf : Bytes) : ℕ → ℕ → Except DecodeError (List Bytes × ℕ)
  | 0, off => .ok ([], off)
  | count + 1, off => do
      let (sibling, off) ← readBytes buf off
      let (rest, off) ← readSiblings buf count off
      return (sibling :: rest, off)

def decodeWithdrawalProof (proofBlob : Bytes) :
    Except BridgeError (Bytes × UInt64 × List Bytes) := do
  let (leaf, off) ← (readBytes proofBlob 0).mapError .cbe
  let (index, off) ← (readUint proofBlob off).mapError .cbe
  let (count, off) ← (readArrayHead proofBlob off).mapError .cbe
  revertIf (count.toNat ≠ smtHeight) .invalidProof
  let (siblings, off) ← (readSiblings proofBlob smtHeight off).mapError .cbe
  (assertFullyConsumed proofBlob off).mapError .cbe
  return (leaf, index, siblings)

def encodeWithdrawalProof (leaf : Bytes) (index : UInt64) (siblings : List Bytes) : Bytes :=
  encodeBytes leaf ++ (encodeUint index ++ (encodeHead tagArray 64 ++ siblings.flatMap encodeBytes))

theorem readSiblings_eq_ok {buf : Bytes} {count offset next : ℕ} :
    readSiblings buf count offset = .ok (siblings, next) ↔
      siblings.length = count ∧ (∀ sibling ∈ siblings, sibling.length < 2 ^ 64) ∧
        buf.drop offset = siblings.flatMap encodeBytes ++ buf.drop next ∧
        next = offset + (siblings.flatMap encodeBytes).length := by
  induction count generalizing offset next siblings with
  | zero =>
    constructor
    · intro hread
      cases hread
      simp
    · rintro ⟨hlength, _, _, hnext⟩
      obtain rfl := length_eq_zero_iff.mp hlength
      rw [hnext]
      rfl
  | succ _ ih =>
    simp only [readSiblings, bind_eq_ok, Prod.exists, readBytes_eq_ok,
      pure_eq_ok, Prod.mk.injEq, ih]
    constructor
    · rintro ⟨sibling, _, ⟨hsize, hcarries, rfl⟩, rest, _, ⟨hcount, hsizes, hrest, rfl⟩, rfl, rfl⟩
      refine ⟨by simp [hcount], ?_, ?_, ?_⟩
      · intro other hother
        rcases mem_cons.mp hother with rfl | hmem
        · exact hsize
        · exact hsizes other hmem
      · rw [hcarries, hrest, flatMap_cons, append_assoc]
      · simp only [flatMap_cons, length_append, encodeBytes_length]
        omega
    · rintro ⟨hlength, hsizes, hcarries, hnext⟩
      cases siblings with
      | nil => simp at hlength
      | cons sibling rest =>
        rw [flatMap_cons, append_assoc] at hcarries
        obtain ⟨hsibling, hafter⟩ := carries_of_drop (encodeBytes_length _) hcarries
        refine ⟨sibling, _, ⟨hsizes sibling (by simp), hsibling,
          (Nat.add_assoc _ _ _).symm⟩, rest, next,
          ⟨by simpa using hlength, ?_, hafter, ?_⟩, rfl, rfl⟩
        · intro other hmem
          exact hsizes other (by simp [hmem])
        · rw [hnext, flatMap_cons, length_append, encodeBytes_length]
          omega

theorem decodeWithdrawalProof_eq_ok {proofBlob : Bytes} {index : UInt64} :
    decodeWithdrawalProof proofBlob = .ok (leaf, index, siblings) ↔
      siblings.length = smtHeight ∧ leaf.length < 2 ^ 64 ∧
        (∀ sibling ∈ siblings, sibling.length < 2 ^ 64) ∧
        proofBlob = encodeWithdrawalProof leaf index siblings := by
  simp only [decodeWithdrawalProof, bind_eq_ok, Prod.exists, mapError_eq_ok,
    readBytes_eq_ok, readUint_eq_ok, readArrayHead_eq_ok, revertIf_eq_ok,
    readSiblings_eq_ok, assertFullyConsumed_eq_ok, pure_eq_ok, exists_const,
    Prod.mk.injEq, ne_eq, not_not]
  constructor
  · rintro ⟨_, _, ⟨hleaf, hcarries, rfl⟩, _, _, ⟨hindex, rfl⟩, count, _,
      ⟨hcount, rfl⟩, hheight, _, _, ⟨hlength, hsizes, hsiblings, rfl⟩, hend,
      rfl, rfl, rfl⟩
    have hword : count = 64 := UInt64.toNat_inj.mp hheight
    rw [hend, drop_length, append_nil] at hsiblings
    rw [drop_zero, hindex, hcount, hsiblings, hword] at hcarries
    exact ⟨hlength, hleaf, hsizes, hcarries⟩
  · rintro ⟨hlength, hleaf, hsizes, hblob⟩
    have hblobs : proofBlob.drop 0 = encodeBytes leaf ++
        (encodeUint index ++ (encodeHead tagArray 64 ++ (siblings.flatMap encodeBytes ++ []))) := by
      rw [hblob, append_nil]
      rfl
    have htotal : proofBlob.length = 0 + (9 + leaf.length) + 9 + 9 +
        (siblings.flatMap encodeBytes).length := by
      rw [hblob]
      simp only [encodeWithdrawalProof, length_append,
        encodeBytes_length, encodeUint_length, encodeHead_length]
      omega
    obtain ⟨hcarries, hrest⟩ := carries_of_drop (encodeBytes_length _) hblobs
    obtain ⟨hindex, hrest⟩ := carries_of_drop (encodeUint_length _) hrest
    obtain ⟨hcount, hrest⟩ := carries_of_drop (encodeHead_length _ _) hrest
    obtain ⟨hsiblings, _⟩ := carries_of_drop rfl hrest
    exact ⟨leaf, _, ⟨hleaf, hcarries, (Nat.add_assoc _ _ _).symm⟩, index, _,
      ⟨hindex, rfl⟩, 64, _, ⟨hcount, rfl⟩, rfl, siblings, _,
      ⟨hlength, hsizes, hsiblings, rfl⟩, htotal.symm, rfl, rfl, rfl⟩

/-! ## The verifier's loop -/

/-- One round of the verifier, for the bit selected by the level. -/
def hashUp (idx level : ℕ) (current sibling : Bytes) : Bytes32 :=
  if (idx >>> level) &&& 1 = 1 then keccak256 (sibling ++ current)
  else keccak256 (current ++ sibling)

def recomputeRoot (idx : ℕ) (leaf : Bytes) (siblings : List Bytes) :
    Except BridgeError Bytes32 := do
  revertIf (siblings.length ≠ smtHeight) (.smtBadProofShape smtHeight siblings.length)
  let start := hashUp idx 0 leaf (siblings.getD (smtHeight - 1) [])
  return (List.range' 1 (smtHeight - 1)).foldl
    (fun current i => hashUp idx i current.toBytes (siblings.getD (smtHeight - 1 - i) [])) start

def verifyProof (idx : ℕ) (leaf : Bytes) (siblings : List Bytes)
    (root : Bytes32) : Except BridgeError Bool := do
  let recomputed ← recomputeRoot idx leaf siblings
  return decide (recomputed = root)

theorem hashUp_toBytes (idx level : ℕ) (current sibling : Bytes) :
    (hashUp idx level current sibling).toBytes =
      hashBytes (MerkleTree.joined (idx >>> level) current sibling) := by
  unfold hashUp MerkleTree.joined hashBytes
  rw [Nat.and_one_is_mod]
  split <;> rfl

theorem hashLoop_eq_climb (idx : ℕ) (path : List Bytes) (level : ℕ) (current : Bytes32) :
    ((List.range' level (path.length - level)).foldl
        (fun node i => hashUp idx i node.toBytes (path.getD i [])) current).toBytes =
      MerkleTree.climb hashBytes (idx >>> level) current.toBytes (path.drop level) := by
  generalize hcount : path.length - level = count
  induction count generalizing level current with
  | zero =>
    rw [drop_eq_nil_iff.mpr (by omega)]
    rfl
  | succ _ ih =>
    have hlevel : level < path.length := by omega
    rw [List.range'_succ, foldl_cons, ih (level + 1) _ (by omega),
      drop_eq_getElem_cons hlevel, MerkleTree.climb, hashUp_toBytes, Nat.shiftRight_succ]
    simp [List.getD, List.getElem?_eq_getElem hlevel]

theorem recomputeRoot_eq_ok {root : Bytes32} (hlength : siblings.length = smtHeight) :
    recomputeRoot idx leaf siblings = .ok root ↔
      MerkleTree.climb hashBytes idx leaf siblings.reverse = root.toBytes := by
  have hreverse : ∀ i, i < smtHeight →
      siblings.getD (smtHeight - 1 - i) [] = siblings.reverse.getD i [] := by
    intro i hi
    simp only [getD_eq_getElem?_getD]
    rw [List.getElem?_reverse (by rw [hlength]; exact hi), hlength]
  have hfold : ∀ start : Bytes32, (List.range' 1 (smtHeight - 1)).foldl
          (fun current i => hashUp idx i current.toBytes
            (siblings.getD (smtHeight - 1 - i) [])) start =
        (List.range' 1 (siblings.reverse.length - 1)).foldl
          (fun current i => hashUp idx i current.toBytes (siblings.reverse.getD i [])) start := by
    intro start
    rw [length_reverse, hlength]
    apply foldl_ext
    intro current i hi
    rw [mem_range'_1] at hi
    rw [hreverse i (by simp only [smtHeight] at hi ⊢; omega)]
  cases hpath : siblings.reverse with
  | nil =>
    have hzero := congrArg List.length hpath
    rw [length_reverse, hlength] at hzero
    cases hzero
  | cons nearest =>
    have hnearest : siblings.getD (smtHeight - 1) [] = nearest := by
      have := hreverse 0 (by decide)
      simpa [hpath] using this
    simp only [recomputeRoot, bind_eq_ok, revertIf_eq_ok, exists_const,
      pure_eq_ok, ne_eq, not_not, hlength, true_and, hnearest, hfold]
    rw [← Bytes32.toBytes_inj, hashLoop_eq_climb, hpath, hashUp_toBytes]
    rfl

theorem verifyProof_eq_true {root : Bytes32} (hlength : siblings.length = smtHeight) :
    verifyProof idx leaf siblings root = .ok true ↔
      MerkleTree.climb hashBytes idx leaf siblings.reverse = root.toBytes := by
  rw [← recomputeRoot_eq_ok hlength]
  simp only [verifyProof, bind_eq_ok, pure_eq_ok, decide_eq_true_eq]
  constructor
  · rintro ⟨recomputed, hroot, rfl⟩
    exact hroot
  · intro hroot
    exact ⟨root, hroot, rfl⟩

/-! ## The canonical tree of a map of withdrawals -/

def emptyLeaf : Bytes := List.replicate 32 0

def leafOf (pending : UInt64 → Option PendingWithdrawal) (id : ℕ) : Bytes :=
  match pending (UInt64.ofNat id) with
  | some wd => wd.encode
  | none => emptyLeaf

def canonicalRoot (pending : UInt64 → Option PendingWithdrawal) : Bytes32 :=
  Bytes32.ofBytes (MerkleTree.nodeAt hashBytes (leafOf pending) smtHeight 0)

def canonicalSiblings (pending : UInt64 → Option PendingWithdrawal) (id : UInt64) : List Bytes :=
  (MerkleTree.pathSiblings hashBytes (leafOf pending) smtHeight 0 id.toNat).reverse

@[simp] theorem canonicalSiblings_length
    (pending : UInt64 → Option PendingWithdrawal) (id : UInt64) :
    (canonicalSiblings pending id).length = smtHeight := by
  simp [canonicalSiblings]

theorem canonicalRoot_toBytes (pending : UInt64 → Option PendingWithdrawal) :
    (canonicalRoot pending).toBytes = MerkleTree.nodeAt hashBytes (leafOf pending) smtHeight 0 :=
  Bytes32.toBytes_ofBytes (hashBytes_length _)

theorem leafOf_populated {pending : UInt64 → Option PendingWithdrawal} {id : UInt64}
    (hwd : pending id = some wd) : leafOf pending id.toNat = wd.encode := by
  simp [leafOf, UInt64.ofNat_toNat, hwd]

theorem id_div_height (id : UInt64) : id.toNat / 2 ^ smtHeight = 0 := Nat.div_eq_of_lt id.toNat_lt

end Bridge
end Canon
