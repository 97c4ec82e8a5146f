import Mathlib.Tactic

/-!
# Merkle trees with leaves of variable length

A leaf is any string, an inner node is the hash of the concatenation of its two
children.  The hash has a fixed width, so above the leaves the two children can be
separated again; at the leaves they cannot.  A path is checked by climbing from a leaf
with a list of siblings, the leaf-adjacent one first.
-/

namespace Canon
namespace MerkleTree

section Trees

variable {β : Type} (hash : List β → List β)

/-- The node with the given number at the given level; leaves have level 0. -/
def nodeAt (leaf : ℕ → List β) : ℕ → ℕ → List β
  | 0, index => leaf index
  | level + 1, index =>
    hash (nodeAt leaf level (2 * index) ++ nodeAt leaf level (2 * index + 1))

/-- The preimage of the parent, in the order which the index asks for. -/
def joined (index : ℕ) (node sibling : List β) : List β :=
  if index % 2 = 1 then sibling ++ node else node ++ sibling

def climb : ℕ → List β → List (List β) → List β
  | _, node, [] => node
  | index, node, sibling :: rest =>
    climb (index / 2) (hash (joined index node sibling)) rest

def siblingIndex (index : ℕ) : ℕ :=
  if index % 2 = 1 then index - 1 else index + 1

def pathSiblings (leaf : ℕ → List β) : ℕ → ℕ → ℕ → List (List β)
  | 0, _, _ => []
  | height + 1, level, index =>
    nodeAt hash leaf level (siblingIndex index) :: pathSiblings leaf height (level + 1) (index / 2)

variable {hash} {level : ℕ} {sibling : List β}

@[simp] theorem pathSiblings_length (leaf : ℕ → List β) (height level index : ℕ) :
    (pathSiblings hash leaf height level index).length = height := by
  induction height generalizing level index with
  | zero => rfl
  | succ _ ih => simp [pathSiblings, ih]

theorem exists_nodeAt_of_mem_pathSiblings {leaf : ℕ → List β} {height index : ℕ}
    (hmem : sibling ∈ pathSiblings hash leaf height level index) :
    ∃ height number, sibling = nodeAt hash leaf height number := by
  induction height generalizing level index with
  | zero => simp [pathSiblings] at hmem
  | succ _ ih =>
    rcases List.mem_cons.mp hmem with hhere | habove
    · exact ⟨level, siblingIndex index, hhere⟩
    · exact ih habove

theorem joined_siblings (leaf : ℕ → List β) (level index : ℕ) :
    joined index (nodeAt hash leaf level index) (nodeAt hash leaf level (siblingIndex index)) =
      nodeAt hash leaf level (2 * (index / 2)) ++ nodeAt hash leaf level (2 * (index / 2) + 1) := by
  rcases Nat.mod_two_eq_zero_or_one index with heven | hodd
  · have hleft : 2 * (index / 2) = index := by omega
    simp [joined, siblingIndex, heven, hleft]
  · have hleft : 2 * (index / 2) = index - 1 := by omega
    have hright : index - 1 + 1 = index := by omega
    simp [joined, siblingIndex, hodd, hleft, hright]

theorem hash_joined_siblings (leaf : ℕ → List β) (level index : ℕ) :
    hash (joined index (nodeAt hash leaf level index)
        (nodeAt hash leaf level (siblingIndex index))) =
      nodeAt hash leaf (level + 1) (index / 2) := by
  rw [joined_siblings]
  rfl

theorem climb_pathSiblings (leaf : ℕ → List β) (height level index : ℕ) :
    climb hash index (nodeAt hash leaf level index) (pathSiblings hash leaf height level index) =
      nodeAt hash leaf (level + height) (index / 2 ^ height) := by
  induction height generalizing level index with
  | zero => simp [climb, pathSiblings]
  | succ height ih =>
    simp only [climb, pathSiblings, hash_joined_siblings, ih]
    rw [Nat.div_div_eq_div_mul, ← pow_succ', Nat.add_assoc, Nat.add_comm 1 height]

variable (hash)

/-- No preimage hashed on the way up collides with the one which the tree
hashes at the same place. -/
def NoCollisionAlong (leaf : ℕ → List β) : ℕ → ℕ → List β → List (List β) → Prop
  | _, _, _, [] => True
  | level, index, node, sibling :: rest =>
    (hash (joined index node sibling) = nodeAt hash leaf (level + 1) (index / 2) →
      joined index node sibling =
        nodeAt hash leaf level (2 * (index / 2)) ++ nodeAt hash leaf level (2 * (index / 2) + 1)) ∧
    NoCollisionAlong leaf (level + 1) (index / 2) (hash (joined index node sibling)) rest

variable {hash}

variable {width index : ℕ} {leaf : ℕ → List β} {node : List β}

theorem noCollisionAlong_pathSiblings (leaf : ℕ → List β) (height level index : ℕ) :
    NoCollisionAlong hash leaf level index (nodeAt hash leaf level index)
      (pathSiblings hash leaf height level index) := by
  induction height generalizing level index with
  | zero => exact trivial
  | succ _ ih =>
    have hparent := @hash_joined_siblings β hash leaf level index
    refine ⟨fun _ => joined_siblings leaf level index, ?_⟩
    rw [hparent]
    exact ih (level + 1) (index / 2)

theorem eq_nodeAt_of_joined (hwidth : ∀ message, (hash message).length = width)
    (hnode : node.length = width) (hjoined : joined index node sibling =
      nodeAt hash leaf (level + 1) (2 * (index / 2)) ++
        nodeAt hash leaf (level + 1) (2 * (index / 2) + 1)) :
    node = nodeAt hash leaf (level + 1) index := by
  have hlength : ∀ number, (nodeAt hash leaf (level + 1) number).length = width :=
    fun number => hwidth _
  rcases Nat.mod_two_eq_zero_or_one index with heven | hodd
  · have hleft : 2 * (index / 2) = index := by omega
    rw [joined, if_neg (by omega), hleft] at hjoined
    exact (List.append_inj hjoined (by rw [hnode, hlength])).1
  · have hright : 2 * (index / 2) + 1 = index := by omega
    rw [joined, if_pos hodd, hright] at hjoined
    exact (List.append_inj' hjoined (by rw [hnode, hlength])).2

/-- A climb which ends in the tree's ancestor has started from the tree's
node, for every choice of siblings. -/
theorem climb_sound (hwidth : ∀ message, (hash message).length = width) {siblings : List (List β)}
    (hnode : node.length = width)
    (hfree : NoCollisionAlong hash leaf (level + 1) index node siblings)
    (hclimb : climb hash index node siblings =
      nodeAt hash leaf (level + 1 + siblings.length) (index / 2 ^ siblings.length)) :
    node = nodeAt hash leaf (level + 1) index := by
  induction siblings generalizing level index node with
  | nil => simpa [climb] using hclimb
  | cons sibling _ ih =>
    obtain ⟨hhere, habove⟩ := hfree
    have hparent : hash (joined index node sibling) =
        nodeAt hash leaf (level + 1 + 1) (index / 2) := by
      apply ih (hwidth _) habove
      rw [climb] at hclimb
      rw [hclimb, List.length_cons, Nat.div_div_eq_div_mul, ← pow_succ']
      congr 1
      omega
    exact eq_nodeAt_of_joined hwidth hnode (hhere hparent)

theorem joined_eq_of_climb (hwidth : ∀ message, (hash message).length = width)
    {rest : List (List β)} (hfree : NoCollisionAlong hash leaf 0 index node (sibling :: rest))
    (hclimb : climb hash index node (sibling :: rest) =
      nodeAt hash leaf (rest.length + 1) (index / 2 ^ (rest.length + 1))) :
    joined index node sibling = leaf (2 * (index / 2)) ++ leaf (2 * (index / 2) + 1) := by
  obtain ⟨hhere, habove⟩ := hfree
  apply hhere
  apply climb_sound hwidth (hwidth _) habove
  rw [climb] at hclimb
  rw [hclimb, Nat.div_div_eq_div_mul, ← pow_succ']
  congr 1
  omega

end Trees

end MerkleTree
end Canon
