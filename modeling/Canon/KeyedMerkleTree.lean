import Mathlib.Tactic

/-!
# Merkle trees over keys with bits

A sparse tree has one leaf for each key, and bit `d` of the key decides the side at
height `d` above the leaves.  The digest of an empty subtree only depends on its height.
A path is climbed from the leaf, one bit and one sibling at a time.
-/

namespace Canon
namespace KeyedTree

open List

/-! ## Climbing -/

section Climb

variable {δ : Type} (combine : δ → δ → δ)

def children (bit : Bool) (node sibling : δ) : δ × δ :=
  if bit then (sibling, node) else (node, sibling)

def parent (bit : Bool) (node sibling : δ) : δ :=
  combine (children bit node sibling).1 (children bit node sibling).2

def climb (node : δ) (steps : List (Bool × δ)) : δ :=
  steps.foldl (fun node step => parent combine step.1 node step.2) node

def joinedPairs : δ → List (Bool × δ) → List (δ × δ)
  | _, [] => []
  | node, step :: rest =>
    children step.1 node step.2 :: joinedPairs (parent combine step.1 node step.2) rest

variable {combine} {node other : δ}

theorem climb_cons (node : δ) (step : Bool × δ) (rest : List (Bool × δ)) :
    climb combine node (step :: rest) = climb combine (parent combine step.1 node step.2) rest :=
  rfl

theorem climb_concat (node : δ) (steps : List (Bool × δ)) (step : Bool × δ) :
    climb combine node (steps ++ [step]) =
      parent combine step.1 (climb combine node steps) step.2 := by
  simp [climb]

theorem node_of_children {bit : Bool} {sibling otherSibling : δ}
    (heq : children bit node sibling = children bit other otherSibling) : node = other := by
  cases bit with
  | false => exact congrArg Prod.fst heq
  | true => exact congrArg Prod.snd heq

theorem climb_injective {steps others : List (Bool × δ)}
    (hbits : steps.map Prod.fst = others.map Prod.fst) (hfree : List.Forall₂
      (fun pair otherPair => combine pair.1 pair.2 =
        combine otherPair.1 otherPair.2 → pair = otherPair)
      (joinedPairs combine node steps) (joinedPairs combine other others))
    (heq : climb combine node steps = climb combine other others) : node = other := by
  induction steps generalizing node other others with
  | nil =>
    have hnil : others = [] := map_eq_nil_iff.mp hbits.symm
    subst hnil
    exact heq
  | cons step _ ih =>
    cases others with
    | nil => cases hbits
    | cons otherStep =>
      obtain ⟨hbit, hrest⟩ := List.cons.inj hbits
      obtain ⟨hhere, habove⟩ := forall₂_cons.mp hfree
      have hpair := hhere (ih hrest habove heq)
      rw [show step.1 = otherStep.1 from hbit] at hpair
      exact node_of_children hpair

end Climb

/-! ## Trees -/

section Trees

variable {κ δ : Type} (bit : κ → ℕ → Bool) (combine : δ → δ → δ) (empty : δ)

def emptyAt : ℕ → δ
  | 0 => empty
  | height + 1 => combine (emptyAt height) (emptyAt height)

def root : ℕ → List (κ × δ) → δ
  | 0, entries => (entries.head?.map Prod.snd).getD empty
  | height + 1, entries =>
    if entries.isEmpty then emptyAt combine empty (height + 1)
    else combine (root height (entries.filter fun entry => bit entry.1 height = false))
      (root height (entries.filter fun entry => bit entry.1 height = true))

def siblingEntries (key : κ) : ℕ → List (κ × δ) → List (List (κ × δ))
  | 0, _ => []
  | height + 1, entries =>
    siblingEntries key height (entries.filter fun entry => bit entry.1 height = bit key height) ++
      [entries.filter fun entry => bit entry.1 height ≠ bit key height]

def matching (key : κ) : ℕ → List (κ × δ) → List (κ × δ)
  | 0, entries => entries
  | height + 1, entries => matching key height
      (entries.filter fun entry => bit entry.1 height = bit key height)

def stepsFrom (key : κ) : ℕ → List δ → List (Bool × δ)
  | _, [] => []
  | height, sibling :: rest =>
    (bit key height, sibling) :: stepsFrom key (height + 1) rest

def digestsFrom : ℕ → List (List (κ × δ)) → List δ
  | _, [] => []
  | height, entries :: rest =>
    root bit combine empty height entries :: digestsFrom (height + 1) rest

def suppliedFrom : ℕ → List (List (κ × δ)) → List δ
  | _, [] => []
  | height, entries :: rest =>
    if entries.isEmpty then suppliedFrom (height + 1) rest
    else root bit combine empty height entries :: suppliedFrom (height + 1) rest

variable {bit combine empty}

theorem root_nil (height : ℕ) :
    root bit combine empty height [] = emptyAt combine empty height := by
  cases height <;> rfl

theorem root_succ (height : ℕ) (entries : List (κ × δ)) :
    root bit combine empty (height + 1) entries = combine
      (root bit combine empty height (entries.filter fun entry => bit entry.1 height = false))
      (root bit combine empty height (entries.filter fun entry => bit entry.1 height = true)) := by
  cases entries with
  | nil =>
    rw [root_nil, filter_nil, filter_nil, root_nil]
    rfl
  | cons => rfl

theorem root_eq_parent (key : κ) (height : ℕ) (entries : List (κ × δ)) :
    root bit combine empty (height + 1) entries = parent combine (bit key height)
        (root bit combine empty height
          (entries.filter fun entry => bit entry.1 height = bit key height))
        (root bit combine empty height
          (entries.filter fun entry => bit entry.1 height ≠ bit key height)) := by
  rw [root_succ]
  cases hbit : bit key height <;> simp [parent, children]

@[simp] theorem siblingEntries_length (key : κ) (height : ℕ) (entries : List (κ × δ)) :
    (siblingEntries bit key height entries).length = height := by
  induction height generalizing entries with
  | zero => rfl
  | succ _ ih => simp [siblingEntries, ih]

@[simp] theorem digestsFrom_length (height : ℕ) (subtrees : List (List (κ × δ))) :
    (digestsFrom bit combine empty height subtrees).length = subtrees.length := by
  induction subtrees generalizing height with
  | nil => rfl
  | cons _ _ ih => simp [digestsFrom, ih]

theorem stepsFrom_concat (key : κ) (height : ℕ) (siblings : List δ) (sibling : δ) :
    stepsFrom bit key height (siblings ++ [sibling]) =
      stepsFrom bit key height siblings ++ [(bit key (height + siblings.length), sibling)] := by
  induction siblings generalizing height with
  | nil => rfl
  | cons _ _ ih =>
    simp only [cons_append, stepsFrom, ih, length_cons]
    rw [Nat.add_assoc, Nat.add_comm 1]

theorem digestsFrom_concat (height : ℕ) (subtrees : List (List (κ × δ))) (entries : List (κ × δ)) :
    digestsFrom bit combine empty height (subtrees ++ [entries]) =
      digestsFrom bit combine empty height subtrees ++
        [root bit combine empty (height + subtrees.length) entries] := by
  induction subtrees generalizing height with
  | nil => rfl
  | cons _ _ ih =>
    simp only [cons_append, digestsFrom, ih, length_cons]
    rw [Nat.add_assoc, Nat.add_comm 1]

theorem suppliedFrom_append (height : ℕ) (subtrees others : List (List (κ × δ))) :
    suppliedFrom bit combine empty height (subtrees ++ others) =
      suppliedFrom bit combine empty height subtrees ++
        suppliedFrom bit combine empty (height + subtrees.length) others := by
  induction subtrees generalizing height with
  | nil => rfl
  | cons _ _ ih =>
    simp only [cons_append, suppliedFrom, ih, length_cons]
    rw [Nat.add_assoc, Nat.add_comm 1]
    split_ifs <;> rfl

theorem climb_siblings (key : κ) (height : ℕ) (entries : List (κ × δ)) :
    climb combine (root bit combine empty 0 (matching bit key height entries)) (stepsFrom bit key 0
          (digestsFrom bit combine empty 0 (siblingEntries bit key height entries))) =
      root bit combine empty height entries := by
  induction height generalizing entries with
  | zero => rfl
  | succ _ ih =>
    rw [siblingEntries, digestsFrom_concat, stepsFrom_concat, climb_concat,
      matching, ih, root_eq_parent key]
    simp only [digestsFrom_length, siblingEntries_length, Nat.zero_add]

theorem mem_matching {key : κ} {height : ℕ} {entries : List (κ × δ)} {entry : κ × δ} :
    entry ∈ matching bit key height entries ↔
      entry ∈ entries ∧ ∀ d < height, bit entry.1 d = bit key d := by
  induction height generalizing entries with
  | zero => simp [matching]
  | succ height ih =>
    simp only [matching, ih, mem_filter, decide_eq_true_eq, Nat.lt_succ_iff]
    constructor
    · rintro ⟨⟨hmem, htop⟩, hbelow⟩
      refine ⟨hmem, ?_⟩
      intro d hd
      rcases Nat.lt_or_eq_of_le hd with hlt | rfl
      · exact hbelow d hlt
      · exact htop
    · rintro ⟨hmem, hall⟩
      exact ⟨⟨hmem, hall height le_rfl⟩, fun d hd => hall d hd.le⟩

theorem root_matching {key : κ} {height : ℕ} {entries : List (κ × δ)} {digest : δ}
    (hbits : ∀ entry ∈ entries, (∀ d < height, bit entry.1 d = bit key d) → entry.1 = key)
    (hkeys : (entries.map Prod.fst).Nodup) (hmem : (key, digest) ∈ entries) :
    root bit combine empty 0 (matching bit key height entries) = digest := by
  have hself : (key, digest) ∈ matching bit key height entries :=
    mem_matching.mpr ⟨hmem, fun _ _ => rfl⟩
  have hall : ∀ entry ∈ matching bit key height entries, entry.2 = digest := by
    intro entry hentry
    obtain ⟨hold, hsame⟩ := mem_matching.mp hentry
    have hkey := hbits entry hold hsame
    have hentryEq : entry = (key, digest) := inj_on_of_nodup_map hkeys hold hmem hkey
    rw [hentryEq]
  cases hlist : matching bit key height entries with
  | nil =>
    rw [hlist] at hself
    cases hself
  | cons first => exact hall first (by rw [hlist]; exact mem_cons_self)

end Trees

end KeyedTree
end Canon
