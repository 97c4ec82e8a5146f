import Mathlib.Tactic

/-!
# Hash chains

A chain starts with the hash of a header and absorbs blocks one after the
other, each time hashing the running value followed by the block.  Blocks have
a fixed width and a header is never as long as a running value with its block.
-/

namespace Canon
namespace HashChain

open List

section Chains

variable {β : Type} (hash : List β → List β)

def absorb (running : List β) (blocks : List (List β)) : List β :=
  blocks.foldl (fun running block => hash (running ++ block)) running

def chain (header : List β) (blocks : List (List β)) : List β := absorb hash (hash header) blocks

def absorbed (running : List β) : List (List β) → List (List β)
  | [] => []
  | block :: rest =>
    (running ++ block) :: absorbed (hash (running ++ block)) rest

def preimages (header : List β) (blocks : List (List β)) : List (List β) :=
  header :: absorbed hash (hash header) blocks

def NoCollisionBetween (left right : List (List β)) : Prop := ∀ message ∈ left, ∀ other ∈ right,
    hash message = hash other → message = other

variable {hash} {width : ℕ} {header other : List β} {blocks : List (List β)}

theorem absorb_concat (running : List β) (blocks : List (List β)) (block : List β) :
    absorb hash running (blocks ++ [block]) = hash (absorb hash running blocks ++ block) := by
  simp [absorb]

theorem chain_concat (header : List β) (blocks : List (List β)) (block : List β) :
    chain hash header (blocks ++ [block]) = hash (chain hash header blocks ++ block) :=
  absorb_concat _ blocks block

theorem absorbed_concat (running : List β) (blocks : List (List β)) (block : List β) :
    absorbed hash running (blocks ++ [block]) =
      absorbed hash running blocks ++ [absorb hash running blocks ++ block] := by
  induction blocks generalizing running with
  | nil => rfl
  | cons _ _ ih =>
    simp only [cons_append, absorbed, absorb, foldl_cons]
    rw [ih]
    rfl

theorem chain_length {digest : ℕ} (hdigest : ∀ message, (hash message).length = digest)
    (header : List β) (blocks : List (List β)) : (chain hash header blocks).length = digest := by
  rcases eq_nil_or_concat blocks with hnil | ⟨front, last, hsplit⟩
  · rw [hnil]
    exact hdigest header
  · rw [hsplit, concat_eq_append, chain_concat]
    exact hdigest _

theorem concat_mem_preimages (header : List β) (blocks : List (List β)) (block : List β) :
    chain hash header blocks ++ block ∈ preimages hash header (blocks ++ [block]) := by
  simp [preimages, absorbed_concat, chain]

theorem preimages_subset_concat (header : List β) (blocks : List (List β)) (block : List β) :
    preimages hash header blocks ⊆ preimages hash header (blocks ++ [block]) := by
  rw [preimages, preimages, absorbed_concat, ← cons_append]
  exact subset_append_left _ _

theorem header_ne_concat {digest : ℕ} {block : List β}
    (hdigest : ∀ message, (hash message).length = digest)
    (hheader : header.length ≠ digest + width) (hblock : block.length = width) :
    header ≠ chain hash other blocks ++ block := by
  intro heq
  have hlength := congrArg List.length heq
  rw [length_append, chain_length hdigest, hblock] at hlength
  exact hheader hlength

theorem chain_injective {digest : ℕ} {others : List (List β)}
    (hdigest : ∀ message, (hash message).length = digest)
    (hheader : header.length ≠ digest + width) (hother : other.length ≠ digest + width)
    (hblocks : ∀ block ∈ blocks, block.length = width)
    (hothers : ∀ block ∈ others, block.length = width)
    (hfree : NoCollisionBetween hash (preimages hash header blocks) (preimages hash other others))
    (heq : chain hash header blocks = chain hash other others) :
    header = other ∧ blocks = others := by
  -- The two chains are compared from their ends.
  induction blocks using List.reverseRecOn generalizing others with
  | nil =>
    rcases eq_nil_or_concat others with hnil | ⟨front, last, hsplit⟩
    · subst hnil
      exact ⟨hfree _ (by simp [preimages]) _ (by simp [preimages]) heq, rfl⟩
    · rw [concat_eq_append] at hsplit
      subst hsplit
      rw [chain_concat] at heq
      have hsame := hfree _ (by simp [preimages]) _ (concat_mem_preimages other front last) heq
      exact absurd hsame (header_ne_concat hdigest hheader (hothers last (by simp)))
  | append_singleton blocks block ih =>
    rw [chain_concat] at heq
    rcases eq_nil_or_concat others with hnil | ⟨front, last, hsplit⟩
    · subst hnil
      have hsame := hfree _ (concat_mem_preimages header blocks block) _ (by simp [preimages]) heq
      exact absurd hsame.symm (header_ne_concat hdigest hother (hblocks block (by simp)))
    · rw [concat_eq_append] at hsplit
      subst hsplit
      rw [chain_concat] at heq
      have hsame := hfree _ (concat_mem_preimages header blocks block) _
        (concat_mem_preimages other front last) heq
      obtain ⟨hfront, hlast⟩ := append_inj hsame
        (by rw [chain_length hdigest, chain_length hdigest])
      obtain ⟨hheaders, hfronts⟩ := ih (fun entry hentry => hblocks entry (by simp [hentry]))
        (fun entry hentry => hothers entry (by simp [hentry]))
        (fun message hmessage entry hentry => hfree message
          (preimages_subset_concat header blocks block hmessage) entry
          (preimages_subset_concat other front last hentry)) hfront
      exact ⟨hheaders, by rw [hfronts, hlast]⟩

end Chains

end HashChain
end Canon
