import Mathlib.Tactic

/-!
# Self-delimiting encodings

An encoding is self-delimiting when it can be split off the front of every longer string.
The encodings of values of different shapes may collide; what is encoded in sequence is
read back as long as the shapes agree.
-/

namespace Canon

open List

variable {α β κ : Type}

/-- Two admitted values of the same shape whose encodings start the same string are the
same, and so are the rests. -/
def SelfDelimiting (shape : α → κ) (admits : α → Prop) (encode : α → List β) :
    Prop :=
  ∀ first second front rest, admits first → admits second → shape first = shape second →
    encode first ++ front = encode second ++ rest →
      first = second ∧ front = rest

namespace SelfDelimiting

variable {shape : α → κ} {admits : α → Prop} {encode : α → List β} {front rest : List β}

theorem append_inj_of_length {first second : List β} (hlength : first.length = second.length)
    (heq : first ++ front = second ++ rest) : first = second ∧ front = rest :=
  append_inj heq hlength

theorem flatMap (hencode : SelfDelimiting shape admits encode) {first second : List α}
    (hfirst : ∀ item ∈ first, admits item) (hsecond : ∀ item ∈ second, admits item)
    (hshape : first.map shape = second.map shape)
    (heq : first.flatMap encode ++ front = second.flatMap encode ++ rest) :
    first = second ∧ front = rest := by
  induction first generalizing second with
  | nil =>
    cases second with
    | nil => exact ⟨rfl, heq⟩
    | cons => cases hshape
  | cons item _ ih =>
    cases second with
    | nil => cases hshape
    | cons other =>
      rw [map_cons, map_cons, List.cons.injEq] at hshape
      rw [flatMap_cons, flatMap_cons, append_assoc, append_assoc] at heq
      rw [forall_mem_cons] at hfirst hsecond
      obtain ⟨rfl, hlater⟩ := hencode item other _ _ hfirst.1 hsecond.1 hshape.1 heq
      obtain ⟨rfl, hrest⟩ := ih hfirst.2 hsecond.2 hshape.2 hlater
      exact ⟨rfl, hrest⟩

end SelfDelimiting

end Canon
