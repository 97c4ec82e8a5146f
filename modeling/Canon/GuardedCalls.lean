import Mathlib.Tactic

/-!
# Guarded calls and checked machine arithmetic

A contract function either reverts with an error or returns a value, so it is
an `Except` computation.  `revertIf` is the guard statement
`if (condition) revert Error();`.
-/

namespace Canon

section Guards

variable {ε α β : Type}

/-- The statement `if (condition) revert error;`. -/
def revertIf (condition : Prop) [Decidable condition] (error : ε) : Except ε Unit :=
  if condition then .error error else .ok ()

variable {condition : Prop} {error : ε} {first : Except ε α} {rest : α → Except ε β} {result : α}

@[simp] theorem revertIf_eq_ok [Decidable condition] {value : Unit} :
    revertIf condition error = .ok value ↔ ¬ condition := by
  unfold revertIf
  split <;> simp_all

theorem revertIf_of_not [Decidable condition]
    (hcondition : ¬ condition) : revertIf condition error = .ok () := by
  simp [hcondition]

theorem revertIf_of_pos [Decidable condition]
    (hcondition : condition) : revertIf condition error = .error error := by
  simp [revertIf, hcondition]

/-- A sequence succeeds exactly when its first part does and the rest succeeds
on the value obtained. -/
theorem bind_eq_ok {result : β} :
    (first >>= rest) = .ok result ↔ ∃ value, first = .ok value ∧ rest value = .ok result := by
  cases first with
  | error =>
    constructor
    · intro h
      cases h
    · rintro ⟨value, hvalue, _⟩
      cases hvalue
  | ok value =>
    constructor
    · intro h
      exact ⟨value, rfl, h⟩
    · rintro ⟨other, hother, hrest⟩
      cases hother
      exact hrest

@[simp] theorem pure_eq_ok {value : α} :
    (pure value : Except ε α) = .ok result ↔ value = result := by
  constructor
  · intro h
    cases h
    rfl
  · intro h
    rw [h]
    rfl

theorem ok_bind (value : α) (rest : α → Except ε β) : (Except.ok value >>= rest) = rest value := rfl

theorem mapError_eq_ok {δ : Type} {rename : ε → δ} {call : Except ε α} :
    call.mapError rename = .ok result ↔ call = .ok result := by
  cases call <;> simp [Except.mapError]

end Guards

/-! ## Checked arithmetic -/

section Checked

variable {ε : Type} {width : ℕ} {panic : ε} {left right result : UInt64}

/-- Addition of unsigned integers of the given width, with the overflow check
that the compiler inserts. -/
def checkedAdd (width : ℕ) (panic : ε) (left right : ℕ) : Except ε ℕ :=
  if left + right < 2 ^ width then .ok (left + right) else .error panic

def checkedMul (width : ℕ) (panic : ε) (left right : ℕ) : Except ε ℕ :=
  if left * right < 2 ^ width then .ok (left * right) else .error panic

def checkedAdd64 (panic : ε) (left right : UInt64) : Except ε UInt64 :=
  if left.toNat + right.toNat < 2 ^ 64 then .ok (left + right)
  else .error panic

def checkedSub64 (panic : ε) (left right : UInt64) : Except ε UInt64 :=
  if right ≤ left then .ok (left - right) else .error panic

@[simp] theorem checkedAdd_eq_ok {left right result : ℕ} :
    checkedAdd width panic left right = .ok result ↔
      left + right < 2 ^ width ∧ left + right = result := by
  unfold checkedAdd
  split <;> simp_all

@[simp] theorem checkedMul_eq_ok {left right result : ℕ} :
    checkedMul width panic left right = .ok result ↔
      left * right < 2 ^ width ∧ left * right = result := by
  unfold checkedMul
  split <;> simp_all

@[simp] theorem checkedAdd64_eq_ok :
    checkedAdd64 panic left right = .ok result ↔
      left.toNat + right.toNat < 2 ^ 64 ∧ left + right = result := by
  unfold checkedAdd64
  split <;> simp_all

@[simp] theorem checkedSub64_eq_ok :
    checkedSub64 panic left right = .ok result ↔ right ≤ left ∧ left - right = result := by
  unfold checkedSub64
  split <;> simp_all

end Checked

end Canon
