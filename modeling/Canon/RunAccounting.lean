import Canon.TransitionRuns

/-!
# Accounts over a run

A ledger keeps a total over a mapping, and the total has to agree with what the
steps of a run have paid in and out.
-/

namespace Canon

open Function

section Totals

variable {α β : Type} [DecidableEq α] {place : α}

theorem sum_exchange_entry (weight : β → ℕ) (entries : α → β) (places : Finset α) (entry : β)
    (hplace : place ∈ places) :
    ∑ i ∈ places, weight (update entries place entry i) + weight (entries place) =
      ∑ i ∈ places, weight (entries i) + weight entry := by
  have hrest : ∑ i ∈ places.erase place, weight (update entries place entry i) =
      ∑ i ∈ places.erase place, weight (entries i) := by
    apply Finset.sum_congr rfl
    intro i hi
    rw [update_of_ne (Finset.ne_of_mem_erase hi)]
  rw [← Finset.sum_erase_add places _ hplace,
    ← Finset.sum_erase_add places (fun i => weight (entries i)) hplace, hrest, update_self]
  omega

theorem sum_entry_outside (weight : β → ℕ) (entries : α → β) {places : Finset α} (entry : β)
    (hplace : place ∉ places) :
    ∑ i ∈ places, weight (update entries place entry i) = ∑ i ∈ places, weight (entries i) := by
  apply Finset.sum_congr rfl
  intro i hi
  have hne : i ≠ place := by
    intro heq
    exact hplace (heq ▸ hi)
  rw [update_of_ne hne]

end Totals

section Traces

variable {σ ι ε : Type} {step : σ → ι → Except ε σ}

def traceTotal (weight : σ → ι → ℕ) (trace : List (σ × ι)) : ℕ :=
  (trace.map fun entry => weight entry.1 entry.2).sum

@[simp] theorem traceTotal_nil (weight : σ → ι → ℕ) : traceTotal weight [] = 0 := rfl

@[simp] theorem traceTotal_snoc (weight : σ → ι → ℕ) (trace : List (σ × ι)) (state : σ) (call : ι) :
    traceTotal weight (trace ++ [(state, call)]) = traceTotal weight trace + weight state call := by
  simp [traceTotal]

/-- A quantity which every step changes by its credit and its debit is the sum
of all credits less the sum of all debits. -/
theorem Run.accounts {value : σ → ℕ} {credit debit : σ → ι → ℕ} {start final : σ}
    {trace : List (σ × ι)}
    (hstep : ∀ before call after, Reachable step start before → step before call = .ok after →
      value after + debit before call = value before + credit before call)
    (hrun : Run step start trace final) :
    value final + traceTotal debit trace = value start + traceTotal credit trace := by
  induction hrun with
  | nil => simp
  | @snoc trace before after call hprefix hlast ih =>
    have hchange := hstep before call after ⟨trace, hprefix⟩ hlast
    rw [traceTotal_snoc, traceTotal_snoc]
    omega

theorem Run.collects {value : σ → ℕ} {credit : σ → ι → ℕ} {start final : σ} {trace : List (σ × ι)}
    (hstep : ∀ before call after, Reachable step start before → step before call = .ok after →
      value after = value before + credit before call) (hrun : Run step start trace final) :
    value final = value start + traceTotal credit trace := by
  have haccounts := @Run.accounts _ _ _ step value credit (fun _ _ => 0) _ _ _ hstep hrun
  have hdebit : traceTotal (fun (_ : σ) (_ : ι) => 0) trace = 0 := by
    simp [traceTotal]
  rw [hdebit] at haccounts
  exact haccounts

/-- A reserve which every step changes by at least its credit less its debit
covers the sum of all credits less the sum of all debits. -/
theorem Run.covers {value : σ → ℕ} {credit debit : σ → ι → ℕ} {start final : σ}
    {trace : List (σ × ι)}
    (hstep : ∀ before call after, Reachable step start before → step before call = .ok after →
      value before + credit before call ≤ value after + debit before call)
    (hrun : Run step start trace final) :
    value start + traceTotal credit trace ≤ value final + traceTotal debit trace := by
  induction hrun with
  | nil => simp
  | @snoc trace before after call hprefix hlast ih =>
    have hchange := hstep before call after ⟨trace, hprefix⟩ hlast
    rw [traceTotal_snoc, traceTotal_snoc]
    omega

/-- One for a successful step which makes the change, zero for any other
call. -/
def changeCount (step : σ → ι → Except ε σ) (change : σ → σ → Bool) (state : σ) (call : ι) : ℕ :=
  match step state call with
  | .ok next => if change state next then 1 else 0
  | .error _ => 0

/-- A flag which no step takes back is set at most once in a run: the number of
steps which set it is the difference between its two ends. -/
theorem Run.sets_once {flag : σ → Bool} {start final : σ} {trace : List (σ × ι)}
    (hkeep : ∀ before call after, Reachable step start before →
      step before call = .ok after → flag before = true → flag after = true)
    (hrun : Run step start trace final) :
    (flag final).toNat = (flag start).toNat + traceTotal (changeCount step fun before after =>
        !flag before && flag after) trace := by
  refine @Run.collects _ _ _ step (fun state => (flag state).toNat) _ _ _ _ ?_ hrun
  intro before call after hreach hstep
  have hkept := hkeep before call after hreach hstep
  simp only [changeCount, hstep]
  by_cases hbefore : flag before = true
  · simp [hbefore, hkept hbefore]
  · rw [Bool.not_eq_true] at hbefore
    by_cases hafter : flag after = true
    · simp [hbefore, hafter]
    · rw [Bool.not_eq_true] at hafter
      simp [hbefore, hafter]

end Traces

end Canon
