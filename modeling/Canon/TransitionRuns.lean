import Mathlib.Tactic

/-!
# Runs of a transition system

A run is a finite sequence of successful steps.  Its trace remembers, oldest
first, every step together with the state in which it was taken.  A reverted
call leaves no mark on the state and therefore is not a step.
-/

namespace Canon

open List

section Runs

variable {σ ι ε : Type}

/-- `Run step start trace final`: the listed steps lead from `start` to
`final`. -/
inductive Run (step : σ → ι → Except ε σ) (start : σ) : List (σ × ι) → σ → Prop
  | nil : Run step start [] start
  | snoc {trace : List (σ × ι)} {before after : σ} {call : ι} :
      Run step start trace before → step before call = .ok after →
        Run step start (trace ++ [(before, call)]) after

def Reachable (step : σ → ι → Except ε σ) (start state : σ) : Prop :=
  ∃ trace, Run step start trace state

variable {step : σ → ι → Except ε σ}

variable {start middle final : σ} {trace : List (σ × ι)} {call : ι} {calls : List ι}

theorem Reachable.refl (start : σ) : Reachable step start start := ⟨[], .nil⟩

theorem Reachable.tail {start before after : σ} {call : ι} (hreach : Reachable step start before)
    (hstep : step before call = .ok after) : Reachable step start after := by
  obtain ⟨trace, hrun⟩ := hreach
  exact ⟨_, hrun.snoc hstep⟩

theorem Run.invariant {invariant : σ → Prop}
    (hstep : ∀ before call after, step before call = .ok after → invariant before → invariant after)
    {start final : σ} {trace : List (σ × ι)}
    (hrun : Run step start trace final) (hstart : invariant start) : invariant final := by
  induction hrun with
  | nil => exact hstart
  | snoc _ hlast ih => exact hstep _ _ _ hlast ih

theorem Reachable.invariant {invariant : σ → Prop}
    (hstep : ∀ before call after, step before call = .ok after → invariant before → invariant after)
    {start state : σ} (hreach : Reachable step start state) (hstart : invariant start) :
    invariant state := by
  obtain ⟨trace, hrun⟩ := hreach
  exact hrun.invariant hstep hstart

theorem Run.append {first second : List (σ × ι)}
    (hfirst : Run step start first middle) (hsecond : Run step middle second final) :
    Run step start (first ++ second) final := by
  induction hsecond with
  | nil => simpa using hfirst
  | snoc _ hlast ih =>
    rw [← append_assoc]
    exact ih.snoc hlast

theorem Run.reachable (hreach : Reachable step start middle) (hrun : Run step middle trace final) :
    Reachable step start final := by
  obtain ⟨first, hfirst⟩ := hreach
  exact ⟨_, hfirst.append hrun⟩

theorem Reachable.trans (hfirst : Reachable step start middle)
    (hsecond : Reachable step middle final) : Reachable step start final := by
  obtain ⟨_, hrun⟩ := hsecond
  exact hrun.reachable hfirst

theorem Run.cons {next : σ}
    (hstep : step start call = .ok next) (hrun : Run step next trace final) :
    Run step start ((start, call) :: trace) final := by
  have hfirst : Run step start [(start, call)] next := by
    simpa using Run.nil.snoc hstep
  exact hfirst.append hrun

theorem Run.split {before : σ} (hrun : Run step start trace final) (hmem : (before, call) ∈ trace) :
    ∃ earlier later after, trace = earlier ++ (before, call) :: later ∧
        Run step start earlier before ∧ step before call = .ok after ∧
        Run step after later final := by
  induction hrun with
  | nil => simp at hmem
  | @snoc trace last final lastCall hprefix hlast ih =>
    rw [mem_append, mem_singleton] at hmem
    rcases hmem with hold | hnew
    · obtain ⟨earlier, later, after, htrace, hearlier, hcall, hlater⟩ := ih hold
      refine ⟨earlier, later ++ [(last, lastCall)], after, ?_, hearlier, hcall, hlater.snoc hlast⟩
      simp [htrace]
    · cases hnew
      exact ⟨trace, [], final, rfl, hprefix, hlast, .nil⟩

/-- If every step from a good state ends in a good state exactly when the step
is regular, then all states of a run are good exactly when all its steps are
regular. -/
theorem Run.throughout_iff {good : σ → Prop} {regular : σ → ι → Prop} {start final : σ}
    {trace : List (σ × ι)} (hstart : good start)
    (hstep : ∀ before call after, Reachable step start before →
      step before call = .ok after → good before → (good after ↔ regular before call))
    (hrun : Run step start trace final) :
    (∀ earlier later state, trace = earlier ++ later → Run step start earlier state → good state) ↔
      ∀ entry ∈ trace, regular entry.1 entry.2 := by
  constructor
  · rintro hgood ⟨before, call⟩ hmem
    obtain ⟨earlier, later, after, htrace, hearlier, hcall, _⟩ := hrun.split hmem
    have hbefore := hgood earlier _ before htrace hearlier
    have hafter := hgood _ later after (by simp [htrace]) (hearlier.snoc hcall)
    exact (hstep before call after ⟨earlier, hearlier⟩ hcall hbefore).mp hafter
  · intro hregular earlier later state htrace hearlier
    have hpart : ∀ entry ∈ earlier, regular entry.1 entry.2 := by
      intro entry hmem
      apply hregular
      rw [htrace]
      exact mem_append_left _ hmem
    clear htrace hregular
    induction hearlier with
    | nil => exact hstart
    | @snoc trace before after call hprefix hlast ih =>
      have hbefore := ih fun entry hmem =>
        hpart entry (mem_append_left _ hmem)
      apply (hstep before call after ⟨trace, hprefix⟩ hlast hbefore).mpr
      exact hpart (before, call) (by simp)

/-- Execute the calls one after another and record the trace; `none` when one
of them reverts. -/
def traceOf (step : σ → ι → Except ε σ) (start : σ) : List ι → Option (List (σ × ι) × σ)
  | [] => some ([], start)
  | call :: rest =>
    match step start call with
    | .error _ => none
    | .ok next =>
      (traceOf step next rest).map fun result =>
        ((start, call) :: result.1, result.2)

theorem Run.of_traceOf
    (htrace : traceOf step start calls = some (trace, final)) : Run step start trace final := by
  induction calls generalizing start trace with
  | nil =>
    obtain ⟨rfl, rfl⟩ := htrace
    exact .nil
  | cons call _ ih =>
    simp only [traceOf] at htrace
    cases hstep : step start call with
    | error => simp [hstep] at htrace
    | ok =>
      simp only [hstep, Option.map_eq_some_iff, Prod.mk.injEq] at htrace
      obtain ⟨⟨later, last⟩, hlater, rfl, rfl⟩ := htrace
      exact Run.cons hstep (ih hlater)

/-- A run of given calls, with facts about it which are found by evaluation. -/
theorem exists_run_of_traceOf (step : σ → ι → Except ε σ) (start : σ) (calls : List ι)
    (facts : List (σ × ι) → σ → Prop) [∀ trace final, Decidable (facts trace final)]
    (hfacts : (traceOf step start calls).any (fun result => facts result.1 result.2) = true) :
    ∃ trace final, Run step start trace final ∧ facts trace final := by
  rw [Option.any_eq_true] at hfacts
  obtain ⟨⟨trace, final⟩, htrace, hfinal⟩ := hfacts
  exact ⟨trace, final, Run.of_traceOf htrace, of_decide_eq_true hfinal⟩

/-- One more call after a history of accepted steps.  A reverted call is undone
and leaves the history as it is. -/
def submit (step : σ → ι → Except ε σ) (history : List (σ × ι) × σ) (call : ι) : List (σ × ι) × σ :=
  match step history.2 call with
  | .error _ => history
  | .ok next => (history.1 ++ [(history.2, call)], next)

/-- Submit the calls one after another, whether or not they revert. -/
def submitAll (step : σ → ι → Except ε σ) (start : σ) (calls : List ι) : List (σ × ι) × σ :=
  calls.foldl (submit step) ([], start)

theorem submitAll_snoc (start : σ) (calls : List ι) (call : ι) :
    submitAll step start (calls ++ [call]) = submit step (submitAll step start calls) call :=
  foldl_concat _ _ _ _

theorem submit_of_error {history : List (σ × ι) × σ} {error : ε}
    (hstep : step history.2 call = .error error) : submit step history call = history := by
  simp only [submit, hstep]

theorem run_submitAll (start : σ) (calls : List ι) :
    Run step start (submitAll step start calls).1 (submitAll step start calls).2 := by
  induction calls using List.reverseRecOn with
  | nil => exact .nil
  | append_singleton calls call ih =>
    rw [submitAll_snoc]
    cases hstep : step (submitAll step start calls).2 call with
    | error =>
      rw [submit_of_error hstep]
      exact ih
    | ok =>
      simp only [submit, hstep]
      exact ih.snoc hstep

def callPasses (step : σ → ι → Except ε σ) (call : ι) (check : σ → σ → Bool) (state : σ) : Bool :=
  match step state call with
  | .error _ => false
  | .ok next => check state next

theorem callPasses_eq_true {check : σ → σ → Bool} {state : σ} :
    callPasses step call check state = true ↔
      ∃ next, step state call = .ok next ∧ check state next = true := by
  unfold callPasses
  cases step state call <;> simp

theorem exists_call_of_traceOf (step : σ → ι → Except ε σ) (start : σ) (calls : List ι) (call : ι)
    (facts : σ → σ → Prop) [∀ before after, Decidable (facts before after)]
    (hfacts : (traceOf step start calls).any (fun result =>
      callPasses step call (fun before after => facts before after) result.2) = true) :
    ∃ before after, Reachable step start before ∧ step before call = .ok after ∧
      facts before after := by
  obtain ⟨trace, before, hrun, hpasses⟩ := exists_run_of_traceOf step start calls
    (fun _ before => callPasses step call (fun before after => facts before after) before = true)
    (by simpa using hfacts)
  obtain ⟨after, hstep, hafter⟩ := callPasses_eq_true.mp hpasses
  exact ⟨before, after, ⟨trace, hrun⟩, hstep, of_decide_eq_true hafter⟩

end Runs

end Canon
