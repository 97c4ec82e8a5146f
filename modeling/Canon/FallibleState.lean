import Mathlib.Tactic

/-!
# Programs which change a state and may fail

A program takes a state to a result and the state it leaves, and the state it
leaves by an error is not undone.  What a program does is said by notions which
compose.
-/

namespace Canon

open List

abbrev Fallible (ε σ α : Type) := ExceptT ε (StateM σ) α

namespace Fallible

variable {ε ε' σ α β : Type}

def ofExcept (result : Except ε α) : Fallible ε σ α := fun state => (result, state)

variable {program : Fallible ε σ α} {state after : σ} {value : α} {error : ε}
  {next : α → Fallible ε σ β} {change : ε → ε'}

@[simp] theorem run_pure (value : α) (state : σ) :
    (pure value : Fallible ε σ α) state = (.ok value, state) :=
  rfl

@[simp] theorem run_throw (error : ε) (state : σ) :
    (throw error : Fallible ε σ α) state = (.error error, state) :=
  rfl

@[simp] theorem run_get_bind (next : σ → Fallible ε σ α) (state : σ) :
    (get >>= next) state = next state state :=
  rfl

@[simp] theorem run_modify (change : σ → σ) (state : σ) :
    (modify change : Fallible ε σ PUnit) state = (.ok ⟨⟩, change state) :=
  rfl

theorem run_bind (program : Fallible ε σ α) (next : α → Fallible ε σ β) (state : σ) :
    (program >>= next) state =
      match program state with
      | (.ok value, after) => next value after
      | (.error error, after) => (.error error, after) := by
  change (match program state with
    | (result, after) => ExceptT.bindCont next result after) = _
  rcases program state with ⟨_ | _, _⟩ <;> rfl

theorem run_bind_ok (hrun : program state = (.ok value, after)) (next : α → Fallible ε σ β) :
    (program >>= next) state = next value after := by
  rw [run_bind, hrun]

theorem run_bind_error (hrun : program state = (.error error, after)) (next : α → Fallible ε σ β) :
    (program >>= next) state = (.error error, after) := by
  rw [run_bind, hrun]

theorem ok_of_run_bind {value : β} (hrun : (program >>= next) state = (.ok value, after)) :
    ∃ first middle, program state = (.ok first, middle) ∧
      next first middle = (.ok value, after) := by
  rw [run_bind] at hrun
  rcases hprogram : program state with ⟨_ | first, middle⟩
  · rw [hprogram] at hrun
    cases hrun
  · rw [hprogram] at hrun
    exact ⟨first, middle, rfl, hrun⟩

theorem error_of_run_bind (hrun : (program >>= next) state = (.error error, after)) :
    program state = (.error error, after) ∨
      ∃ first middle, program state = (.ok first, middle) ∧
        next first middle = (.error error, after) := by
  rw [run_bind] at hrun
  rcases hprogram : program state with ⟨_ | first, middle⟩
  · rw [hprogram] at hrun
    cases hrun
    exact .inl rfl
  · rw [hprogram] at hrun
    exact .inr ⟨first, middle, rfl, hrun⟩

theorem run_adapt (change : ε → ε') (program : Fallible ε σ α) (state : σ) :
    (ExceptT.adapt change program : Fallible ε' σ α) state =
      ((program state).1.mapError change, (program state).2) :=
  rfl

theorem ok_of_run_adapt
    (hrun : (ExceptT.adapt change program : Fallible ε' σ α) state = (.ok value, after)) :
    program state = (.ok value, after) := by
  rw [run_adapt] at hrun
  rcases hresult : program state with ⟨_ | result, middle⟩
  · rw [hresult] at hrun
    cases hrun
  · rw [hresult] at hrun
    cases hrun
    rfl

theorem error_of_run_adapt {error : ε'}
    (hrun : (ExceptT.adapt change program : Fallible ε' σ α) state =
      (.error error, after)) : ∃ cause, error = change cause := by
  rw [run_adapt] at hrun
  rcases hresult : program state with ⟨cause | result, middle⟩
  · rw [hresult] at hrun
    cases hrun
    exact ⟨cause, rfl⟩
  · rw [hresult] at hrun
    cases hrun

/-! ## Successful runs under a change of the state -/

def StableUnder (change : σ → σ) (program : Fallible ε σ α) : Prop :=
  ∀ state value after, program state = (.ok value, after) →
    program (change state) = (.ok value, change after)

namespace StableUnder

variable {change : σ → σ}

theorem pure (value : α) : StableUnder change (Pure.pure value : Fallible ε σ α) := by
  intro state result after hrun
  cases hrun
  rfl

theorem throw (error : ε) : StableUnder change (MonadExcept.throw error : Fallible ε σ α) := by
  intro state result after hrun
  cases hrun

theorem ofExcept (result : Except ε α) : StableUnder change (Fallible.ofExcept result) := by
  intro state value after hrun
  cases hrun
  rfl

theorem bind
    (hprogram : StableUnder change program) (hnext : ∀ value, StableUnder change (next value)) :
    StableUnder change (program >>= next) := by
  intro state value after hrun
  obtain ⟨first, middle, hfirst, hrest⟩ := ok_of_run_bind hrun
  rw [run_bind_ok (hprogram state first middle hfirst)]
  exact hnext first middle value after hrest

theorem adapt (rename : ε → ε') (hprogram : StableUnder change program) :
    StableUnder change (ExceptT.adapt rename program : Fallible ε' σ α) := by
  intro state value after hrun
  rw [run_adapt, hprogram state value after (ok_of_run_adapt hrun)]
  rfl

theorem forM {program : α → Fallible ε σ PUnit} (items : List α)
    (hprogram : ∀ item ∈ items, StableUnder change (program item)) :
    StableUnder change (items.forM program) := by
  induction items with
  | nil => exact pure ()
  | cons item rest ih =>
    refine bind (hprogram item mem_cons_self) fun _ => ih ?_
    exact fun other hother => hprogram other (mem_cons_of_mem _ hother)

end StableUnder

/-! ## Parts of the state which are left alone -/

def Leaves {γ : Type} (part : σ → γ) (program : Fallible ε σ α) : Prop :=
  ∀ state, part (program state).2 = part state

namespace Leaves

variable {γ : Type} {part : σ → γ}

theorem pure (value : α) : Leaves part (Pure.pure value : Fallible ε σ α) := fun _ => rfl

theorem throw (error : ε) : Leaves part (MonadExcept.throw error : Fallible ε σ α) := fun _ => rfl

theorem ofExcept (result : Except ε α) : Leaves part (Fallible.ofExcept result) := fun _ => rfl

theorem bind
    (hprogram : Leaves part program) (hnext : ∀ value, Leaves part (next value)) :
    Leaves part (program >>= next) := by
  intro state
  have hfirst := hprogram state
  rw [run_bind]
  rcases hrun : program state with ⟨error | value, middle⟩
  · rw [hrun] at hfirst
    exact hfirst
  · rw [hrun] at hfirst
    exact (hnext value middle).trans hfirst

theorem adapt (rename : ε → ε') (hprogram : Leaves part program) :
    Leaves part (ExceptT.adapt rename program : Fallible ε' σ α) := fun state => hprogram state

theorem forM {program : α → Fallible ε σ PUnit} (items : List α)
    (hprogram : ∀ item ∈ items, Leaves part (program item)) : Leaves part (items.forM program) := by
  induction items with
  | nil => exact pure ()
  | cons item rest ih =>
    refine bind (hprogram item mem_cons_self) fun _ => ih ?_
    exact fun other hother => hprogram other (mem_cons_of_mem _ hother)

end Leaves

/-! ## Properties which are kept -/

/-- The property holds afterwards if it did before, whatever the result. -/
def Keeps (invariant : σ → Prop) (program : Fallible ε σ α) : Prop :=
  ∀ state, invariant state → invariant (program state).2

namespace Keeps

variable {invariant : σ → Prop}

theorem pure (value : α) : Keeps invariant (Pure.pure value : Fallible ε σ α) :=
  fun _ hstate => hstate

theorem throw (error : ε) : Keeps invariant (MonadExcept.throw error : Fallible ε σ α) :=
  fun _ hstate => hstate

theorem get : Keeps invariant (MonadState.get : Fallible ε σ σ) := fun _ hstate => hstate

theorem ofExcept (result : Except ε α) : Keeps invariant (Fallible.ofExcept result) :=
  fun _ hstate => hstate

theorem modify {change : σ → σ} (hchange : ∀ state, invariant state → invariant (change state)) :
    Keeps invariant (modify change : Fallible ε σ PUnit) := hchange

theorem bind
    (hprogram : Keeps invariant program) (hnext : ∀ value, Keeps invariant (next value)) :
    Keeps invariant (program >>= next) := by
  intro state hstate
  have hfirst := hprogram state hstate
  rw [run_bind]
  rcases hrun : program state with ⟨error | value, middle⟩
  · rw [hrun] at hfirst
    exact hfirst
  · rw [hrun] at hfirst
    exact hnext value middle hfirst

theorem forM {program : α → Fallible ε σ PUnit} (items : List α)
    (hprogram : ∀ item ∈ items, Keeps invariant (program item)) :
    Keeps invariant (items.forM program) := by
  induction items with
  | nil => exact pure ()
  | cons item rest ih =>
    refine bind (hprogram item mem_cons_self) fun _ => ih ?_
    exact fun other hother => hprogram other (mem_cons_of_mem _ hother)

end Keeps

/-! ## A part of the state which runs by itself -/

/-- From a ready state the program gives such a result and leaves the part alone. -/
def Answers {τ : Type} (ready : σ → Prop) (part : σ → τ)
    (program : Fallible ε σ α) (good : α → Prop) : Prop :=
  ∀ state, ready state → ∃ value after, program state = (.ok value, after) ∧
    good value ∧ ready after ∧ part after = part state

/-- From a ready state the program does to a part of the state what the other program
does to this part alone. -/
def Mirrors {τ : Type} (ready : σ → Prop) (part : σ → τ)
    (program : Fallible ε σ α) (shadow : Fallible ε τ α) : Prop :=
  ∀ state, ready state → ready (program state).2 ∧
    shadow (part state) = ((program state).1, part (program state).2)

namespace Mirrors

variable {τ : Type} {ready : σ → Prop} {part : σ → τ} {next : α → Fallible ε σ β}

theorem pure (value : α) :
    Mirrors ready part (Pure.pure value : Fallible ε σ α) (Pure.pure value) :=
  fun _ hready => ⟨hready, rfl⟩

theorem throw (error : ε) :
    Mirrors ready part (MonadExcept.throw error : Fallible ε σ α) (MonadExcept.throw error) :=
  fun _ hready => ⟨hready, rfl⟩

theorem ofExcept (result : Except ε α) :
    Mirrors ready part (Fallible.ofExcept result : Fallible ε σ α) (Fallible.ofExcept result) :=
  fun _ hready => ⟨hready, rfl⟩

theorem answers_bind {good : α → Prop} {shadow : Fallible ε τ β}
    (hprogram : Answers ready part program good)
    (hnext : ∀ value, good value → Mirrors ready part (next value) shadow) :
    Mirrors ready part (program >>= next) shadow := by
  intro state hready
  obtain ⟨value, after, hrun, hgood, hafter, hpart⟩ := hprogram state hready
  rw [run_bind_ok hrun, ← hpart]
  exact hnext value hgood after hafter

theorem get_bind {next : σ → Fallible ε σ α} {shadow : τ → Fallible ε τ α}
    (hnext : ∀ now, Mirrors ready part (next now) (shadow (part now))) :
    Mirrors ready part (MonadState.get >>= next) (MonadState.get >>= shadow) :=
  fun state hready => hnext state state hready

theorem bind {shadow : Fallible ε τ α} {shadowNext : α → Fallible ε τ β}
    (hprogram : Mirrors ready part program shadow)
    (hnext : ∀ value, Mirrors ready part (next value) (shadowNext value)) :
    Mirrors ready part (program >>= next) (shadow >>= shadowNext) := by
  intro state hready
  obtain ⟨hmiddle, hshadow⟩ := hprogram state hready
  rw [run_bind, run_bind, hshadow]
  rcases hrun : program state with ⟨error | value, middle⟩
  · rw [hrun] at hmiddle
    exact ⟨hmiddle, rfl⟩
  · rw [hrun] at hmiddle
    exact hnext value middle hmiddle

theorem forM {program : α → Fallible ε σ PUnit} {shadow : α → Fallible ε τ PUnit} {items : List α}
    (hprogram : ∀ item ∈ items, Mirrors ready part (program item) (shadow item)) :
    Mirrors ready part (items.forM program) (items.forM shadow) := by
  induction items with
  | nil => exact pure ()
  | cons item _ ih =>
    refine bind (hprogram item mem_cons_self) fun _ => ih ?_
    exact fun other hother => hprogram other (mem_cons_of_mem _ hother)

end Mirrors

/-! ## What holds after a run -/

/-- From a state with the precondition, a result comes with the postcondition and an
error with the other one. -/
def Ensures (pre : σ → Prop) (program : Fallible ε σ α) (post : α → σ → Prop)
    (halt : ε → σ → Prop) : Prop := ∀ state, pre state →
    match program state with
    | (.ok value, after) => post value after
    | (.error error, after) => halt error after

namespace Ensures

variable {pre : σ → Prop} {program : Fallible ε σ α} {post : α → σ → Prop} {halt : ε → σ → Prop}
  {value : α} {error : ε}

theorem of_ok (hensures : Ensures pre program post halt) (hpre : pre state)
    (hrun : program state = (.ok value, after)) : post value after := by
  have hpost := hensures state hpre
  rw [hrun] at hpost
  exact hpost

theorem of_error (hensures : Ensures pre program post halt) (hpre : pre state)
    (hrun : program state = (.error error, after)) : halt error after := by
  have hpost := hensures state hpre
  rw [hrun] at hpost
  exact hpost

theorem pure (hpost : ∀ state, pre state → post value state) :
    Ensures pre (Pure.pure value : Fallible ε σ α) post halt := fun state hpre => hpost state hpre

theorem throw (hhalt : ∀ state, pre state → halt error state) :
    Ensures pre (MonadExcept.throw error : Fallible ε σ α) post halt :=
  fun state hpre => hhalt state hpre

theorem bind {middle : α → σ → Prop} {last : β → σ → Prop}
    (hprogram : Ensures pre program middle halt)
    (hnext : ∀ value, Ensures (middle value) (next value) last halt) :
    Ensures pre (program >>= next) last halt := by
  intro state hpre
  rw [run_bind]
  rcases hrun : program state with ⟨error | value, after⟩
  · exact hprogram.of_error hpre hrun
  · exact hnext value after (hprogram.of_ok hpre hrun)

theorem get_bind {next : σ → Fallible ε σ α}
    (hnext : ∀ now, Ensures (fun state => state = now ∧ pre state) (next now) post halt) :
    Ensures pre (get >>= next) post halt := by
  intro state hpre
  exact hnext state state ⟨rfl, hpre⟩

theorem modify {change : σ → σ} {post : PUnit → σ → Prop}
    (hpost : ∀ state, pre state → post ⟨⟩ (change state)) :
    Ensures pre (MonadState.modifyGet fun state => (⟨⟩, change state) :
      Fallible ε σ PUnit) post halt := fun state hpre => hpost state hpre

theorem weaken {pre' : σ → Prop} {post' : α → σ → Prop} {halt' : ε → σ → Prop}
    (hensures : Ensures pre program post halt) (hpre : ∀ state, pre' state → pre state)
    (hpost : ∀ value state, post value state → post' value state)
    (hhalt : ∀ error state, halt error state → halt' error state) :
    Ensures pre' program post' halt' := by
  intro state hstate
  rcases hrun : program state with ⟨error | value, after⟩
  · exact hhalt error after (hensures.of_error (hpre state hstate) hrun)
  · exact hpost value after (hensures.of_ok (hpre state hstate) hrun)

theorem of_keeps {invariant : σ → Prop} (hkeeps : Keeps invariant program)
    (hhalt : ∀ error state, invariant state → halt error state) :
    Ensures invariant program (fun _ => invariant) halt := by
  intro state hstate
  have hafter := hkeeps state hstate
  rcases hrun : program state with ⟨error | value, after⟩
  · rw [hrun] at hafter
    exact hhalt error after hafter
  · rw [hrun] at hafter
    exact hafter

theorem forM {program : α → Fallible ε σ PUnit} {items : List α} {invariant : List α → σ → Prop}
    (hitem : ∀ front item rest, items = front ++ item :: rest →
      Ensures (invariant front) (program item) (fun _ => invariant (front ++ [item])) halt) :
    Ensures (invariant []) (items.forM program) (fun _ => invariant items)
      halt := by
  suffices hrest : ∀ front rest, items = front ++ rest →
      Ensures (invariant front) (rest.forM program) (fun _ => invariant items)
        halt from hrest [] items rfl
  intro front rest hitems
  induction rest generalizing front with
  | nil =>
    rw [append_nil] at hitems
    exact pure (fun state hpre => hitems ▸ hpre)
  | cons item rest ih =>
    refine bind (hitem front item rest hitems) fun _ => ?_
    exact ih (front ++ [item]) (by simpa using hitems)

theorem range_eq_append_cons {count item : ℕ} {front rest : List ℕ}
    (hrange : List.range count = front ++ item :: rest) : item = front.length ∧ item < count := by
  have hget : (List.range count)[front.length]? = some item := by
    rw [hrange]
    simp
  rw [List.getElem?_eq_some_iff] at hget
  obtain ⟨hlt, heq⟩ := hget
  rw [getElem_range] at heq
  rw [length_range] at hlt
  exact ⟨heq.symm, heq ▸ hlt⟩

theorem forM_range {program : ℕ → Fallible ε σ PUnit} {count : ℕ} {invariant : ℕ → σ → Prop}
    (hround : ∀ i < count, Ensures (invariant i) (program i) (fun _ => invariant (i + 1)) halt) :
    Ensures (invariant 0) ((List.range count).forM program) (fun _ => invariant count) halt := by
  have hloop := @forM ε σ ℕ halt program (List.range count)
    (fun front => invariant front.length) fun front item rest hrange => by
      obtain ⟨rfl, hitem⟩ := range_eq_append_cons hrange
      rw [length_append]
      exact hround front.length hitem
  rwa [length_range] at hloop

end Ensures

end Fallible

end Canon
