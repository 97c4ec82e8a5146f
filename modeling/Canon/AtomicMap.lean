import Mathlib.Logic.Function.Basic
import Mathlib.Data.Set.Defs
import Mathlib.Tactic

/-!
# A map with atomic transactions

A store of values under keys, seen from outside.  At most one handle is open at a
time.  A snapshot reads the map as it is.  A transaction reads and changes a copy,
which replaces the map when it commits and is forgotten otherwise.  Any request
may be refused, and a refused one changes nothing, except that a transaction whose
commit is refused is over.
-/

namespace Canon

namespace AtomicMap

variable {K V : Type}

inductive Handle (K V : Type) where
  | idle
  | reading
  | writing (pending : K → Option V)

structure State (K V : Type) where
  map : K → Option V
  handle : Handle K V

def State.visible (state : State K V) : K → Option V :=
  match state.handle with
  | .writing pending => pending
  | _ => state.map

def State.assign [DecidableEq K] (state : State K V) (key : K) (value : Option V) : State K V :=
  match state.handle with
  | .writing pending =>
    ⟨state.map, .writing (Function.update pending key value)⟩
  | handle => ⟨Function.update state.map key value, handle⟩

inductive Request (K V : Type) where
  | get (key : K)
  | scan (range : Set K)
  | put (key : K) (value : V)
  | delete (key : K)
  | snapshot
  | transaction
  | commit
  | abandon

inductive Response (K V : Type) where
  | value (found : Option V)
  | rows (found : List (K × V))
  | done
  | failed

def Request.Closes : Request K V → Prop
  | .commit | .abandon => True
  | _ => False

/-- `rows` are the entries of `map` whose key lies in `range`, in the order
`before`. -/
structure Lists (before : K → K → Prop) (map : K → Option V) (range : Set K)
    (rows : List (K × V)) : Prop where
  sorted : rows.Pairwise fun row later => before row.1 later.1
  entries : ∀ key value, (key, value) ∈ rows ↔ key ∈ range ∧ map key = some value

section Steps

variable [DecidableEq K] (before : K → K → Prop)

inductive Step : State K V → Request K V → Response K V → State K V → Prop
  | get (state : State K V) (key : K) : Step state (.get key) (.value (state.visible key)) state
  | scan (state : State K V) (range : Set K) (rows : List (K × V)) :
      Lists before state.visible range rows → Step state (.scan range) (.rows rows) state
  | put (state : State K V) (key : K) (value : V) :
      state.handle ≠ .reading → Step state (.put key value) .done (state.assign key (some value))
  | delete (state : State K V) (key : K) :
      state.handle ≠ .reading → Step state (.delete key) .done (state.assign key none)
  | snapshot (map : K → Option V) : Step ⟨map, .idle⟩ .snapshot .done ⟨map, .reading⟩
  | transaction (map : K → Option V) : Step ⟨map, .idle⟩ .transaction .done ⟨map, .writing map⟩
  | refused (state : State K V) (request : Request K V) :
      ¬request.Closes → Step state request .failed state
  | release (map : K → Option V) (response : Response K V) :
      Step ⟨map, .reading⟩ .abandon response ⟨map, .idle⟩
  | commit (map pending : K → Option V) :
      Step ⟨map, .writing pending⟩ .commit .done ⟨pending, .idle⟩
  | commitRefused (map pending : K → Option V) :
      Step ⟨map, .writing pending⟩ .commit .failed ⟨map, .idle⟩
  | abandon (map pending : K → Option V) (response : Response K V) :
      Step ⟨map, .writing pending⟩ .abandon response ⟨map, .idle⟩

/-- The requests and answers are those of some sequence of steps. -/
inductive Conforms : State K V → List (Request K V × Response K V) → Prop
  | nil (state : State K V) : Conforms state []
  | cons {state next : State K V} {request : Request K V}
      {response : Response K V} {trace : List (Request K V × Response K V)} :
      Step before state request response next → Conforms next trace →
        Conforms state ((request, response) :: trace)

variable {before} {state : State K V}

theorem conforms_cons {request : Request K V} {response : Response K V}
    {trace : List (Request K V × Response K V)} :
    Conforms before state ((request, response) :: trace) ↔
      ∃ next, Step before state request response next ∧ Conforms before next trace := by
  constructor
  · rintro (_ | ⟨hstep, hrest⟩)
    exact ⟨_, hstep, hrest⟩
  · rintro ⟨next, hstep, hrest⟩
    exact .cons hstep hrest

theorem Step.value_eq {next : State K V} {key : K} {found : Option V}
    (hstep : Step before state (.get key) (.value found) next) : found = state.visible key := by
  cases hstep
  rfl

end Steps

section Machines

variable {σ ι α : Type} (call : σ → ι → Option (α × σ))
  (request : ι → Request K V) (response : α → Response K V)

/-- What an observer of the machine records, up to the first call which does not
return. -/
def observed : σ → List ι → List (Request K V × Response K V)
  | _, [] => []
  | state, next :: rest =>
    match call state next with
    | none => []
    | some (answer, after) =>
      (request next, response answer) :: observed after rest

variable {call request response}

@[simp] theorem observed_nil (state : σ) : observed call request response state [] = [] :=
  rfl

theorem observed_cons {state after : σ} {next : ι} {answer : α}
    (hcall : call state next = some (answer, after)) (rest : List ι) :
    observed call request response state (next :: rest) =
      (request next, response answer) :: observed call request response after rest := by
  rw [observed, hcall]

/-- If the map can follow every single call of the machine, it can follow every
sequence of calls. -/
theorem conforms_of_simulation [DecidableEq K] {before : K → K → Prop}
    {related : σ → State K V → Prop}
    (hstep : ∀ state abstract next answer after,
      related state abstract → call state next = some (answer, after) →
        ∃ abstract', Step before abstract (request next) (response answer)
          abstract' ∧ related after abstract')
    {state : σ} {abstract : State K V} (hrelated : related state abstract) (calls : List ι) :
    Conforms before abstract (observed call request response state calls) := by
  induction calls generalizing state abstract with
  | nil => exact .nil abstract
  | cons next _ ih =>
    cases hcall : call state next with
    | none =>
      rw [observed, hcall]
      exact .nil abstract
    | some outcome =>
      obtain ⟨answer, after⟩ := outcome
      obtain ⟨abstract', hfollows, hafter⟩ := hstep state abstract next answer after hrelated hcall
      rw [observed_cons hcall]
      exact .cons hfollows (ih hafter)

end Machines

end AtomicMap

end Canon
