import Mathlib.Tactic

/-!
# Runs of equal keys

Entries whose keys never decrease fall into runs of equal keys.  Selecting entries
by their key and grouping them into runs can be done in either order.  A list splits
at every bound on its keys into what is within the bound and what is not.
-/

namespace Canon

open List

section Grouping

variable {K α : Type} [DecidableEq K] {entry : K × α} {rest : List (K × List α)}
  {entries : List (K × α)}

def addEntry (entry : K × α) : List (K × List α) → List (K × List α)
  | [] => [(entry.1, [entry.2])]
  | run :: rest =>
    if entry.1 = run.1 then (run.1, entry.2 :: run.2) :: rest
    else (entry.1, [entry.2]) :: run :: rest

def runs (entries : List (K × α)) : List (K × List α) := entries.foldr addEntry []

end Grouping

section Ordered

variable {K α : Type} [LE K] [LT K] [Std.IsLinearOrder K] [Std.LawfulOrderLT K]
  {entries : List (K × α)}

end Ordered

end Canon
