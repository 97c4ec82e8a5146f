import Mathlib.Data.List.TakeWhile
import Canon.SqliteStorage

/-!
# Scans by the first bytes of the key

SQLite compares keys byte by byte.  The keys which start with given bytes are the
interval up to the bytes with their last byte below `0xFF` incremented, and where
there is no such byte they are all the keys from the given one on.
-/

namespace Canon

namespace Sqlite

open Function List

/-! ## The bytes after all extensions -/

variable {rest upper stem : Bytes} {byte : UInt8}

theorem nextPrefix_cons_of_some (hrest : nextPrefix rest = some upper) (byte : UInt8) :
    nextPrefix (byte :: rest) = some (byte :: upper) := by
  unfold nextPrefix at hrest ⊢
  rw [reverse_cons, dropWhile_append]
  cases hdrop : rest.reverse.dropWhile (· == 0xFF) with
  | nil =>
    rw [hdrop] at hrest
    cases hrest
  | cons =>
    rw [hdrop] at hrest
    simp only [Option.some.injEq] at hrest
    simp [← hrest]

theorem nextPrefix_cons_of_none (hrest : nextPrefix rest = none) (byte : UInt8) :
    nextPrefix (byte :: rest) =
      if byte = 0xFF then none else some [byte + 1] := by
  unfold nextPrefix at hrest ⊢
  rw [reverse_cons, dropWhile_append]
  cases hdrop : rest.reverse.dropWhile (· == 0xFF) with
  | nil =>
    by_cases hbyte : byte = 0xFF
    all_goals simp [hbyte]
  | cons =>
    rw [hdrop] at hrest
    cases hrest

theorem compare_cons (byte other : UInt8) (rest tail : Bytes) :
    byte < other ∧ compare (byte :: rest) (other :: tail) = .lt ∨
      byte = other ∧ compare (byte :: rest) (other :: tail) = compare rest tail ∨
      other < byte ∧ compare (byte :: rest) (other :: tail) = .gt := by
  rw [List.compare_cons_cons]
  cases hcompare : compare byte other with
  | lt => exact .inl ⟨Std.compare_eq_lt.mp hcompare, rfl⟩
  | eq => exact .inr (.inl ⟨Std.LawfulEqOrd.eq_of_compare hcompare, rfl⟩)
  | gt => exact .inr (.inr ⟨Std.compare_eq_gt.mp hcompare, rfl⟩)

theorem add_one_toNat (hbyte : byte ≠ 0xFF) : (byte + 1).toNat = byte.toNat + 1 := by
  have hne : byte.toNat ≠ 255 := fun heq => hbyte (UInt8.toNat_inj.mp heq)
  have hlt := byte.toNat_lt
  simp
  omega

theorem not_cons_prefix_of_ne {other : UInt8} (hne : byte ≠ other) (rest tail : Bytes) :
    ¬byte :: rest <+: other :: tail := by
  rw [List.cons_prefix_cons]
  exact fun hstem => hne hstem.1

theorem prefix_iff_of_nextPrefix_none (hnone : nextPrefix stem = none) (key : Bytes) :
    stem <+: key ↔ (compare stem key).isLE := by
  induction stem generalizing key with
  | nil =>
    cases key <;> simp
  | cons byte rest ih =>
    cases hrest : nextPrefix rest with
    | some =>
      rw [nextPrefix_cons_of_some hrest] at hnone
      cases hnone
    | none =>
      rw [nextPrefix_cons_of_none hrest] at hnone
      have hbyte : byte = 0xFF := by
        by_contra hne
        rw [if_neg hne] at hnone
        cases hnone
      cases key with
      | nil => simp
      | cons other tail =>
        have hmax : ¬byte < other := by
          have hlt := other.toNat_lt
          rw [hbyte, UInt8.lt_iff_toNat_lt]
          simp
          omega
        rcases compare_cons byte other rest tail with
          ⟨hlt, _⟩ | ⟨rfl, heq⟩ | ⟨hgt, heq⟩
        · exact absurd hlt hmax
        · rw [heq, List.cons_prefix_cons, ih hrest]
          simp
        · rw [heq]
          simpa using not_cons_prefix_of_ne (UInt8.ne_of_lt hgt).symm rest tail

theorem prefix_iff_of_nextPrefix_some (hsome : nextPrefix stem = some upper) (key : Bytes) :
    stem <+: key ↔ (compare stem key).isLE ∧ compare key upper = .lt := by
  induction stem generalizing upper key with
  | nil => cases hsome
  | cons byte rest ih =>
    cases hrest : nextPrefix rest with
    | some next =>
      rw [nextPrefix_cons_of_some hrest] at hsome
      cases hsome
      cases key with
      | nil => simp
      | cons other tail =>
        rcases compare_cons byte other rest tail with
          ⟨hlt, _⟩ | ⟨rfl, heq⟩ | ⟨hgt, heq⟩
        · have hafter : compare (other :: tail) (byte :: next) ≠ .lt := by
            rcases compare_cons other byte tail next with
              ⟨hback, _⟩ | ⟨heq, _⟩ | ⟨_, hgt⟩
            · exact absurd hlt (UInt8.lt_asymm hback)
            · exact absurd heq.symm (UInt8.ne_of_lt hlt)
            · simp [hgt]
          exact iff_of_false (not_cons_prefix_of_ne (UInt8.ne_of_lt hlt) rest tail)
            fun hbounds => hafter hbounds.2
        · rw [heq, List.cons_prefix_cons, ih hrest, List.compare_cons_cons]
          simp
        · rw [heq]
          simpa using not_cons_prefix_of_ne (UInt8.ne_of_lt hgt).symm rest tail
    | none =>
      rw [nextPrefix_cons_of_none hrest] at hsome
      by_cases hbyte : byte = 0xFF
      · rw [if_pos hbyte] at hsome
        cases hsome
      · rw [if_neg hbyte] at hsome
        cases hsome
        cases key with
        | nil => simp
        | cons other tail =>
          have hbump := add_one_toNat hbyte
          rcases compare_cons byte other rest tail with
            ⟨hlt, _⟩ | ⟨rfl, heq⟩ | ⟨hgt, heq⟩
          · have hafter : compare (other :: tail) [byte + 1] ≠ .lt := by
              rcases compare_cons other (byte + 1) tail [] with
                ⟨hback, _⟩ | ⟨_, heq⟩ | ⟨_, hgt⟩
              · rw [UInt8.lt_iff_toNat_lt] at hlt hback
                omega
              · rw [heq]
                cases tail <;> simp
              · simp [hgt]
            exact iff_of_false (not_cons_prefix_of_ne (UInt8.ne_of_lt hlt) rest tail)
              fun hbounds => hafter hbounds.2
          · have hafter : compare (byte :: tail) [byte + 1] = .lt := by
              rcases compare_cons byte (byte + 1) tail [] with
                ⟨_, hlt⟩ | ⟨heq, _⟩ | ⟨hgt, _⟩
              · exact hlt
              · have := congrArg UInt8.toNat heq
                omega
              · rw [UInt8.lt_iff_toNat_lt] at hgt
                omega
            rw [heq, List.cons_prefix_cons, prefix_iff_of_nextPrefix_none hrest]
            simp [hafter]
          · rw [heq]
            simpa using not_cons_prefix_of_ne (UInt8.ne_of_lt hgt).symm rest tail

/-! ## The entries of a scan -/

def lookup (table : Table) (key : Bytes) : Option Bytes := table[key]?

def KeyBefore (key later : Bytes) : Prop := compare key later = .lt

theorem scanRows_lists (table : Table) (stem : Bytes) :
    AtomicMap.Lists KeyBefore (lookup table) {key | stem <+: key} (scanRows table stem) := by
  have hsorted : table.toList.Pairwise fun row later =>
      KeyBefore row.1 later.1 := Std.ExtTreeMap.ordered_keys_toList
  have hmem : ∀ key value, (key, value) ∈ table.toList ↔ lookup table key = some value :=
    fun _ _ => Std.ExtTreeMap.mem_toList_iff_getElem?_eq_some
  unfold scanRows
  split_ifs with hempty
  · rw [List.isEmpty_iff] at hempty
    subst hempty
    refine ⟨hsorted, fun key value => ?_⟩
    rw [scanAll, hmem]
    simp
  · cases hnext : nextPrefix stem with
    | some =>
      refine ⟨hsorted.filter _, fun key value => ?_⟩
      have hbounds := prefix_iff_of_nextPrefix_some hnext key
      simp only [scanTwoBound, mem_filter, hmem, Bool.and_eq_true,
        Ordering.isLT_iff_eq_lt, Set.mem_ofPred_eq, hbounds]
      exact and_comm
    | none =>
      have hall : ∀ row ∈ table.toList.filter fun row =>
          (compare stem row.1).isLE, stem.isPrefixOf row.1 = true := by
        intro row hrow
        rw [ isPrefixOf_iff_prefix, prefix_iff_of_nextPrefix_none hnext]
        exact (mem_filter.mp hrow).2
      simp only [scanLowerBoundFiltered, takeWhile_eq_self_iff.mpr hall]
      refine ⟨hsorted.filter _, fun key value => ?_⟩
      rw [mem_filter, hmem, Set.mem_ofPred_eq, prefix_iff_of_nextPrefix_none hnext]
      exact and_comm

theorem lookup_insert (table : Table) (key value : Bytes) :
    lookup (table.insert key value) = update (lookup table) key (some value) := by
  funext other
  unfold lookup
  rw [Std.ExtTreeMap.getElem?_insert, update_apply]
  simp only [Std.LawfulEqCmp.compare_eq_iff_eq, eq_comm (a := other)]

theorem lookup_erase (table : Table) (key : Bytes) :
    lookup (table.erase key) = update (lookup table) key none := by
  funext other
  unfold lookup
  rw [Std.ExtTreeMap.getElem?_erase, update_apply]
  simp only [Std.LawfulEqCmp.compare_eq_iff_eq, eq_comm (a := other)]

end Sqlite

end Canon
