import Canon.ByteStrings
import Mathlib.Data.List.GetD
import Mathlib.Data.List.Sort
import Mathlib.Algebra.Order.Floor.Semiring
import Mathlib.Order.Bounds.Basic
import Mathlib.Tactic

/-!
# The latency histogram of the benchmark

Every worker records into a histogram of its own, and the runner merges them before it
reports.  In a sorted list the entry at a position is at most a value exactly when the
position is below the number of entries which are.
-/

namespace Canon

open List

/-! ## Ranks in a sorted list -/

section Ranks

variable {α : Type} [LE α] [DecidableLE α] [Std.IsPreorder α] {sorted : List α} {n : ℕ}

theorem getElem_le_iff_lt_countP (hsorted : sorted.Pairwise (· ≤ ·)) (hn : n < sorted.length)
    (value : α) : sorted[n] ≤ value ↔ n < sorted.countP fun entry => entry ≤ value := by
  induction sorted generalizing n with
  | nil => cases hn
  | cons first rest ih =>
    obtain ⟨hfirst, hrest⟩ := pairwise_cons.mp hsorted
    by_cases hle : first ≤ value
    · rw [countP_cons_of_pos (by simpa using hle)]
      cases n with
      | zero => simp [hle]
      | succ n =>
        rw [getElem_cons_succ, ih hrest (by simpa using hn)]
        omega
    · have hlarge : ∀ entry ∈ first :: rest, ¬entry ≤ value := by
        intro entry hentry
        rcases mem_cons.mp hentry with rfl | hmem
        · exact hle
        · exact fun hentryLe => hle (Std.le_trans (hfirst entry hmem) hentryLe)
      have hnone : (first :: rest).countP (fun entry => entry ≤ value) = 0 := by
        simpa [countP_eq_zero] using hlarge
      rw [hnone]
      exact iff_of_false (hlarge _ (getElem_mem hn)) (Nat.not_lt_zero n)

theorem isLeast_getElem (hsorted : sorted.Pairwise (· ≤ ·)) (hn : n < sorted.length) :
    IsLeast {value | value ∈ sorted ∧ n < sorted.countP fun entry => entry ≤ value} sorted[n] := by
  constructor
  · exact ⟨getElem_mem hn, (getElem_le_iff_lt_countP hsorted hn _).mp (Std.le_refl _)⟩
  · rintro value ⟨_, hcount⟩
    exact (getElem_le_iff_lt_countP hsorted hn value).mpr hcount

end Ranks

namespace Bench

structure Histogram where
  samples : List UInt64

def Histogram.new : Histogram := ⟨[]⟩

def Histogram.recordNs (histogram : Histogram) (ns : UInt64) : Histogram :=
  ⟨histogram.samples ++ [ns]⟩

def Histogram.merge (histogram other : Histogram) : Histogram :=
  ⟨histogram.samples ++ other.samples⟩

structure LatencySummary where
  count : ℕ
  minNs : UInt64
  maxNs : UInt64
  meanNs : Float
  stddevNs : Float
  p50Ns : UInt64
  p90Ns : UInt64
  p99Ns : UInt64
  p999Ns : UInt64

def LatencySummary.default : LatencySummary := ⟨0, 0, 0, 0, 0, 0, 0, 0, 0⟩

/-- The arithmetic is that of `u128`, which a length of at most `2 ^ 64` and the
numerators below do not leave. -/
def percentileNearestRank (sorted : List UInt64) (numerator denominator : ℕ) : UInt64 :=
  let n := sorted.length
  if n = 0 then 0
  else if numerator = 0 then sorted.getD 0 0
  else
    let rank := (numerator * n + denominator - 1) / denominator
    let idx := rank - 1
    sorted.getD (if n ≤ idx then n - 1 else idx) 0

/-- Count, mean and sum of squared differences after one more sample. -/
def welfordStep (state : Float × Float × Float) (ns : UInt64) : Float × Float × Float :=
  let (count, mean, m2) := state
  let x := ns.toFloat
  let count := count + 1
  let delta := x - mean
  let mean := mean + delta / count
  (count, mean, m2 + delta * (x - mean))

/-- `summarise` behind the sort. -/
def LatencySummary.ofSorted (samples : List UInt64) : LatencySummary :=
  let n := samples.length
  let (count, mean, m2) := samples.foldl welfordStep (0, 0, 0)
  let variance := if count > 1 then m2 / count else 0
  { count := n
    minNs := samples.getD 0 0
    maxNs := samples.getD (n - 1) 0
    meanNs := mean
    stddevNs := variance.sqrt
    p50Ns := percentileNearestRank samples 50 100
    p90Ns := percentileNearestRank samples 90 100
    p99Ns := percentileNearestRank samples 99 100
    p999Ns := percentileNearestRank samples 999 1000 }

def Histogram.summarise (histogram : Histogram) : LatencySummary × Histogram :=
  if histogram.samples.isEmpty then (.default, histogram)
  else
    let samples := histogram.samples.insertionSort (· ≤ ·)
    (.ofSorted samples, ⟨samples⟩)

/-! ## Any distribution over workers -/

/-- Histograms which hold the given samples, however these were recorded, merged and
reported before. -/
inductive Collects : Multiset UInt64 → Histogram → Prop
  | new : Collects 0 .new
  | record {samples : Multiset UInt64} {histogram : Histogram} (ns : UInt64) :
      Collects samples histogram → Collects (ns ::ₘ samples) (histogram.recordNs ns)
  | merge {first second : Multiset UInt64} {histogram other : Histogram} :
      Collects first histogram → Collects second other →
        Collects (first + second) (histogram.merge other)
  | summarise {samples : Multiset UInt64} {histogram : Histogram} :
      Collects samples histogram → Collects samples histogram.summarise.2

theorem summarise_eq {histogram : Histogram} (hsome : histogram.samples ≠ []) :
    histogram.summarise = (.ofSorted (histogram.samples.insertionSort (· ≤ ·)),
      ⟨histogram.samples.insertionSort (· ≤ ·)⟩) :=
  if_neg (by simpa using hsome)

theorem summarise_samples (histogram : Histogram) :
    histogram.summarise.2.samples = histogram.samples.insertionSort (· ≤ ·) := by
  by_cases hsome : histogram.samples = []
  · rw [Histogram.summarise, hsome]
    exact hsome
  · rw [summarise_eq hsome]

variable {samples : Multiset UInt64}

theorem Collects.coe_samples {histogram : Histogram} (hcollects : Collects samples histogram) :
    (histogram.samples : Multiset UInt64) = samples := by
  induction hcollects with
  | new => rfl
  | record ns _ ih =>
    rw [← ih, Histogram.recordNs, ← Multiset.coe_add, add_comm]
    rfl
  | merge _ _ ihFirst ihSecond =>
    rw [← ihFirst, ← ihSecond]
    rfl
  | summarise _ ih =>
    rw [summarise_samples, ← ih]
    exact Multiset.coe_eq_coe.mpr (perm_insertionSort _ _)

/-- The smallest sample with at least the given share of all samples up to it. -/
def IsPercentile (samples : Multiset UInt64) (share : ℚ) (value : UInt64) : Prop :=
  IsLeast {v | v ∈ samples ∧ ⌈share * samples.card⌉₊ ≤ samples.countP (· ≤ v)} value

theorem IsPercentile.le {share higher : ℚ} {value upper : UInt64}
    (hvalue : IsPercentile samples share value) (hupper : IsPercentile samples higher upper)
    (hle : share ≤ higher) : value ≤ upper := by
  refine hvalue.2 ⟨hupper.1.1, le_trans (Nat.ceil_mono ?_) hupper.1.2⟩
  exact mul_le_mul_of_nonneg_right hle (Nat.cast_nonneg _)

section Sorted

variable {sorted : List UInt64} (hsome : 0 < sorted.length) {numerator denominator : ℕ}
include hsome

theorem percentile_rank (hpos : 0 < numerator) (hle : numerator ≤ denominator) :
    ∃ n, ∃ hn : n < sorted.length,
      percentileNearestRank sorted numerator denominator = sorted[n] ∧
        ∀ count : ℕ, n < count ↔ ⌈((numerator : ℚ) / denominator) * sorted.length⌉₊ ≤ count := by
  have hproduct : numerator * sorted.length ≤ denominator * sorted.length :=
    Nat.mul_le_mul_right _ hle
  have hrank : ∀ count : ℕ,
      (numerator * sorted.length + denominator - 1) / denominator ≤ count ↔
        numerator * sorted.length ≤ denominator * count := by
    intro count
    rw [← Nat.lt_succ_iff, Nat.div_lt_iff_lt_mul (by omega), Nat.succ_mul, Nat.mul_comm count]
    omega
  have hfirst : 0 < (numerator * sorted.length + denominator - 1) / denominator :=
    Nat.div_pos (by have := Nat.mul_pos hpos hsome; omega) (by omega)
  have hlast := (hrank sorted.length).mpr hproduct
  refine ⟨(numerator * sorted.length + denominator - 1) / denominator - 1, by omega, ?_, ?_⟩
  · simp only [percentileNearestRank]
    rw [if_neg (by omega), if_neg (by omega), if_neg (by omega), getD_eq_getElem _ _ (by omega)]
  · intro count
    have hden : (0 : ℚ) < denominator := by exact_mod_cast hpos.trans_le hle
    rw [Nat.ceil_le, div_mul_eq_mul_div, div_le_iff₀ hden, mul_comm (count : ℚ)]
    norm_cast
    rw [← hrank count]
    omega

theorem isPercentile_nearestRank (hsorted : sorted.Pairwise (· ≤ ·)) (hpos : 0 < numerator)
    (hle : numerator ≤ denominator) :
    IsPercentile sorted (numerator / denominator)
      (percentileNearestRank sorted numerator denominator) := by
  obtain ⟨n, hn, hvalue, hrank⟩ := percentile_rank hsome hpos hle
  have hleast := isLeast_getElem hsorted hn
  simp only [hrank] at hleast
  rw [hvalue]
  exact hleast

theorem extremes_of_sorted (hsorted : sorted.Pairwise (· ≤ ·)) {value : UInt64}
    (hmem : value ∈ sorted) :
    sorted.getD 0 0 ≤ value ∧ value ≤ sorted.getD (sorted.length - 1) 0 := by
  obtain ⟨n, hn, rfl⟩ := mem_iff_getElem.mp hmem
  have hle : ∀ {i j : ℕ} (hi : i < sorted.length) (hj : j < sorted.length), i ≤ j →
      sorted[i] ≤ sorted[j] := by
    intro i j hi hj hij
    rcases Nat.lt_or_eq_of_le hij with hlt | rfl
    · exact pairwise_iff_getElem.mp hsorted i j hi hj hlt
    · exact UInt64.le_refl _
  rw [getD_eq_getElem _ _ hsome, getD_eq_getElem _ _ (by omega)]
  exact ⟨hle _ _ (Nat.zero_le n), hle _ _ (by omega)⟩

end Sorted

/-- The percentiles of a report depend only on the samples, and a second report on
the sorted histogram is the same. -/
theorem latency_percentiles {samples : Multiset UInt64} {histogram : Histogram}
    {summary : LatencySummary} (hcollects : Collects samples histogram) (hsome : samples ≠ 0)
    (hsummary : histogram.summarise.1 = summary) :
    (IsPercentile samples (50 / 100) summary.p50Ns ∧ IsPercentile samples (90 / 100) summary.p90Ns ∧
        IsPercentile samples (99 / 100) summary.p99Ns ∧
        IsPercentile samples (999 / 1000) summary.p999Ns) ∧
      (summary.minNs ≤ summary.p50Ns ∧ summary.p50Ns ≤ summary.p90Ns ∧
        summary.p90Ns ≤ summary.p99Ns ∧ summary.p99Ns ≤ summary.p999Ns ∧
        summary.p999Ns ≤ summary.maxNs) ∧
      histogram.summarise.2.summarise.1 = summary := by
  have hcoe := hcollects.coe_samples
  have hne : histogram.samples ≠ [] := by
    rw [← hcoe] at hsome
    simpa using hsome
  let sorted := histogram.samples.insertionSort (· ≤ ·)
  have hsorted : sorted.Pairwise (· ≤ ·) := pairwise_insertionSort _ _
  have hperm : (sorted : Multiset UInt64) = samples :=
    (Multiset.coe_eq_coe.mpr (perm_insertionSort _ _)).trans hcoe
  have hlength : 0 < sorted.length := by
    rw [length_insertionSort]
    exact length_pos_iff.mpr hne
  rw [summarise_eq hne] at hsummary ⊢
  subst hsummary
  have hpercentile : ∀ {numerator denominator : ℕ}, 0 < numerator → numerator ≤ denominator →
      IsPercentile samples (numerator / denominator)
        (percentileNearestRank sorted numerator denominator) :=
    fun hpos hle => hperm ▸ isPercentile_nearestRank hlength hsorted hpos hle
  have h50 := @hpercentile 50 100 (by omega) (by omega)
  have h90 := @hpercentile 90 100 (by omega) (by omega)
  have h99 := @hpercentile 99 100 (by omega) (by omega)
  have h999 := @hpercentile 999 1000 (by omega) (by omega)
  have hmin := (extremes_of_sorted hlength hsorted (Multiset.mem_coe.mp (hperm ▸ h50.1.1))).1
  have hmax := (extremes_of_sorted hlength hsorted (Multiset.mem_coe.mp (hperm ▸ h999.1.1))).2
  refine ⟨⟨h50, h90, h99, h999⟩, ⟨hmin, h50.le h90 ?_, h90.le h99 ?_, h99.le h999 ?_, hmax⟩, ?_⟩
  · norm_num
  · norm_num
  · norm_num
  · have hagain := @summarise_eq ⟨sorted⟩ (length_pos_iff.mp hlength)
    rw [hsorted.insertionSort_eq] at hagain
    exact congrArg Prod.fst hagain

theorem latency_percentiles_five : IsPercentile ({10, 30} + {40, 20, 50}) (50 / 100) 30 := by
  have hfirst : Collects {10, 30} ((Histogram.new.recordNs 30).recordNs 10) :=
    .record 10 (.record 30 .new)
  have hsecond : Collects {40, 20, 50}
      (((Histogram.new.recordNs 50).recordNs 20).recordNs 40) :=
    .record 40 (.record 20 (.record 50 .new))
  exact (latency_percentiles (.merge hfirst hsecond) (by simp) rfl).1.1

end Bench
end Canon
