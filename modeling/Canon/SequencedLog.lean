import Mathlib.Tactic

/-!
# A log of numbered batches

Frame `n` of a log carries a batch of payloads, and all its entries have the
number `n`.  Frames count from one, and a batch may be empty.  The entries of the
first frames, in order, are `upTo`; the part after a given number is `between`.
-/

namespace Canon

open List

structure Numbered (α : Type) where
  seq : ℕ
  payload : α
  deriving DecidableEq

namespace Sequenced

section Log

variable {α : Type} (log : ℕ → List α)

def batch (n : ℕ) : List (Numbered α) := (log n).map fun payload => ⟨n, payload⟩

/-- The entries of the frames `1, ..., n`. -/
def upTo : ℕ → List (Numbered α)
  | 0 => []
  | n + 1 => upTo n ++ batch log (n + 1)

/-- The entries of the frames `low + 1, ..., high`. -/
def between (low high : ℕ) : List (Numbered α) :=
  (upTo log high).filter fun entry => low < entry.seq

variable {log}

variable {n low high : ℕ} {entry : Numbered α} {middle : ℕ} {entries first : List (Numbered α)}

theorem seq_of_mem_batch (hmem : entry ∈ batch log n) : entry.seq = n := by
  obtain ⟨payload, _, rfl⟩ := mem_map.mp hmem
  rfl

theorem seq_of_mem_upTo (hmem : entry ∈ upTo log n) : 0 < entry.seq ∧ entry.seq ≤ n := by
  induction n with
  | zero => cases hmem
  | succ _ ih =>
    rcases mem_append.mp hmem with hold | hnew
    · have hseq := ih hold
      omega
    · have hseq := seq_of_mem_batch hnew
      omega

theorem mem_between : entry ∈ between log low high ↔ entry ∈ upTo log high ∧ low < entry.seq := by
  rw [between, mem_filter, decide_eq_true_eq]

theorem seq_of_mem_between
    (hmem : entry ∈ between log low high) : low < entry.seq ∧ entry.seq ≤ high :=
  ⟨(mem_between.mp hmem).2, (seq_of_mem_upTo (mem_between.mp hmem).1).2⟩

theorem upTo_sorted (n : ℕ) : (upTo log n).Pairwise fun entry later => entry.seq ≤ later.seq := by
  induction n with
  | zero => exact .nil
  | succ _ ih =>
    rw [upTo, pairwise_append]
    refine ⟨ih, ?_, ?_⟩
    · apply pairwise_of_forall_mem_list
      intro entry hentry later hlater
      rw [seq_of_mem_batch hentry, seq_of_mem_batch hlater]
    · intro entry hentry later hlater
      have hold := seq_of_mem_upTo hentry
      have hnew := seq_of_mem_batch hlater
      omega

/-! ## Parts of the log -/

theorem between_zero (n : ℕ) : between log 0 n = upTo log n := by
  rw [between, filter_eq_self]
  intro entry hmem
  exact decide_eq_true (seq_of_mem_upTo hmem).1

theorem between_of_le (hle : high ≤ low) : between log low high = [] := by
  rw [eq_nil_iff_forall_not_mem]
  intro entry hmem
  have hseq := seq_of_mem_between hmem
  omega

theorem between_succ (hle : low ≤ high) :
    between log low (high + 1) = between log low high ++ batch log (high + 1) := by
  rw [between, upTo, filter_append, ← between]
  congr 1
  rw [filter_eq_self]
  intro entry hmem
  rw [seq_of_mem_batch hmem]
  exact decide_eq_true (by omega)

theorem between_append {low middle high : ℕ} (hlow : low ≤ middle) (hhigh : middle ≤ high) :
    between log low middle ++ between log middle high = between log low high := by
  induction high, hhigh using Nat.le_induction with
  | base => rw [between_of_le (Nat.le_refl middle), append_nil]
  | succ _ hhigh ih =>
    rw [between_succ hhigh, between_succ (hlow.trans hhigh), ← append_assoc, ih]

theorem upTo_append_between (hle : low ≤ high) :
    upTo log low ++ between log low high = upTo log high := by
  have happend := @between_append α log 0 low high (Nat.zero_le low) hle
  rwa [between_zero, between_zero] at happend

theorem between_suffix (low high : ℕ) : between log low high <:+ upTo log high := by
  by_cases hle : low ≤ high
  · exact ⟨upTo log low, upTo_append_between hle⟩
  · rw [between_of_le (Nat.le_of_not_le hle)]
    exact nil_suffix

theorem upTo_prefix_of_le (hle : low ≤ high) : upTo log low <+: upTo log high :=
  ⟨between log low high, upTo_append_between hle⟩

theorem between_prefix_of_le (hle : middle ≤ high) :
    between log low middle <+: between log low high := (upTo_prefix_of_le hle).filter _

theorem filter_between (low high seen : ℕ) :
    (between log low high).filter (fun entry => seen < entry.seq) =
      between log (max low seen) high := by
  rw [between, filter_filter, between]
  apply filter_congr
  intro entry _
  rw [Bool.eq_iff_iff, Bool.and_eq_true, decide_eq_true_eq, decide_eq_true_eq, decide_eq_true_eq]
  omega

theorem filter_upTo (hle : low ≤ high) :
    (upTo log high).filter (fun entry => entry.seq ≤ low) = upTo log low := by
  have hkeep : (upTo log low).filter (fun entry => entry.seq ≤ low) = upTo log low := by
    rw [filter_eq_self]
    intro entry hmem
    exact decide_eq_true (seq_of_mem_upTo hmem).2
  have hdrop : (between log low high).filter (fun entry => entry.seq ≤ low) = [] := by
    rw [filter_eq_nil_iff]
    intro entry hmem
    have hseq := seq_of_mem_between hmem
    rw [decide_eq_true_eq]
    omega
  rw [← upTo_append_between hle, filter_append, hkeep, hdrop, append_nil]

theorem upTo_congr {other : ℕ → List α} {bound : ℕ}
    (hsame : ∀ m ≤ bound, other m = log m) (hle : n ≤ bound) : upTo other n = upTo log n := by
  induction n with
  | zero => rfl
  | succ n ih =>
    rw [upTo, upTo, batch, batch, ih (Nat.le_of_succ_le hle), hsame (n + 1) hle]

/-! ## The last number -/

def lastSeq (entries : List (Numbered α)) : ℕ := (entries.getLast?.map Numbered.seq).getD 0

@[simp] theorem lastSeq_nil : lastSeq ([] : List (Numbered α)) = 0 := rfl

@[simp] theorem lastSeq_snoc (entries : List (Numbered α))
    (entry : Numbered α) : lastSeq (entries ++ [entry]) = entry.seq := by
  rw [lastSeq, List.getLast?_concat]
  rfl

theorem exists_mem_lastSeq (hsome : entries ≠ []) :
    ∃ entry ∈ entries, entry.seq = lastSeq entries := by
  obtain ⟨initial, last, rfl⟩ := (eq_nil_or_concat entries).resolve_left hsome
  rw [concat_eq_append, lastSeq_snoc]
  exact ⟨last, mem_append_right _ (mem_singleton_self last), rfl⟩

theorem le_lastSeq (hentries : entries.Sublist (upTo log n)) (hmem : entry ∈ entries) :
    entry.seq ≤ lastSeq entries := by
  have hsorted := (upTo_sorted n).sublist hentries
  obtain ⟨initial, last, rfl⟩ :=
    (eq_nil_or_concat entries).resolve_left (ne_nil_of_mem hmem)
  rw [concat_eq_append] at hmem hsorted ⊢
  rw [lastSeq_snoc]
  rcases mem_append.mp hmem with hold | hnew
  · exact (pairwise_append.mp hsorted).2.2 entry hold last (mem_singleton_self last)
  · rw [mem_singleton.mp hnew]

theorem between_sublist (low high : ℕ) : (between log low high).Sublist (upTo log high) :=
  filter_sublist

theorem lastSeq_between_le (low high : ℕ) : lastSeq (between log low high) ≤ high := by
  by_cases hnil : between log low high = []
  · rw [hnil]
    exact Nat.zero_le high
  · obtain ⟨entry, hmem, hlast⟩ := exists_mem_lastSeq hnil
    rw [← hlast]
    exact (seq_of_mem_between hmem).2

/-! ## Joining and cutting -/

/-- A reader has the part from `low` to `middle` and a second copy of the log
from `since` on.  Dropping from the copy what is not above the last entry it has
leaves the part after `middle`. -/
theorem filter_lastSeq {since : ℕ} (hsince : since ≤ middle) (hhigh : middle ≤ high)
    (hsome : between log low middle ≠ []) :
    (between log since high).filter (fun entry => lastSeq (between log low middle) < entry.seq) =
      between log middle high := by
  have hlast := @lastSeq_between_le α log low middle
  have hlow : low < lastSeq (between log low middle) := by
    obtain ⟨entry, hmem, heq⟩ := exists_mem_lastSeq hsome
    rw [← heq]
    exact (seq_of_mem_between hmem).1
  have hempty : between log (max since (lastSeq (between log low middle))) middle = [] := by
    rw [eq_nil_iff_forall_not_mem]
    intro entry hmem
    have hseq := mem_between.mp hmem
    have hle : entry.seq ≤ lastSeq (between log low middle) :=
      le_lastSeq (between_sublist low middle) (mem_between.mpr ⟨hseq.1, by omega⟩)
    omega
  rw [filter_between, ← between_append (max_le hsince hlast) hhigh, hempty, nil_append]

/-- Where a run of entries is cut between two numbers, its first half ends with
the frame of the cut. -/
theorem suffix_of_infix_cut {first second : List (Numbered α)} {cut n : ℕ}
    (hpart : first ++ second <:+: upTo log n) (hfirst : ∀ entry ∈ first, entry.seq ≤ cut)
    (hsecond : ∀ entry ∈ second, cut < entry.seq)
    (hfirstSome : first ≠ []) (hsecondSome : second ≠ []) :
    first <:+ upTo log cut := by
  obtain ⟨earlier, later, hlog⟩ := hpart
  obtain ⟨known, hknown⟩ := exists_mem_of_ne_nil _ hfirstSome
  obtain ⟨other, hother⟩ := exists_mem_of_ne_nil _ hsecondSome
  have hsorted := @upTo_sorted α log n
  rw [← hlog, append_assoc, append_assoc, pairwise_append,
    pairwise_append, pairwise_append] at hsorted
  obtain ⟨_, ⟨_, ⟨_, _, hlater⟩, _⟩, hearlier⟩ := hsorted
  have hcut : cut ≤ n := by
    have hmem : other ∈ upTo log n := by
      rw [← hlog]
      simp [hother]
    have hseq := (seq_of_mem_upTo hmem).2
    have hgt := hsecond other hother
    omega
  have hkeep : (earlier ++ first).filter (fun entry => entry.seq ≤ cut) = earlier ++ first := by
    rw [filter_eq_self]
    intro entry hmem
    rw [decide_eq_true_eq]
    rcases mem_append.mp hmem with hold | hnew
    · have hle := hearlier entry hold known (mem_append_left _ hknown)
      have hseq := hfirst known hknown
      omega
    · exact hfirst entry hnew
  have hdrop : (second ++ later).filter (fun entry => entry.seq ≤ cut) = [] := by
    rw [filter_eq_nil_iff]
    intro entry hmem
    rw [decide_eq_true_eq]
    rcases mem_append.mp hmem with hold | hnew
    · have hseq := hsecond entry hold
      omega
    · have hle := hlater other hother entry hnew
      have hseq := hsecond other hother
      omega
  refine ⟨earlier, ?_⟩
  rw [← filter_upTo hcut, ← hlog, ← append_assoc, append_assoc,
    filter_append, hkeep, hdrop, append_nil]

theorem infix_of_suffix {second : List (Numbered α)} {cut : ℕ} (hfirst : first <:+ upTo log cut)
    (hsecond : second <+: between log cut n) : first ++ second <:+: upTo log (max cut n) := by
  obtain ⟨earlier, hearlier⟩ := hfirst
  obtain ⟨later, hlater⟩ := hsecond.trans (between_prefix_of_le (Nat.le_max_right cut n))
  refine ⟨earlier, later, ?_⟩
  rw [← upTo_append_between (Nat.le_max_left cut n), ← hearlier, ← hlater,
    ← append_assoc, ← append_assoc]

theorem not_infix_of_gap {first second : List (Numbered α)} {n : ℕ}
    {entry : Numbered α} (hentry : entry ∈ upTo log n)
    (hfirst : ∀ earlier ∈ first, earlier.seq < entry.seq)
    (hsecond : ∀ later ∈ second, entry.seq < later.seq)
    (hfirstSome : first ≠ []) (hsecondSome : second ≠ []) : ¬first ++ second <:+: upTo log n := by
  rintro ⟨earlier, later, hlog⟩
  obtain ⟨known, hknown⟩ := exists_mem_of_ne_nil _ hfirstSome
  obtain ⟨other, hother⟩ := exists_mem_of_ne_nil _ hsecondSome
  have hsorted := @upTo_sorted α log n
  rw [← hlog, append_assoc, append_assoc, pairwise_append,
    pairwise_append, pairwise_append] at hsorted
  obtain ⟨_, ⟨_, ⟨_, _, hlater⟩, _⟩, hearlier⟩ := hsorted
  rw [← hlog, append_assoc, append_assoc, mem_append, mem_append, mem_append] at hentry
  rcases hentry with hmem | hmem | hmem | hmem
  · have hle := hearlier entry hmem known (mem_append_left _ hknown)
    have hlt := hfirst known hknown
    omega
  · exact Nat.lt_irrefl _ (hfirst entry hmem)
  · exact Nat.lt_irrefl _ (hsecond entry hmem)
  · have hle := hlater other hother entry hmem
    have hlt := hsecond other hother
    omega

theorem countP_upTo_le (number n : ℕ) :
    (upTo log n).countP (fun entry => entry.seq = number) ≤ (batch log number).length := by
  induction n with
  | zero => exact Nat.zero_le _
  | succ n ih =>
    rw [upTo, countP_append]
    by_cases hnumber : n + 1 = number
    · have hold : (upTo log n).countP (fun entry => entry.seq = number) = 0 := by
        rw [countP_eq_zero]
        intro entry hmem
        have hseq := seq_of_mem_upTo hmem
        rw [decide_eq_true_eq]
        omega
      rw [hold, Nat.zero_add, hnumber]
      exact countP_le_length
    · have hnew : (batch log (n + 1)).countP (fun entry => entry.seq = number) = 0 := by
        rw [countP_eq_zero]
        intro entry hmem
        rw [decide_eq_true_eq, seq_of_mem_batch hmem]
        exact hnumber
      rw [hnew, Nat.add_zero]
      exact ih

theorem not_infix_of_repeated (hentry : entry ∈ first) :
    ¬first ++ batch log entry.seq <:+: upTo log n := by
  intro hpart
  have hbatch : (batch log entry.seq).countP (fun other => other.seq = entry.seq) =
        (batch log entry.seq).length := by
    rw [countP_eq_length]
    intro other hmem
    exact decide_eq_true (seq_of_mem_batch hmem)
  have hfirst : 0 < first.countP (fun other => other.seq = entry.seq) := by
    rw [countP_pos_iff]
    exact ⟨entry, hentry, decide_eq_true rfl⟩
  have hcount := hpart.sublist.countP_le (p := fun other => other.seq = entry.seq)
  have hle := @countP_upTo_le α log entry.seq n
  rw [countP_append, hbatch] at hcount
  omega

end Log

end Sequenced
end Canon
