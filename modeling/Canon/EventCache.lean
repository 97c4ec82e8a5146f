import Canon.SequencedLog

/-!
# The cache of recent events

The event server keeps the newest events in a bounded buffer.  A subscriber who
resumes after a number is answered from it.  The cache remembers the number of the
event it evicted last, so that it notices when the oldest batch it holds is
incomplete.

Numbers are natural numbers here.  In the program they are 64-bit words that
count the frames of a file, each of at least twenty bytes, so they do not reach
the word's bound.
-/

namespace Canon
namespace EventStream

open Sequenced List

abbrev CachedEvent (α : Type) := Numbered α

inductive RangeOutcome (α : Type) where
  | inWindow (events : List (CachedEvent α))
  | outOfWindow (oldestAvailableSeq : ℕ)
  | atLiveTail
  deriving DecidableEq

structure EventCache (α : Type) where
  buffer : List (CachedEvent α)
  capacity : ℕ
  lastPushedSeq : ℕ
  lastEvictedSeq : Option ℕ
  capacity_pos : 0 < capacity
  length_le : buffer.length ≤ capacity

inductive PushError where
  | outOfOrder (tried previous : ℕ)
  deriving DecidableEq

section Cache

variable {α : Type} {cache : EventCache α} {pushed : List (CachedEvent α)}

def hardMaxKeepHistory : ℕ := 1000000

def EventCache.new (capacity : ℕ) (hcapacity : 0 < capacity) : EventCache α where
  buffer := []
  capacity := min capacity hardMaxKeepHistory
  lastPushedSeq := 0
  lastEvictedSeq := none
  capacity_pos := Nat.lt_min.mpr ⟨hcapacity, by decide⟩
  length_le := Nat.zero_le _

def EventCache.append (cache : EventCache α) (event : CachedEvent α)
    (hroom : cache.buffer.length ≠ cache.capacity) : EventCache α where
  buffer := cache.buffer ++ [event]
  capacity := cache.capacity
  lastPushedSeq := event.seq
  lastEvictedSeq := cache.lastEvictedSeq
  capacity_pos := cache.capacity_pos
  length_le := by
    have hlength := cache.length_le
    rw [length_append, length_singleton]
    omega

def EventCache.rotate (cache : EventCache α) (event : CachedEvent α) : EventCache α where
  buffer := cache.buffer.tail ++ [event]
  capacity := cache.capacity
  lastPushedSeq := event.seq
  lastEvictedSeq := (cache.buffer.head?.map Numbered.seq).or cache.lastEvictedSeq
  capacity_pos := cache.capacity_pos
  length_le := by
    have hlength := cache.length_le
    have hcapacity := cache.capacity_pos
    rw [length_append, length_tail, length_singleton]
    omega

def EventCache.push (cache : EventCache α) (event : CachedEvent α) :
    Except PushError (EventCache α) :=
  if event.seq = 0 ∨ event.seq < cache.lastPushedSeq then
    .error (.outOfOrder event.seq cache.lastPushedSeq)
  else if hroom : cache.buffer.length ≠ cache.capacity then
    .ok (cache.append event hroom)
  else .ok (cache.rotate event)

def EventCache.pushAll (cache : EventCache α) :
    List (CachedEvent α) → EventCache α × Option PushError
  | [] => (cache, none)
  | event :: rest =>
    match cache.push event with
    | .error error => (cache, some error)
    | .ok next => next.pushAll rest

def EventCache.hasPartialFront (cache : EventCache α) : Bool :=
  match cache.lastEvictedSeq, cache.buffer.head? with
  | some evicted, some front => evicted = front.seq
  | _, _ => false

def EventCache.range (cache : EventCache α) (fromSeq : ℕ) : RangeOutcome α :=
  match cache.buffer.head?, cache.buffer.getLast? with
  | some oldest, some newest =>
    if fromSeq = 0 then .atLiveTail
    else if newest.seq ≤ fromSeq then .atLiveTail
    else if fromSeq + 1 < oldest.seq then .outOfWindow oldest.seq
    else if cache.hasPartialFront ∧ fromSeq < oldest.seq then
      .outOfWindow (oldest.seq + 1)
    else .inWindow (cache.buffer.filter fun event => fromSeq < event.seq)
  | _, _ => .atLiveTail

/-! ## What the cache holds of the pushed events -/

structure EventCache.Holds (cache : EventCache α) (pushed : List (CachedEvent α)) : Prop where
  split : ∃ evicted, evicted ++ cache.buffer = pushed ∧
    cache.lastEvictedSeq = evicted.getLast?.map Numbered.seq
  lastPushed : cache.lastPushedSeq = lastSeq pushed
  nonempty : cache.buffer = [] → pushed = []

theorem EventCache.new_holds (capacity : ℕ) (hcapacity : 0 < capacity) :
    (EventCache.new capacity hcapacity : EventCache α).Holds [] :=
  ⟨⟨[], rfl, rfl⟩, rfl, fun _ => rfl⟩

theorem EventCache.Holds.push {event : CachedEvent α} (hholds : cache.Holds pushed)
    (hpositive : 0 < event.seq) (horder : lastSeq pushed ≤ event.seq) :
    ∃ next, cache.push event = .ok next ∧ next.Holds (pushed ++ [event]) := by
  obtain ⟨⟨evicted, hsplit, hevicted⟩, hlast, _⟩ := hholds
  have haccepted : ¬(event.seq = 0 ∨ event.seq < cache.lastPushedSeq) := by
    omega
  by_cases hroom : cache.buffer.length ≠ cache.capacity
  · refine ⟨cache.append event hroom, ?_, ⟨evicted, ?_, hevicted⟩, (lastSeq_snoc _ _).symm, ?_⟩
    · rw [EventCache.push, if_neg haccepted, dif_pos hroom]
    · rw [EventCache.append, ← append_assoc, hsplit]
    · intro hempty
      cases append_ne_nil_of_right_ne_nil _ (cons_ne_nil _ _) hempty
  · obtain ⟨oldest, rest, hbuffer⟩ : ∃ oldest rest, cache.buffer = oldest :: rest := by
      apply exists_cons_of_length_pos
      have hcapacity := cache.capacity_pos
      omega
    refine ⟨cache.rotate event, ?_, ⟨evicted ++ [oldest], ?_, ?_⟩, (lastSeq_snoc _ _).symm, ?_⟩
    · rw [EventCache.push, if_neg haccepted, dif_neg hroom]
    · change evicted ++ [oldest] ++ (cache.buffer.tail ++ [event]) = pushed ++ [event]
      rw [← hsplit, hbuffer]
      simp
    · change (cache.buffer.head?.map Numbered.seq).or cache.lastEvictedSeq =
        (evicted ++ [oldest]).getLast?.map Numbered.seq
      rw [hbuffer, List.getLast?_concat]
      rfl
    · intro hempty
      cases append_ne_nil_of_right_ne_nil _ (cons_ne_nil _ _) hempty

theorem EventCache.Holds.pushAll_sorted {events : List (CachedEvent α)}
    (hholds : cache.Holds pushed) (hpositive : ∀ event ∈ events, 0 < event.seq)
    (hsorted : (pushed ++ events).Pairwise fun event later => event.seq ≤ later.seq) :
    ∃ next, cache.pushAll events = (next, none) ∧ next.Holds (pushed ++ events) := by
  induction events generalizing cache pushed with
  | nil => exact ⟨cache, rfl, by rwa [append_nil]⟩
  | cons event _ ih =>
    have horder : lastSeq pushed ≤ event.seq := by
      by_cases hnone : pushed = []
      · rw [hnone]
        exact Nat.zero_le _
      · obtain ⟨last, hlast, hseq⟩ := exists_mem_lastSeq hnone
        rw [← hseq]
        exact (pairwise_append.mp hsorted).2.2 last hlast event mem_cons_self
    obtain ⟨next, hpush, hnext⟩ := hholds.push (hpositive event mem_cons_self) horder
    rw [append_cons] at hsorted ⊢
    obtain ⟨final, hrest, hfinal⟩ := ih hnext
      (fun later hlater => hpositive later (mem_cons_of_mem _ hlater)) hsorted
    exact ⟨final, by rw [EventCache.pushAll, hpush]; exact hrest, hfinal⟩

theorem EventCache.Holds.pushAll {log : ℕ → List α} {n : ℕ} (hholds : cache.Holds (upTo log n)) :
    ∃ next, cache.pushAll (batch log (n + 1)) = (next, none) ∧ next.Holds (upTo log (n + 1)) := by
  apply hholds.pushAll_sorted
  · intro event hmem
    rw [seq_of_mem_batch hmem]
    exact Nat.succ_pos n
  · exact upTo_sorted (n + 1)

end Cache

section Range

variable {α : Type} {cache : EventCache α} {pushed : List (CachedEvent α)} {fromSeq : ℕ}
  {oldest newest : CachedEvent α} {evicted events : List (CachedEvent α)}

theorem EventCache.range_zero : cache.range 0 = .atLiveTail := by
  unfold EventCache.range
  split
  · rw [if_pos rfl]
  · rfl

theorem EventCache.range_eq (holdest : cache.buffer.head? = some oldest)
    (hnewest : cache.buffer.getLast? = some newest) (hfrom : 0 < fromSeq) :
    cache.range fromSeq =
      if newest.seq ≤ fromSeq then .atLiveTail
      else if fromSeq + 1 < oldest.seq then .outOfWindow oldest.seq
      else if cache.hasPartialFront ∧ fromSeq < oldest.seq then .outOfWindow (oldest.seq + 1)
      else .inWindow (cache.buffer.filter fun event => fromSeq < event.seq) := by
  rw [EventCache.range, holdest, hnewest]
  exact if_neg hfrom.ne'

theorem EventCache.range_nil (hempty : cache.buffer = []) : cache.range fromSeq = .atLiveTail := by
  rw [EventCache.range, hempty]
  rfl

structure EventCache.Ends (cache : EventCache α) (evicted : List (CachedEvent α))
    (oldest newest : CachedEvent α) : Prop where
  head : cache.buffer.head? = some oldest
  last : cache.buffer.getLast? = some newest
  evicted_le : ∀ event ∈ evicted, event.seq ≤ oldest.seq
  oldest_le : ∀ event ∈ cache.buffer, oldest.seq ≤ event.seq
  le_newest : ∀ event ∈ cache.buffer, event.seq ≤ newest.seq
  partialFront : cache.hasPartialFront = true ↔ ∃ gone ∈ evicted, gone.seq = oldest.seq

theorem EventCache.Holds.exists_ends (hholds : cache.Holds pushed)
    (hsorted : pushed.Pairwise fun event later => event.seq ≤ later.seq) (hsome : pushed ≠ [])
    (hsplit : evicted ++ cache.buffer = pushed) :
    ∃ oldest newest, cache.Ends evicted oldest newest := by
  obtain ⟨recorded, hrecorded, hlast⟩ := hholds.split
  rw [← hsplit] at hsorted
  rw [append_cancel_right (hrecorded.trans hsplit.symm)] at hlast
  have hbuffer : cache.buffer ≠ [] := fun hnil => hsome (hholds.nonempty hnil)
  obtain ⟨oldest, rest, hcons⟩ := exists_cons_of_ne_nil hbuffer
  obtain ⟨kept, newest, hconcat⟩ := (eq_nil_or_concat cache.buffer).resolve_left hbuffer
  rw [concat_eq_append] at hconcat
  obtain ⟨hgone, hheld, hcross⟩ := pairwise_append.mp hsorted
  have hfront : oldest ∈ cache.buffer := by simp [hcons]
  have hhead : cache.buffer.head? = some oldest := by simp [hcons]
  refine ⟨oldest, newest, hhead, by simp [hconcat],
    fun event hmem => hcross event hmem oldest hfront, ?_, ?_, ?_⟩
  · intro event hmem
    rw [hcons] at hheld hmem
    rcases mem_cons.mp hmem with rfl | hrest
    · exact Nat.le_refl _
    · exact (pairwise_cons.mp hheld).1 event hrest
  · intro event hmem
    rw [hconcat] at hheld hmem
    rcases mem_append.mp hmem with hkept | hself
    · exact (pairwise_append.mp hheld).2.2 event hkept newest (mem_singleton_self _)
    · rw [mem_singleton.mp hself]
  · rw [EventCache.hasPartialFront, hlast, hhead]
    rcases eq_nil_or_concat evicted with rfl | ⟨earlier, last, rfl⟩
    · simp
    · rw [concat_eq_append] at hgone hcross ⊢
      simp only [List.getLast?_concat, Option.map_some, decide_eq_true_eq]
      constructor
      · exact fun hsame => ⟨last, by simp, hsame⟩
      · rintro ⟨gone, hmem, hsame⟩
        have hle := hcross last (by simp) oldest hfront
        rcases mem_append.mp hmem with hold | hself
        · have hlater := (pairwise_append.mp hgone).2.2 gone hold last (by simp)
          omega
        · rwa [← mem_singleton.mp hself]

section Sorted

variable (hholds : cache.Holds pushed)
  (hsorted : pushed.Pairwise fun event later => event.seq ≤ later.seq)
include hholds hsorted

theorem EventCache.Holds.inWindow (hrange : cache.range fromSeq = .inWindow events) :
    0 < fromSeq ∧ events = pushed.filter fun event => fromSeq < event.seq := by
  obtain ⟨evicted, hsplit, _⟩ := hholds.split
  by_cases hsome : pushed = []
  · rw [EventCache.range_nil (append_eq_nil_iff.mp (hsplit.trans hsome)).2] at hrange
    cases hrange
  · rcases Nat.eq_zero_or_pos fromSeq with rfl | hfrom
    · rw [EventCache.range_zero] at hrange
      cases hrange
    · obtain ⟨oldest, newest, hends⟩ := hholds.exists_ends hsorted hsome hsplit
      rw [EventCache.range_eq hends.head hends.last hfrom] at hrange
      split_ifs at hrange with _ _ hfront
      have hnone : evicted.filter (fun event => fromSeq < event.seq) = [] := by
        rw [filter_eq_nil_iff]
        intro event hmem habove
        rw [decide_eq_true_eq] at habove
        have hle := hends.evicted_le event hmem
        exact hfront ⟨hends.partialFront.mpr ⟨event, hmem, by omega⟩, by omega⟩
      refine ⟨hfrom, ?_⟩
      rw [← RangeOutcome.inWindow.inj hrange, ← hsplit, filter_append, hnone, nil_append]

theorem EventCache.Holds.atLiveTail (hfrom : 0 < fromSeq)
    (hrange : cache.range fromSeq = .atLiveTail) :
    (pushed.filter fun event => fromSeq < event.seq) = [] := by
  by_cases hsome : pushed = []
  · rw [hsome]
    rfl
  · obtain ⟨evicted, hsplit, _⟩ := hholds.split
    obtain ⟨oldest, newest, hends⟩ := hholds.exists_ends hsorted hsome hsplit
    rw [EventCache.range_eq hends.head hends.last hfrom] at hrange
    split_ifs at hrange with hnew
    rw [filter_eq_nil_iff, ← hsplit]
    intro event hmem habove
    rw [decide_eq_true_eq] at habove
    rcases mem_append.mp hmem with hgone | hheld
    · have hold := hends.evicted_le event hgone
      have hfront := hends.le_newest oldest (mem_of_mem_head? hends.head)
      omega
    · have hle := hends.le_newest event hheld
      omega

theorem EventCache.Holds.range_kept (hsplit : evicted ++ cache.buffer = pushed)
    (hfrom : 0 < fromSeq) (hnewer : (pushed.filter fun event => fromSeq < event.seq) ≠ [])
    (hseen : ∀ event ∈ evicted, event.seq ≤ fromSeq)
    (hoffset : ∀ oldest ∈ cache.buffer.head?, oldest.seq ≤ fromSeq + 1) :
    cache.range fromSeq = .inWindow (pushed.filter fun event => fromSeq < event.seq) := by
  have hsome : pushed ≠ [] := by
    rintro rfl
    exact hnewer rfl
  obtain ⟨oldest, newest, hends⟩ := hholds.exists_ends hsorted hsome hsplit
  have hlimit := hoffset oldest hends.head
  cases hrange : cache.range fromSeq with
  | atLiveTail => exact absurd (hholds.atLiveTail hsorted hfrom hrange) hnewer
  | inWindow => rw [(hholds.inWindow hsorted hrange).2]
  | outOfWindow =>
    -- Neither of the two tests for a missing event can have succeeded.
    exfalso
    rw [EventCache.range_eq hends.head hends.last hfrom] at hrange
    split_ifs at hrange with _ _ hfront
    · omega
    · obtain ⟨gone, hmem, hsame⟩ := hends.partialFront.mp hfront.1
      have hle := hseen gone hmem
      omega

end Sorted

theorem EventCache.Holds.range_of_le (hholds : cache.Holds pushed)
    (hle : ∀ event ∈ pushed, event.seq ≤ fromSeq) : cache.range fromSeq = .atLiveTail := by
  unfold EventCache.range
  split
  · rename_i oldest newest _ hnewest
    obtain ⟨evicted, hsplit, _⟩ := hholds.split
    have hmem : newest ∈ pushed := by
      rw [← hsplit]
      exact mem_append_right _ (mem_of_getLast? hnewest)
    by_cases hzero : fromSeq = 0
    · rw [if_pos hzero]
    · rw [if_neg hzero, if_pos (hle newest hmem)]
  · rfl

theorem EventCache.Holds.range_newest (hholds : cache.Holds (pushed ++ [newest]))
    (hsorted : (pushed ++ [newest]).Pairwise fun event later => event.seq ≤ later.seq)
    (hle : ∀ event ∈ pushed, event.seq ≤ fromSeq) (hfrom : 0 < fromSeq)
    (hnext : newest.seq = fromSeq + 1) : cache.range fromSeq = .inWindow [newest] := by
  obtain ⟨evicted, hsplit, _⟩ := hholds.split
  have hfilter : (pushed ++ [newest]).filter (fun event => fromSeq < event.seq) = [newest] := by
    have hnone : pushed.filter (fun event => fromSeq < event.seq) = [] := by
      simpa using hle
    simp [hnone, hnext]
  obtain ⟨oldest, last, hends⟩ := hholds.exists_ends hsorted (by simp) hsplit
  obtain ⟨kept, hkept⟩ := List.getLast?_eq_some_iff.mp hends.last
  have hold : evicted ++ kept = pushed := by
    rw [hkept, ← append_assoc] at hsplit
    exact (append_singleton_inj.mp hsplit).1
  rw [← hfilter]
  refine hholds.range_kept hsorted hsplit hfrom (by simp [hfilter]) ?_ ?_
  · intro event hmem
    exact hle event (hold ▸ mem_append_left _ hmem)
  · intro front hfront
    have hmem : front ∈ pushed ++ [newest] :=
      hsplit ▸ mem_append_right _ (mem_of_mem_head? hfront)
    rcases mem_append.mp hmem with hfirst | hself
    · exact (hle front hfirst).trans (Nat.le_succ _)
    · rw [mem_singleton.mp hself, hnext]

/-! ## Ranges over everything pushed -/

structure Gapless (pushed : List (CachedEvent α)) : Prop where
  first : ∀ event ∈ pushed.head?, event.seq = 1
  next : pushed.IsChain fun event later =>
    event.seq ≤ later.seq ∧ later.seq ≤ event.seq + 1

theorem Gapless.sorted (hgapless : Gapless pushed) :
    pushed.Pairwise fun event later => event.seq ≤ later.seq := by
  have hchain : pushed.IsChain fun event later => event.seq ≤ later.seq :=
    hgapless.next.imp fun _ _ hnext => hnext.1
  exact isChain_iff_pairwise.mp hchain

theorem Gapless.positive (hgapless : Gapless pushed) : ∀ event ∈ pushed, 0 < event.seq := by
  cases pushed with
  | nil =>
    intro event hmem
    cases hmem
  | cons oldest =>
    have hone : oldest.seq = 1 := hgapless.first oldest rfl
    have hle := (pairwise_cons.mp hgapless.sorted).1
    intro event hmem
    rcases mem_cons.mp hmem with hself | hrest
    · rw [hself, hone]
      exact Nat.one_pos
    · have hlater := hle event hrest
      omega

theorem Gapless.oldest_le {kept : List (CachedEvent α)}
    (hgapless : Gapless (evicted ++ oldest :: kept)) : oldest.seq ≤ lastSeq evicted + 1 := by
  rcases eq_nil_or_concat evicted with hnone | ⟨earlier, last, hsplit⟩
  · subst hnone
    exact (hgapless.first oldest rfl).le
  · rw [concat_eq_append] at hsplit
    subst hsplit
    rw [lastSeq_snoc]
    exact ((isChain_append.mp hgapless.next).2.2 last (by simp) oldest (by simp)).2

def newerThan (fromSeq : ℕ) (events : List (CachedEvent α)) : List (CachedEvent α) :=
  events.filter fun event => fromSeq < event.seq

theorem newerThan_eq_nil :
    newerThan fromSeq events = [] ↔ ∀ event ∈ events, event.seq ≤ fromSeq := by
  simp [newerThan]

theorem newerThan_ne_nil :
    newerThan fromSeq events ≠ [] ↔ ∃ event ∈ events, fromSeq < event.seq := by
  simp [newerThan]

theorem EventCache.Holds.range_of_lt (hholds : cache.Holds pushed) (hgapless : Gapless pushed)
    (hfrom : 0 < fromSeq) (hsplit : evicted ++ cache.buffer = pushed)
    (hnewer : newerThan fromSeq pushed ≠ []) :
    (newerThan fromSeq evicted = [] → cache.range fromSeq = .inWindow (newerThan fromSeq pushed)) ∧
    (newerThan fromSeq evicted ≠ [] →
      ∃ oldestAvailableSeq, cache.range fromSeq = .outOfWindow oldestAvailableSeq) := by
  have hsome : pushed ≠ [] := by
    rintro rfl
    exact hnewer rfl
  obtain ⟨oldest, newest, hends⟩ := hholds.exists_ends hgapless.sorted hsome hsplit
  constructor
  · intro hnone
    have hseen := newerThan_eq_nil.mp hnone
    refine hholds.range_kept hgapless.sorted hsplit hfrom hnewer hseen ?_
    intro front hfront
    obtain ⟨kept, hbuffer⟩ := List.head?_eq_some_iff.mp hfront
    rw [← hsplit, hbuffer] at hgapless
    have hle := hgapless.oldest_le
    have hlast : lastSeq evicted ≤ fromSeq := by
      by_cases hnil : evicted = []
      · rw [hnil]
        exact Nat.zero_le _
      · obtain ⟨last, hlast, hseq⟩ := exists_mem_lastSeq hnil
        rw [← hseq]
        exact hseen last hlast
    omega
  · intro hsomeLost
    obtain ⟨event, hevent, habove⟩ := newerThan_ne_nil.mp hsomeLost
    cases hrange : cache.range fromSeq with
    | atLiveTail => exact absurd (hholds.atLiveTail hgapless.sorted hfrom hrange) hnewer
    | outOfWindow available => exact ⟨available, rfl⟩
    | inWindow =>
      exfalso
      have hle := hends.evicted_le event hevent
      rw [EventCache.range_eq hends.head hends.last hfrom] at hrange
      split_ifs at hrange with _ hold hfront
      exact hfront ⟨hends.partialFront.mpr ⟨event, hevent, by omega⟩, by omega⟩

/-- After any pushes whose numbers start at one, never decrease and skip none,
the three answers say whether there are events above the number and whether one
of them is lost. -/
theorem range_of_pushes (capacity : ℕ) (hcapacity : 0 < capacity)
    {pushed : List (CachedEvent α)} (hgapless : Gapless pushed)
    {fromSeq : ℕ} (hfrom : 0 < fromSeq) :
    ∃ cache evicted, (EventCache.new capacity hcapacity).pushAll pushed = (cache, none) ∧
      evicted ++ cache.buffer = pushed ∧
      (cache.range fromSeq = .inWindow (newerThan fromSeq pushed) ↔
        newerThan fromSeq pushed ≠ [] ∧ newerThan fromSeq evicted = []) ∧
      (∀ events, cache.range fromSeq = .inWindow events → events = newerThan fromSeq pushed) ∧
      ((∃ oldestAvailableSeq, cache.range fromSeq = .outOfWindow oldestAvailableSeq) ↔
        newerThan fromSeq pushed ≠ [] ∧ newerThan fromSeq evicted ≠ []) ∧
      (cache.range fromSeq = .atLiveTail ↔ newerThan fromSeq pushed = []) := by
  obtain ⟨cache, hpushAll, hholds⟩ := (EventCache.new_holds capacity hcapacity).pushAll_sorted
      hgapless.positive hgapless.sorted
  obtain ⟨evicted, hsplit, _⟩ := hholds.split
  refine ⟨cache, evicted, hpushAll, hsplit, ?_⟩
  by_cases hnewer : newerThan fromSeq pushed = []
  · have htail := hholds.range_of_le (newerThan_eq_nil.mp hnewer)
    simp [htail, hnewer]
  · obtain ⟨hkept, hlost⟩ := hholds.range_of_lt hgapless hfrom hsplit hnewer
    by_cases hevicted : newerThan fromSeq evicted = []
    · simp [hnewer, hevicted, hkept hevicted]
    · obtain ⟨available, hrange⟩ := hlost hevicted
      simp [hnewer, hevicted, hrange]

def twoFrames : List (CachedEvent ℕ) := [⟨1, 10⟩, ⟨2, 20⟩, ⟨2, 21⟩]

theorem gapless_twoFrames : Gapless twoFrames := by
  refine ⟨?_, ?_⟩
  · intro event hfirst
    cases hfirst
    rfl
  · simp [twoFrames]

theorem range_of_pushes_twoFrames :
    ∃ cache : EventCache ℕ, (EventCache.new 2 Nat.two_pos).pushAll twoFrames = (cache, none) ∧
      cache.range 1 = .inWindow [⟨2, 20⟩, ⟨2, 21⟩] ∧ cache.range 2 = .atLiveTail := by
  obtain ⟨cache, evicted, hpushAll, hsplit, hinWindow, _⟩ :=
    range_of_pushes 2 Nat.two_pos gapless_twoFrames Nat.one_pos
  have hcache : cache = ((EventCache.new 2 Nat.two_pos).pushAll twoFrames).1 := by rw [hpushAll]
  rw [hcache] at hsplit
  have hevicted : evicted = [⟨1, 10⟩] := append_cancel_right
    (hsplit.trans (show twoFrames = [⟨1, 10⟩] ++ [⟨2, 20⟩, ⟨2, 21⟩] from rfl))
  refine ⟨cache, hpushAll, hinWindow.mpr ⟨by decide, ?_⟩, ?_⟩
  · rw [hevicted]
    decide
  · rw [hcache]
    rfl

/-! ## The advertised resume point -/

/-- The numbers with which a client can resume. -/
def EventCache.resumable (cache : EventCache α) : Set ℕ :=
  { r | 0 < r ∧ ∀ available, cache.range r ≠ .outOfWindow available }

theorem EventCache.Ends.mem_resumable (hends : cache.Ends evicted oldest newest) {r : ℕ} :
    r ∈ cache.resumable ↔ 0 < r ∧ (oldest.seq ≤ r ∨
      oldest.seq ≤ r + 1 ∧ ∀ gone ∈ evicted, gone.seq ≠ oldest.seq) := by
  refine and_congr_right fun hr => ?_
  have hfront := hends.le_newest oldest (mem_of_mem_head? hends.head)
  have hfront := hends.partialFront
  simp only [EventCache.range_eq hends.head hends.last hr, ne_eq]
  by_cases hsame : ∃ gone ∈ evicted, gone.seq = oldest.seq
  · have hnone : ¬∀ gone ∈ evicted, ¬gone.seq = oldest.seq := by simpa using hsame
    simp only [hfront.mpr hsame, hnone, true_and, and_false, or_false]
    split_ifs <;> simp <;> omega
  · have hnone : ∀ gone ∈ evicted, ¬gone.seq = oldest.seq := by simpa using hsame
    simp only [mt hfront.mp hsame, iff_true_intro hnone, Bool.false_eq_true, false_and,
      if_false, and_true]
    split_ifs <;> simp <;> omega

/-- The number which the cache reports to a client that has fallen behind is the least
one to resume with, and skips no batch which is held whole, exactly when the oldest batch
held is incomplete and the client has not even seen the one before it. -/
theorem resume_point_iff {capacity : ℕ} (hcapacity : 0 < capacity) (hgapless : Gapless pushed)
    {evicted : List (CachedEvent α)} {oldest : CachedEvent α} {resume : ℕ}
    (hpushes : (EventCache.new capacity hcapacity).pushAll pushed = (cache, none))
    (hsplit : evicted ++ cache.buffer = pushed) (hhead : cache.buffer.head? = some oldest)
    (hrange : cache.range fromSeq = .outOfWindow resume) :
    IsLeast cache.resumable resume ∧
        (∀ event ∈ cache.buffer, (∀ gone ∈ evicted, gone.seq ≠ event.seq) → resume < event.seq) ↔
      (∃ gone ∈ evicted, gone.seq = oldest.seq) ∧ fromSeq + 1 < oldest.seq := by
  obtain ⟨found, hfound, hholds⟩ := (EventCache.new_holds capacity hcapacity).pushAll_sorted
    hgapless.positive hgapless.sorted
  have hsame : found = cache := congrArg Prod.fst (hfound.symm.trans hpushes)
  rw [nil_append, hsame] at hholds
  have hsome : pushed ≠ [] := by
    rintro rfl
    rw [(append_eq_nil_iff.mp hsplit).2] at hhead
    cases hhead
  obtain ⟨front, newest, hends⟩ := hholds.exists_ends hgapless.sorted hsome hsplit
  obtain rfl : front = oldest := Option.some.inj (hends.head.symm.trans hhead)
  have hfrom : 0 < fromSeq := by
    rcases Nat.eq_zero_or_pos fromSeq with rfl | hfrom
    · rw [EventCache.range_zero] at hrange
      cases hrange
    · exact hfrom
  rw [EventCache.range_eq hhead hends.last hfrom] at hrange
  constructor
  · rintro ⟨⟨_, hleast⟩, _⟩
    split_ifs at hrange with _ hfar hfront
    · have hresume := RangeOutcome.outOfWindow.inj hrange
      refine ⟨?_, hfar⟩
      by_contra hnone
      push Not at hnone
      have hle := hleast (hends.mem_resumable.mpr
        (⟨by omega, .inr ⟨by omega, hnone⟩⟩ : 0 < front.seq - 1 ∧ _))
      omega
    · have hresume := RangeOutcome.outOfWindow.inj hrange
      have hle := hleast (hends.mem_resumable.mpr
        (⟨by omega, .inl (Nat.le_refl _)⟩ : 0 < front.seq ∧ _))
      omega
  · rintro ⟨⟨gone, hgone, hseq⟩, hfar⟩
    split_ifs at hrange
    have hresume := RangeOutcome.outOfWindow.inj hrange
    rw [← hresume]
    refine ⟨⟨hends.mem_resumable.mpr ⟨by omega, .inl (Nat.le_refl _)⟩, ?_⟩, ?_⟩
    · intro r hr
      rcases (hends.mem_resumable.mp hr).2 with hle | ⟨_, hwhole⟩
      · exact hle
      · exact absurd hseq (hwhole gone hgone)
    · intro event hmem hwhole
      exact Nat.lt_of_le_of_ne (hends.oldest_le event hmem) (hseq ▸ hwhole gone hgone)

/-- Three frames, the last with three events, in a cache for two: the report is right. -/
def threeFrames : List (CachedEvent ℕ) := [⟨1, 10⟩, ⟨2, 20⟩, ⟨3, 30⟩, ⟨3, 31⟩, ⟨3, 32⟩]

theorem resume_point_threeFrames :
    ∃ cache : EventCache ℕ, (EventCache.new 2 Nat.two_pos).pushAll threeFrames = (cache, none) ∧
      cache.range 1 = .outOfWindow 3 ∧ IsLeast cache.resumable 3 := by
  have hgapless : Gapless threeFrames := by
    refine ⟨?_, by simp [threeFrames]⟩
    intro event hfirst
    cases hfirst
    rfl
  refine ⟨_, rfl, rfl, ((@resume_point_iff ℕ _ threeFrames 1 2 Nat.two_pos hgapless
    [⟨1, 10⟩, ⟨2, 20⟩, ⟨3, 30⟩] ⟨3, 31⟩ 3 rfl rfl rfl rfl).mpr ?_).1⟩
  exact ⟨⟨⟨3, 30⟩, by simp, rfl⟩, by decide⟩

/-- Four frames of one event each: the client is told to resume with 3, but could resume
with 2, and loses the third frame. -/
theorem resume_point_skips_batch :
    ∃ cache : EventCache ℕ,
      (EventCache.new 2 Nat.two_pos).pushAll [⟨1, 10⟩, ⟨2, 20⟩, ⟨3, 30⟩, ⟨4, 40⟩] =
        (cache, none) ∧
      cache.range 1 = .outOfWindow 3 ∧ cache.range 2 = .inWindow [⟨3, 30⟩, ⟨4, 40⟩] ∧
      cache.range 3 = .inWindow [⟨4, 40⟩] :=
  ⟨_, rfl, rfl, rfl, rfl⟩

end Range

end EventStream
end Canon
