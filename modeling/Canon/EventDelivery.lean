import Canon.EventRefusalInvariant

/-!
# Delivered events

The events written on a connection are the first ones of its backfill followed by
the accepted events above it.  This file reads off what that means for the log.
-/

namespace Canon
namespace EventStream

open Sequenced List

/-! ## One connection -/

section Delivered

variable {α : Type} {log : ℕ → List α} {snapshots : ℕ} {member : Prop}
  {rest : List (CachedEvent α)} {conn : Connection α}

theorem Connection.Tracked.offered_log (htracked : conn.Tracked log snapshots member rest) :
    ∃ last, conn.history.since ≤ last ∧ last ≤ snapshots ∧ (member → last = snapshots) ∧
      conn.history.offers.map Prod.fst ++ rest = between log conn.history.since last ∧
      ∀ joined, conn.history.joinedAt = some joined →
        conn.history.since ≤ joined ∧ joined ≤ last ∧
          conn.history.before.map Prod.fst = between log conn.history.since joined := by
  obtain ⟨last, hsince, hlast, hmember, hoffered⟩ := htracked.offered
  refine ⟨last, hsince, hlast, hmember, ?_⟩
  unfold History.Offered at hoffered
  cases hjoined : conn.history.joinedAt with
  | none =>
    simp only [hjoined] at hoffered
    refine ⟨?_, by simp⟩
    rw [History.offers, hoffered.2, append_nil]
    exact hoffered.1
  | some =>
    simp only [hjoined] at hoffered
    obtain ⟨hfirst, hle, hbefore, hafter⟩ := hoffered
    refine ⟨?_, ?_⟩
    · rw [History.offers, map_append, append_assoc, hafter, hbefore, between_append hfirst hle]
    · intro other hother
      obtain rfl := Option.some.inj hother
      exact ⟨hfirst, hle, hbefore⟩

theorem Connection.answer_cases (log : ℕ → List α) (conn : Connection α) :
    conn.answer log = [] ∨
      ∃ joined, conn.history.joinedAt = some joined ∧ 0 < conn.resumeFrom ∧
        conn.answer log = between log conn.resumeFrom joined ∧
        between log conn.resumeFrom joined ≠ [] := by
  by_cases hnil : conn.answer log = []
  · exact .inl hnil
  · refine .inr ?_
    have hanswer : conn.answer log ≠ [] := hnil
    unfold Connection.answer at hanswer
    cases hjoined : conn.history.joinedAt with
    | none => simp [hjoined] at hanswer
    | some joined =>
      simp only [hjoined] at hanswer
      by_cases hzero : conn.resumeFrom = 0
      · exact absurd (if_pos hzero) hanswer
      · rw [if_neg hzero] at hanswer
        refine ⟨joined, rfl, Nat.pos_of_ne_zero hzero, ?_, hanswer⟩
        rw [Connection.answer, hjoined]
        exact if_neg hzero

theorem Connection.answer_eq_nil {joined : ℕ} (hjoined : conn.history.joinedAt = some joined)
    (hnothing : conn.resumeFrom = 0 ∨ joined ≤ conn.resumeFrom) : conn.answer log = [] := by
  rw [Connection.answer, hjoined]
  rcases hnothing with hzero | hle
  · exact if_pos hzero
  · simp only [between_of_le hle, ite_self]

theorem Connection.Tracked.delivered_accepted (htracked : conn.Tracked log snapshots member rest) :
    conn.delivered <+: conn.answer log ++
      (acceptedOf conn.history.offers).filter fun event => conn.backfilled log < event.seq := by
  refine htracked.delivers.trans ?_
  rw [Connection.stream, htracked.channel, filter_append, ← append_assoc]
  exact prefix_append _ _

theorem filter_live {events : List (CachedEvent α)} (hanswer : conn.answer log = [])
    (hpositive : ∀ event ∈ events, 0 < event.seq) :
    events.filter (fun event => conn.backfilled log < event.seq) =
      events := by
  rw [filter_eq_self]
  intro event hevent
  rw [Connection.backfilled, hanswer]
  exact decide_eq_true (hpositive event hevent)

theorem filter_backfilled {joined : ℕ} {live : List (CachedEvent α)}
    (hjoined : conn.history.joinedAt = some joined) (hsince : conn.history.since ≤ joined)
    (hanswer : conn.answer log = between log conn.resumeFrom joined)
    (hsome : between log conn.resumeFrom joined ≠ []) (hlive : ∀ event ∈ live, joined < event.seq) :
    (between log conn.history.since joined ++ live).filter
        (fun event => conn.backfilled log < event.seq) = live := by
  have hold := filter_lastSeq hsince (Nat.le_refl joined) hsome
  rw [between_of_le (Nat.le_refl joined)] at hold
  have hnew : live.filter (fun event =>
      conn.backfilled log < event.seq) = live := by
    rw [filter_eq_self]
    intro event hevent
    have hle := @Connection.backfilled_le α log conn joined hjoined
    exact decide_eq_true (Nat.lt_of_le_of_lt hle (hlive event hevent))
  rw [filter_append, hnew, Connection.backfilled, hanswer, hold, nil_append]

end Delivered

/-! ## The backfill and the live events together -/

section Joined

variable {α : Type} {log : ℕ → List α} {snapshots : ℕ} {member : Prop}
  {rest : List (CachedEvent α)} {conn : Connection α} {last : ℕ}

/-- The number after which the log is delivered: the one the client resumes from
if there is a backfill, and otherwise the last frame it came too late for. -/
def Connection.origin (log : ℕ → List α) (conn : Connection α) : ℕ :=
  if conn.answer log = [] then conn.history.since
  else conn.resumeFrom

theorem Connection.answer_append (hjoin : ∀ joined, conn.history.joinedAt = some joined →
      conn.history.since ≤ joined ∧ joined ≤ last) :
    conn.answer log ++ (between log conn.history.since last).filter
          (fun event => conn.backfilled log < event.seq) = between log (conn.origin log) last := by
  rcases conn.answer_cases log with hnil | hbackfill
  · have hpositive : ∀ event ∈ between log conn.history.since last, 0 < event.seq :=
      fun event hevent => Nat.zero_lt_of_lt (seq_of_mem_between hevent).1
    rw [filter_live hnil hpositive, Connection.origin, if_pos hnil, hnil, nil_append]
  · obtain ⟨joined, hjoined, _, hanswer, hsome⟩ := hbackfill
    obtain ⟨hfirst, hle⟩ := hjoin joined hjoined
    have hresume : conn.resumeFrom ≤ joined := by
      by_contra hgt
      exact hsome (between_of_le (Nat.le_of_not_le hgt))
    have hlive : ∀ event ∈ between log joined last, joined < event.seq :=
      fun event hevent => (seq_of_mem_between hevent).1
    rw [Connection.origin, if_neg (hanswer ▸ hsome), ← between_append hfirst hle,
      filter_backfilled hjoined hfirst hanswer hsome hlive, hanswer, between_append hresume hle]

theorem acceptedOf_sublist (offers : List (Offer α)) :
    (acceptedOf offers).Sublist (offers.map Prod.fst) := filter_sublist.map Prod.fst

section

variable (htracked : conn.Tracked log snapshots member rest)
include htracked

theorem Connection.Tracked.delivered_sublist :
    conn.delivered.Sublist (between log (conn.origin log) snapshots) := by
  obtain ⟨last, hsince, hlast, _, hlog, hjoin⟩ := htracked.offered_log
  have haccepted : (acceptedOf conn.history.offers).Sublist
      (between log conn.history.since snapshots) := by
    refine (acceptedOf_sublist _).trans ?_
    rw [← between_append hsince hlast, ← hlog, append_assoc]
    exact sublist_append_left _ _
  refine htracked.delivered_accepted.sublist.trans ?_
  rw [← Connection.answer_append fun joined hjoined =>
    ⟨(hjoin joined hjoined).1, (hjoin joined hjoined).2.1.trans hlast⟩]
  exact (haccepted.filter _).append_left _

theorem Connection.Tracked.delivered_above
    (hanswer : conn.answer log ≠ []) : ∀ event ∈ conn.delivered, conn.resumeFrom < event.seq := by
  intro event hevent
  have hseq := seq_of_mem_between (htracked.delivered_sublist.mem hevent)
  rw [Connection.origin, if_neg hanswer] at hseq
  exact hseq.1

theorem Connection.Tracked.delivered_since (hanswer : conn.answer log = []) :
    ∀ event ∈ conn.delivered, conn.history.since < event.seq := by
  intro event hevent
  have hseq := seq_of_mem_between (htracked.delivered_sublist.mem hevent)
  rw [Connection.origin, if_pos hanswer] at hseq
  exact hseq.1

end

theorem Connection.answer_suffix {events : List (CachedEvent α)}
    (hevents : events <+: between log conn.history.since last)
    (hjoin : ∀ joined, conn.history.joinedAt = some joined →
      conn.history.since ≤ joined ∧ joined ≤ last ∧
        between log conn.history.since joined <+: events) :
    conn.answer log ++ events.filter (fun event => conn.backfilled log < event.seq) <:+
      upTo log conn.history.since ++ events := by
  rcases conn.answer_cases log with hnil | hbackfill
  · have hpositive : ∀ event ∈ events, 0 < event.seq := fun event hevent =>
      Nat.zero_lt_of_lt (seq_of_mem_between (hevents.mem hevent)).1
    rw [filter_live hnil hpositive, hnil]
    exact suffix_append _ _
  · obtain ⟨joined, hjoined, _, hanswer, hsome⟩ := hbackfill
    obtain ⟨hfirst, hle, live, rfl⟩ := hjoin joined hjoined
    have hresume : conn.resumeFrom ≤ joined := by
      by_contra hgt
      exact hsome (between_of_le (Nat.le_of_not_le hgt))
    have hlive : ∀ event ∈ live, joined < event.seq := by
      intro event hevent
      rw [← between_append hfirst hle, prefix_append_right_inj] at hevents
      exact (seq_of_mem_between (hevents.mem hevent)).1
    rw [filter_backfilled hjoined hfirst hanswer hsome hlive, hanswer,
      ← append_assoc, upTo_append_between hfirst,
      ← upTo_append_between hresume, append_assoc]
    exact suffix_append _ _

theorem Connection.Tracked.delivered_between (htracked : conn.Tracked log snapshots member rest)
    (hunbroken : Unbroken conn.history.offers) :
    conn.delivered <+: between log (conn.origin log) snapshots := by
  obtain ⟨last, hsince, hlast, _, hlog, hjoin⟩ := htracked.offered_log
  have haccepted : acceptedOf conn.history.offers <+: between log conn.history.since snapshots := by
    refine hunbroken.accepted_prefix_offered.trans ?_
    rw [← between_append hsince hlast, ← hlog, append_assoc]
    exact prefix_append _ _
  refine htracked.delivered_accepted.trans ?_
  rw [← Connection.answer_append fun joined hjoined =>
    ⟨(hjoin joined hjoined).1, (hjoin joined hjoined).2.1.trans hlast⟩,
    prefix_append_right_inj]
  exact haccepted.filter _

theorem Connection.Tracked.delivered_caughtUp (htracked : conn.Tracked log snapshots member rest)
    (hphase : conn.phase = .looping []) (hqueue : conn.queue = []) :
    conn.delivered = conn.answer log ++
      (acceptedOf conn.history.offers).filter fun event => conn.backfilled log < event.seq := by
  have hstreams := htracked.streams
  rw [Connection.Streams, hphase] at hstreams
  have hdelivered : conn.delivered ++ [] = conn.stream log := hstreams.1
  have hchannel := htracked.channel
  rw [hqueue, liveEvents_nil, append_nil] at hchannel
  rw [append_nil] at hdelivered
  rw [hdelivered, Connection.stream, hchannel]

theorem Connection.Tracked.delivered_liveTail (htracked : conn.Tracked log snapshots member rest)
    (hphase : conn.phase = .looping []) (hqueue : conn.queue = [])
    (hanswer : conn.answer log = []) : conn.delivered = acceptedOf conn.history.offers := by
  obtain ⟨_, _, _, _, hoffered⟩ := htracked.offered
  have hpositive : ∀ event ∈ acceptedOf conn.history.offers, 0 < event.seq :=
    fun event hevent => hoffered.seq_pos (mem_offered_of_mem_accepted hevent)
  rw [htracked.delivered_caughtUp hphase hqueue, filter_live hanswer hpositive, hanswer, nil_append]

theorem Connection.Tracked.delivered_all (htracked : conn.Tracked log snapshots member [])
    (hmember : member) (hphase : conn.phase = .looping []) (hqueue : conn.queue = [])
    (hall : AllEnqueued conn.history.offers) :
    conn.delivered = between log (conn.origin log) snapshots := by
  obtain ⟨last, hsince, _, hcurrent, hlog, hjoin⟩ := htracked.offered_log
  obtain rfl := hcurrent hmember
  rw [append_nil, ← acceptedOf_of_allEnqueued hall] at hlog
  rw [htracked.delivered_caughtUp hphase hqueue, hlog]
  exact Connection.answer_append fun joined hjoined =>
    ⟨(hjoin joined hjoined).1, (hjoin joined hjoined).2.1⟩

end Joined

end EventStream
end Canon
