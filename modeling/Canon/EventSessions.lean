import Canon.EventProgress

/-!
# Sessions

What a client wants from a session is the part of the log after the number it
resumes from.  It gets this part, apart from copies of events it has seen: a
session without an answer from the cache starts with the first frame whose snapshot
holds the connection, and that frame may be an old one.
-/

namespace Canon
namespace EventStream

open Sequenced

/-! ## One connection -/

section Resumed

variable {α : Type} {log : ℕ → List α} {snapshots : ℕ} {member : Prop}
  {rest : List (CachedEvent α)} {conn : Connection α}

theorem Connection.Tracked.delivered_unserved (htracked : conn.Tracked log snapshots member rest)
    (hnone : conn.history.joinedAt = none) : conn.delivered = [] := by
  have hanswer : conn.answer log = [] := by
    rw [Connection.answer, hnone]
  have hdelivers := htracked.delivers
  rw [Connection.stream, hanswer, htracked.unserved hnone] at hdelivers
  exact List.prefix_nil.mp hdelivers

theorem Connection.between_since {joined : ℕ} (hjoined : conn.history.joinedAt = some joined)
    (hsince : conn.history.since ≤ joined) (hanswer : conn.answer log = [])
    (hstart : conn.resumeFrom = 0 → upTo log conn.history.since = []) :
    between log conn.resumeFrom conn.history.since = [] := by
  by_cases hzero : conn.resumeFrom = 0
  · rw [hzero, between_zero]
    exact hstart hzero
  · rw [Connection.answer, hjoined] at hanswer
    simp only [if_neg hzero] at hanswer
    rcases Nat.le_total conn.resumeFrom conn.history.since with
      hle | hge
    · rw [← between_append hle hsince, List.append_eq_nil_iff] at hanswer
      exact hanswer.1
    · exact between_of_le hge

section

variable (htracked : conn.Tracked log snapshots member rest)
include htracked

theorem Connection.Tracked.filter_origin {joined : ℕ}
    (hjoined : conn.history.joinedAt = some joined)
    (hstart : conn.resumeFrom = 0 → upTo log conn.history.since = []) :
    (between log (conn.origin log) snapshots).filter (fun event => conn.resumeFrom < event.seq) =
      between log conn.resumeFrom snapshots := by
  obtain ⟨last, hsince, hlast, _, _, hjoin⟩ := htracked.offered_log
  rw [filter_between]
  by_cases hanswer : conn.answer log = []
  · rw [Connection.origin, if_pos hanswer]
    rcases Nat.le_total conn.history.since conn.resumeFrom with
      hle | hge
    · rw [Nat.max_eq_right hle]
    · have hgap := Connection.between_since hjoined (hjoin joined hjoined).1 hanswer hstart
      rw [Nat.max_eq_left hge, ← between_append hge (hsince.trans hlast), hgap, List.nil_append]
  · rw [Connection.origin, if_neg hanswer, Nat.max_self]

theorem Connection.Tracked.delivered_resumed (hunbroken : Unbroken conn.history.offers)
    (hstart : conn.resumeFrom = 0 → upTo log conn.history.since = []) :
    conn.delivered.filter (fun event => conn.resumeFrom < event.seq) <+:
      between log conn.resumeFrom snapshots := by
  cases hjoined : conn.history.joinedAt with
  | none =>
    rw [htracked.delivered_unserved hjoined]
    exact List.nil_prefix
  | some =>
    rw [← htracked.filter_origin hjoined hstart]
    exact (htracked.delivered_between hunbroken).filter _

theorem Connection.Tracked.delivered_forward
    (hforward : conn.answer log ≠ [] ∨ conn.resumeFrom ≤ conn.history.since) :
    ∀ event ∈ conn.delivered, conn.resumeFrom < event.seq := by
  intro event hevent
  by_cases hanswer : conn.answer log = []
  · have hseq := htracked.delivered_since hanswer event hevent
    have hle := hforward.resolve_left fun hsome => hsome hanswer
    omega
  · exact htracked.delivered_above hanswer event hevent

theorem Connection.Tracked.filter_forward
    (hforward : conn.answer log ≠ [] ∨ conn.resumeFrom ≤ conn.history.since) :
    conn.delivered.filter (fun event => conn.resumeFrom < event.seq) = conn.delivered := by
  rw [List.filter_eq_self]
  intro event hevent
  exact decide_eq_true (htracked.delivered_forward hforward event hevent)

end

end Resumed

/-! ## In the server -/

section Server

variable {α : Type} {log : ℕ → List α} {config : ServerConfig}
  {state : ServerState α} {id : ℕ} {conn : Connection α}

structure ServerState.Attends (conn : Connection α) (state : ServerState α) : Prop where
  unlocked : state.locked = false
  stop : state.stop = false
  unasked : conn.Unasked
  isOpen : conn.phase.ending = false

def ServerState.Completes (config : ServerConfig) (log : ℕ → List α)
    (id : ℕ) (received : Connection α → Prop) (state : ServerState α) :
    Prop :=
  ∃ final last, state.ThreadRuns config log id final ∧ final.connections id = some last ∧
    ((∃ oldest, .truncated oldest ∈ last.written) ∨ received last)

theorem ServerState.ThreadRuns.kept {final : ServerState α}
    (hruns : state.ThreadRuns config log id final) (hreached : state.Reached config log)
    (hfound : state.connections id = some conn) :
    ∃ last, final.connections id = some last ∧ conn.Kept last ∧
      ∀ joined, conn.history.joinedAt = some joined → last.history.joinedAt = some joined := by
  obtain ⟨trace, hrun⟩ := hruns
  induction hrun with
  | nil => exact ⟨conn, hfound, .refl conn, fun _ hsome => hsome⟩
  | @snoc trace before after _ hbefore hstep ih =>
    obtain ⟨current, hcurrent, hkept, hsame⟩ := ih
    obtain ⟨found, hsome, hconnection⟩ := Option.bind_eq_some_iff.mp (some_of_elim hstep)
    obtain rfl := Option.some.inj (hcurrent.symm.trans hsome)
    obtain ⟨next, registry, rfl, hmoves, hjoined⟩ := ServerState.connectionStep_moves hconnection
    refine ⟨next, before.setConnection_found id next, hkept.trans hmoves.toKept, ?_⟩
    intro joined hanswered
    have hcurrentJoined := hsame joined hanswered
    rcases hjoined with hphase | hnext
    · have hbeforeReached : before.Reached config log :=
        ServerState.ThreadRuns.reached ⟨trace, hbefore⟩ hreached
      have htracked := hbeforeReached.sound.tracked id current hcurrent
      have hnone : current.history.joinedAt = none := htracked.streams_of hphase
      rw [hnone] at hcurrentJoined
      cases hcurrentJoined
    · rw [hnext]
      exact hcurrentJoined

theorem ServerState.Reached.allEnqueued (hreached : state.Reached config log)
    (hfound : state.connections id = some conn) (hcareful : conn.Careful config)
    (hattends : state.Attends conn) : AllEnqueued conn.history.offers := by
  have hsettled := hreached.orderly.settled id conn hfound
  have hcurrent : state.extractor.current id = none := by
    rw [Extractor.current, (ServerState.snapshots_of_not_locked hattends.unlocked).2]
  by_contra hrefused
  rcases hsettled.refused hcareful hrefused with hyes | hevict
  · rw [hattends.unasked.disconnected] at hyes
    cases hyes
  · rw [hcurrent] at hevict
    cases hevict

theorem ServerState.Reached.completes (hreached : state.Reached config log)
    (hfound : state.connections id = some conn) (hcareful : conn.Careful config)
    (hstart : conn.resumeFrom = 0 → upTo log conn.history.since = [])
    (hattends : state.Attends conn) : state.Completes config log id fun last =>
      conn.Kept last ∧
      last.delivered.filter (fun event => conn.resumeFrom < event.seq) =
        between log conn.resumeFrom state.read := by
  obtain ⟨last, hruns, hkept, hdone⟩ := @ServerState.threadRuns_idle α config
    state id conn hfound hattends.unlocked hattends.stop hattends.unasked hattends.isOpen log
  refine ⟨_, last, hruns, state.setConnection_found id last, ?_⟩
  refine hdone.symm.imp_right ?_
  intro hidle
  refine ⟨hkept, ?_⟩
  have hall : AllEnqueued last.history.offers := by
    rw [hkept.offers]
    exact hreached.allEnqueued hfound hcareful hattends
  have htracked := (hruns.reached hreached).sound.tracked id last
    (state.setConnection_found id last)
  obtain ⟨hsnapshots, htodo⟩ := ServerState.snapshots_of_not_locked hattends.unlocked
  change last.Tracked log state.snapshots (id ∈ state.registry)
    (coming id state.extractor.todo) at htracked
  rw [hsnapshots, htodo, coming_nil] at htracked
  have hmember : id ∈ state.registry := by
    refine htracked.isOpen ?_
    rw [hidle.phase]
    simp
  have hserving : last.history.joinedAt.isSome = true := by
    refine htracked.serving ?_
    rw [hidle.phase]
    trivial
  obtain ⟨joined, hjoined⟩ := Option.isSome_iff_exists.mp hserving
  rw [htracked.delivered_all hmember hidle.phase hidle.queue hall, ← hkept.resumeFrom]
  refine htracked.filter_origin hjoined ?_
  rw [hkept.resumeFrom, hkept.since]
  exact hstart

end Server

end EventStream
end Canon
