import Canon.EventSchedules

/-!
# Resuming a session

A client that resumes from a number expects the events after it.  A client that
registers before the snapshot of that frame is at the live tail for the cache, and
nothing compares the live events with the number.  A session that is ended reports
the number of its last event, which may be in the middle of a frame.
-/

namespace Canon
namespace EventStream

open Sequenced List

/-! ## Old events -/

section Forward

variable {α : Type}

theorem AllEnqueued.not_overflowed {offers : List (Offer α)}
    (hall : AllEnqueued offers) : ¬Overflowed offers := by
  rintro ⟨offer, hoffer, hoverflowed⟩
  rw [hall offer hoffer] at hoverflowed
  cases hoverflowed

/-- For which registrations a session delivers only new events. -/
theorem resume_forward_iff [Inhabited α] (config : ServerConfig) (resumeFrom since : ℕ) :
    (∀ (log : ℕ → List α) (state : ServerState α) (id : ℕ) (conn : Connection α),
      state.Reached config log → state.connections id = some conn →
      conn.resumeFrom = resumeFrom → conn.history.since = since →
      ∀ event ∈ conn.delivered, resumeFrom < event.seq) ↔ resumeFrom ≤ since := by
  constructor
  · intro hall
    by_contra hlate
    obtain ⟨log, state, conn, hhosts, hresume, hsince, _, _, _,
      hdelivered⟩ := @exists_late_subscriber α _ config since resumeFrom (Nat.lt_of_not_le hlate)
    have hseq := hall log state 0 conn hhosts.reached hhosts.found
      hresume hsince ⟨since + 1, default⟩ (hdelivered ▸ mem_singleton_self _)
    exact hlate (Nat.le_of_lt_succ hseq)
  · intro hle log state id conn hreached hfound hresume hsince
    have htracked := hreached.sound.tracked id conn hfound
    subst hresume hsince
    exact htracked.delivered_forward (.inr hle)

end Forward

def patientServer : ServerConfig where
  keepHistory := 8
  sendQueueDepth := 4
  maxSubscriberLag := 2
  maxSubscribers := 0
  keepHistory_pos := Nat.succ_pos 7

def pairedEvents (n : ℕ) : List ℕ :=
  if n = 2 then [20, 21] else [10 * n]

/-- The server has read two frames when it is started again.  A client resumes from
the second one while the first one is read anew. -/
def repeatingRun : ServerState ℕ := ServerState.afterSchedule patientServer pairedEvents
    (.initial patientServer)
    [(8, .extractor .frame), (1, .restart), (1, .subscribe (some 2) true),
      (6, .extractor .frame), (7, .connection 0 true)]

theorem repeatingRun_delivers :
    ∃ conn, repeatingRun.connections 0 = some conn ∧
      conn.resumeFrom = 2 ∧ conn.delivered = [⟨1, 10⟩] := exists_connection (by decide +kernel)

theorem patientServer_repeats_event :
    ∃ (state : ServerState ℕ) (conn : Connection ℕ),
      state.Reached patientServer pairedEvents ∧ state.connections 0 = some conn ∧
      conn.resumeFrom = 2 ∧ conn.delivered = [⟨1, 10⟩] ∧
      ¬∀ event ∈ conn.delivered, conn.resumeFrom < event.seq := by
  obtain ⟨conn, hfound, hresume, hdelivered⟩ := repeatingRun_delivers
  refine ⟨repeatingRun, conn,
    ServerState.afterSchedule_reachable _ _ _ _, hfound, hresume, hdelivered, ?_⟩
  rw [hresume, hdelivered]
  decide

/-! ## Backfill and live events -/

section Joined

variable {α : Type}

/-- For which registrations the backfill and the live events join exactly. -/
theorem backfill_joins_iff [Inhabited α] (config : ServerConfig)
    {resumeFrom : ℕ} (hpos : 0 < resumeFrom) (since : ℕ) :
    (∀ (log : ℕ → List α) (state : ServerState α) (id : ℕ) (conn : Connection α),
      state.Reached config log → state.connections id = some conn →
      conn.resumeFrom = resumeFrom → conn.history.since = since → ¬Overflowed conn.history.offers →
      (∃ event ∈ upTo log conn.history.registeredAt, resumeFrom ≤ event.seq) →
      conn.delivered <+: between log resumeFrom state.read ∧
        (state.Attends conn → state.Completes config log id fun last =>
            last.delivered = between log resumeFrom state.read)) ↔
    resumeFrom ≠ since + 1 := by
  constructor
  · rintro hall rfl
    obtain ⟨log, state, conn, hhosts, hresume, hsince, hregistered,
      henqueued, hmem, hdelivered⟩ := @exists_late_subscriber α _ config
        since (since + 1) (Nat.lt_succ_self since)
    have hinitial := (hall log state 0 conn hhosts.reached hhosts.found
      hresume hsince henqueued.not_overflowed
      ⟨⟨since + 1, default⟩, hregistered.symm ▸ hmem, Nat.le_refl _⟩).1
    rw [hdelivered] at hinitial
    have hseq := (seq_of_mem_between (hinitial.mem mem_cons_self)).1
    exact Nat.lt_irrefl _ hseq
  · intro hne log state id conn hreached hfound hresume hsince hnone hextracted
    have htracked := hreached.sound.tracked id conn hfound
    have hsettled := hreached.orderly.settled id conn hfound
    have hforward : conn.resumeFrom ≤ conn.history.since := by
      obtain ⟨event, hmem, hle⟩ := hextracted
      have hseq := (seq_of_mem_upTo hmem).2
      have hwindow := hsettled.window
      omega
    subst hresume
    have hstart : conn.resumeFrom = 0 → upTo log conn.history.since = [] :=
      fun hzero => absurd hzero (Nat.ne_of_gt hpos)
    refine ⟨?_, ?_⟩
    · rw [← htracked.filter_forward (.inr hforward)]
      exact (htracked.delivered_resumed (hsettled.unbroken (.inr hnone))
        hstart).trans (between_prefix_of_le state.snapshots_le_read)
    · intro hattends
      obtain ⟨final, last, hruns, hlast, hdone⟩ :=
        hreached.completes hfound (.inr hnone) hstart hattends
      refine ⟨final, last, hruns, hlast, hdone.imp_right ?_⟩
      rintro ⟨hkept, hdelivered⟩
      have hlastTracked := (hruns.reached hreached).sound.tracked id last hlast
      have hlastForward : last.resumeFrom ≤ last.history.since := by
        rw [hkept.resumeFrom, hkept.since]
        exact hforward
      rw [← hdelivered, ← hkept.resumeFrom]
      exact (hlastTracked.filter_forward (.inr hlastForward)).symm

end Joined

/-- A client resumes from the first frame and follows the second one. -/
def followingRun : ServerState ℕ := ServerState.afterSchedule patientServer pairedEvents
    (.initial patientServer)
    [(4, .extractor .frame), (1, .subscribe (some 1) true),
      (3, .connection 0 true), (8, .extractor .frame), (8, .connection 0 true)]

theorem followingRun_delivers :
    ∃ conn, followingRun.connections 0 = some conn ∧ conn.resumeFrom = 1 ∧ conn.history.since = 1 ∧
      conn.history.registeredAt = 1 ∧
      conn.history.offers = [(⟨2, 20⟩, .enqueued), (⟨2, 21⟩, .enqueued)] ∧
      conn.delivered = [⟨2, 20⟩, ⟨2, 21⟩] := exists_connection (by decide +kernel)

theorem pairedEvents_join :
    ∃ (state : ServerState ℕ) (conn : Connection ℕ),
      state.Reached patientServer pairedEvents ∧ state.connections 0 = some conn ∧
      conn.delivered = [⟨2, 20⟩, ⟨2, 21⟩] ∧
      conn.delivered <+: between pairedEvents 1 state.read := by
  obtain ⟨conn, hfound, hresume, hsince, hregistered, hoffers, hdelivered⟩ := followingRun_delivers
  have hreached : followingRun.Reached patientServer pairedEvents :=
    ServerState.afterSchedule_reachable _ _ _ _
  have hnone : ¬Overflowed conn.history.offers := by
    rw [hoffers]
    simp [Overflowed, EnqueueOutcome.overflowed]
  have hextracted : ∃ event ∈ upTo pairedEvents conn.history.registeredAt, 1 ≤ event.seq := by
    rw [hregistered]
    exact ⟨⟨1, 10⟩, mem_cons_self, Nat.le_refl 1⟩
  exact ⟨followingRun, conn, hreached, hfound, hdelivered,
    ((backfill_joins_iff patientServer Nat.one_pos 1).mpr (by decide)
      pairedEvents _ 0 conn hreached hfound hresume hsince hnone hextracted).1⟩

/-- A client registers after the first frame was pushed and before its snapshot is
taken. -/
def racingRun : ServerState ℕ := ServerState.afterSchedule patientServer pairedEvents
    (.initial patientServer)
    [(2, .extractor .frame), (1, .subscribe (some 1) true),
      (4, .extractor .frame), (7, .connection 0 true)]

theorem racingRun_delivers :
    racingRun.read = 1 ∧
      ∃ conn, racingRun.connections 0 = some conn ∧
        conn.resumeFrom = 1 ∧ conn.history.registeredAt = 1 ∧
        conn.history.offers = [(⟨1, 10⟩, .enqueued)] ∧ conn.delivered = [⟨1, 10⟩] :=
  ⟨by decide +kernel, exists_connection (by decide +kernel)⟩

theorem pairedEvents_overlap :
    ∃ (state : ServerState ℕ) (conn : Connection ℕ),
      state.Reached patientServer pairedEvents ∧ state.connections 0 = some conn ∧
      conn.resumeFrom = 1 ∧ ¬Overflowed conn.history.offers ∧
      ⟨1, 10⟩ ∈ upTo pairedEvents conn.history.registeredAt ∧ conn.delivered = [⟨1, 10⟩] ∧
      ¬conn.delivered <+: between pairedEvents 1 state.read := by
  obtain ⟨hread, conn, hfound, hresume, hregistered, hoffers, hdelivered⟩ := racingRun_delivers
  refine ⟨racingRun, conn,
    ServerState.afterSchedule_reachable _ _ _ _, hfound, hresume, ?_, ?_, hdelivered, ?_⟩
  · rw [hoffers]
    simp [Overflowed, EnqueueOutcome.overflowed]
  · rw [hregistered]
    exact mem_cons_self
  · rw [hdelivered, hread]
    decide

/-! ## Ended sessions -/

section Reconnect

variable {α : Type} {log : ℕ → List α} {config : ServerConfig}
  {state : ServerState α} {id : ℕ} {session : Connection α} {seq : ℕ} {read : ℕ}

/-- However the log goes on, a session that resumes from the number continues this
one.  With `forward` the server has handled the frame of the number before the client
registers again, or the cache holds a later one. -/
def Connection.Resumable (config : ServerConfig) (log : ℕ → List α)
    (read seq : ℕ) (forward : Bool) (session : Connection α) : Prop :=
  ∀ (later : ℕ → List α) (state : ServerState α) (id : ℕ) (resumed : Connection α),
    (∀ n ≤ read, later n = log n) → state.Reached config later →
    state.connections id = some resumed → resumed.resumeFrom = seq →
    ¬Overflowed resumed.history.offers →
    (forward = true → resumed.answer later ≠ [] ∨ seq ≤ resumed.history.since) →
    ∃ n, session.delivered ++ resumed.delivered <:+: upTo later n

theorem Connection.Tracked.reported {snapshots : ℕ} {member : Prop} {rest : List (CachedEvent α)}
    (htracked : session.Tracked log snapshots member rest)
    (hended : .lagExceeded seq ∈ session.written ∨ .serverShutdown seq ∈ session.written) :
    seq = lastSeq session.delivered := by
  rcases hended with hlag | hshutdown
  · exact (htracked.ended _ hlag rfl).1
  · exact (htracked.ended _ hshutdown rfl).1

theorem Connection.Resumable.whole [Inhabited α] {forward : Bool}
    (hresumable : session.Resumable config log read seq forward) (hread : seq ≤ read)
    (hsome : session.delivered ≠ []) (hle : ∀ event ∈ session.delivered, event.seq ≤ seq) :
    session.delivered <:+ upTo log seq := by
  let later : ℕ → List α := fun n => if n ≤ read then log n else [default]
  have hsame : ∀ n ≤ read, later n = log n := fun n hn => if_pos hn
  obtain ⟨state, resumed, hhosts, _, hresume, hsince, henqueued,
    hdelivered⟩ := exists_follower config later (.inr (Nat.le_refl seq)) (read + 1 - seq)
  have hframes : seq + (read + 1 - seq) = read + 1 := by omega
  rw [hframes] at hdelivered
  obtain ⟨n, hpart⟩ := hresumable later state 0 resumed hsame hhosts.reached
    hhosts.found hresume henqueued.not_overflowed fun _ => .inr (Nat.le_of_eq hsince.symm)
  have hnext : ⟨read + 1, default⟩ ∈ resumed.delivered := by
    have hbatch : batch later (read + 1) = [⟨read + 1, default⟩] := by
      simp [batch, later]
    rw [hdelivered, between_succ hread, hbatch]
    exact mem_append_right _ (mem_singleton_self _)
  have hsuffix := suffix_of_infix_cut hpart hle ?_ hsome (ne_nil_of_mem hnext)
  · rwa [upTo_congr hsame hread] at hsuffix
  · intro event hevent
    rw [hdelivered] at hevent
    exact (seq_of_mem_between hevent).1

theorem Connection.Resumable.forward {forward : Bool}
    (hresumable : session.Resumable config log read seq forward) {event : CachedEvent α}
    (hevent : event ∈ session.delivered) (hseq : event.seq = seq) (hpos : 0 < seq) :
    forward = true := by
  by_contra hforward
  obtain ⟨before, rfl⟩ := Nat.exists_eq_succ_of_ne_zero (Nat.ne_of_gt hpos)
  obtain ⟨state, resumed, hhosts, _, hresume, _, henqueued, hdelivered⟩ :=
    exists_follower config log (.inr (Nat.le_succ before)) 1
  obtain ⟨n, hpart⟩ := hresumable log state 0 resumed (fun _ _ => rfl)
    hhosts.reached hhosts.found hresume henqueued.not_overflowed fun hyes => absurd hyes hforward
  rw [hdelivered, between_succ (Nat.le_refl before),
    between_of_le (Nat.le_refl before), nil_append, ← Nat.succ_eq_add_one, ← hseq] at hpart
  exact not_infix_of_repeated hevent hpart

/-- A session can be continued exactly if it ended with a whole frame. -/
theorem reconnect_contiguous_iff [Inhabited α] (hreached : state.Reached config log)
    (hfound : state.connections id = some session) (hsome : session.delivered ≠ [])
    (hended : .lagExceeded seq ∈ session.written ∨
      .serverShutdown seq ∈ session.written) (forward : Bool) :
    session.Resumable config log state.read seq forward ↔
      session.delivered <:+ upTo log seq ∧ forward = true := by
  have htracked := hreached.sound.tracked id session hfound
  have hdelivered : session.delivered.Sublist (upTo log state.snapshots) :=
    htracked.delivered_sublist.trans (between_sublist _ _)
  have hreported := htracked.reported hended
  obtain ⟨last, hlast, hseq⟩ := exists_mem_lastSeq hsome
  rw [← hreported] at hseq
  obtain ⟨hpos, hle⟩ := seq_of_mem_upTo (hdelivered.mem hlast)
  rw [hseq] at hpos hle
  have hread : seq ≤ state.read := hle.trans state.snapshots_le_read
  constructor
  · intro hresumable
    refine ⟨hresumable.whole hread hsome ?_, hresumable.forward hlast hseq hpos⟩
    intro event hevent
    rw [hreported]
    exact le_lastSeq hdelivered hevent
  · rintro ⟨hwhole, rfl⟩ later next other resumed hsame hnext hother hresume hnone hforward
    subst hresume
    have hresumed := hnext.sound.tracked other resumed hother
    have hsettled := hnext.orderly.settled other resumed hother
    have hcontinued := hresumed.delivered_resumed (hsettled.unbroken (.inr hnone))
      fun hzero => absurd hzero (Nat.ne_of_gt hpos)
    rw [hresumed.filter_forward (hforward rfl)] at hcontinued
    rw [← upTo_congr hsame hread] at hwhole
    exact ⟨_, infix_of_suffix hwhole hcontinued⟩

end Reconnect

/-- The server is stopped after the first event of the second frame is written. -/
def stoppedRun : ServerState ℕ := ServerState.afterSchedule patientServer pairedEvents
    (.initial patientServer)
    [(1, .subscribe (some 0) true), (3, .connection 0 true),
      (6, .extractor .frame), (4, .connection 0 true), (8, .extractor .frame),
      (4, .connection 0 true), (1, .stop), (4, .main), (3, .connection 0 true)]

/-- The server is started again, and the client resumes from the reported
number. -/
def resumedRun : ServerState ℕ := ServerState.afterSchedule patientServer pairedEvents stoppedRun
    [(1, .restart), (8, .extractor .frame), (1, .subscribe (some 2) true),
      (3, .connection 0 true), (6, .extractor .frame), (4, .connection 0 true)]

theorem stoppedRun_delivers :
    ∃ session, stoppedRun.connections 0 = some session ∧
      session.written = [.event ⟨1, 10⟩, .event ⟨2, 20⟩, .serverShutdown 2] ∧
      session.history.offers = [(⟨1, 10⟩, .enqueued), (⟨2, 20⟩, .enqueued), (⟨2, 21⟩, .enqueued)] :=
  exists_connection (by decide +kernel)

theorem resumedRun_delivers :
    ∃ resumed, resumedRun.connections 0 = some resumed ∧ resumed.resumeFrom = 2 ∧
      resumed.history.offers = [(⟨3, 30⟩, .enqueued)] ∧ resumed.delivered = [⟨3, 30⟩] :=
  exists_connection (by decide +kernel)

theorem stoppedRun_not_resumable :
    ∃ (state : ServerState ℕ) (session : Connection ℕ), state.Reached patientServer pairedEvents ∧
      state.connections 0 = some session ∧ session.delivered = [⟨1, 10⟩, ⟨2, 20⟩] ∧
      .serverShutdown 2 ∈ session.written ∧
      ¬session.Resumable patientServer pairedEvents state.read 2 true := by
  obtain ⟨session, hfound, hwritten, _⟩ := stoppedRun_delivers
  have hreached : stoppedRun.Reached patientServer pairedEvents :=
    ServerState.afterSchedule_reachable _ _ _ _
  have hdelivered : session.delivered = [⟨1, 10⟩, ⟨2, 20⟩] := by
    rw [Connection.delivered, hwritten]
    rfl
  have hended : .serverShutdown 2 ∈ session.written := by
    rw [hwritten]
    decide
  have hsome : session.delivered ≠ [] := by
    rw [hdelivered]
    exact cons_ne_nil _ _
  refine ⟨stoppedRun, session, hreached, hfound, hdelivered, hended, ?_⟩
  rw [reconnect_contiguous_iff hreached hfound hsome (.inr hended) true, hdelivered]
  decide

theorem resumedRun_loses_event :
    ∃ (first second : ServerState ℕ) (session resumed : Connection ℕ),
      first.Reached patientServer pairedEvents ∧
      Reachable (serverStep patientServer pairedEvents) first second ∧
      first.connections 0 = some session ∧
      second.connections 0 = some resumed ∧
      .serverShutdown 2 ∈ session.written ∧ resumed.resumeFrom = 2 ∧
      ¬Overflowed session.history.offers ∧
      ¬Overflowed resumed.history.offers ∧
      session.delivered ++ resumed.delivered = [⟨1, 10⟩, ⟨2, 20⟩, ⟨3, 30⟩] ∧
      ∀ n, ¬session.delivered ++ resumed.delivered <:+: upTo pairedEvents n := by
  obtain ⟨session, hsession, hwritten, hoffers⟩ := stoppedRun_delivers
  obtain ⟨resumed, hresumed, hresume, hresumedOffers, hresumedDelivered⟩ := resumedRun_delivers
  have hdelivered : session.delivered = [⟨1, 10⟩, ⟨2, 20⟩] := by
    rw [Connection.delivered, hwritten]
    rfl
  refine ⟨stoppedRun, resumedRun, session, resumed, ServerState.afterSchedule_reachable _ _ _ _,
    ServerState.afterSchedule_reachable _ _ _ _, hsession, hresumed, ?_, hresume, ?_, ?_, ?_, ?_⟩
  · rw [hwritten]
    decide
  · rw [hoffers]
    simp [Overflowed, EnqueueOutcome.overflowed]
  · rw [hresumedOffers]
    simp [Overflowed, EnqueueOutcome.overflowed]
  · rw [hdelivered, hresumedDelivered]
    rfl
  · intro n hpart
    rw [hdelivered, hresumedDelivered] at hpart
    have hsuffix := @suffix_of_infix_cut ℕ pairedEvents [⟨1, 10⟩, ⟨2, 20⟩]
      [⟨3, 30⟩] 2 n hpart (by simp) (by simp) (cons_ne_nil _ _) (cons_ne_nil _ _)
    revert hsuffix
    decide

/-- Whatever the threads do, a connection is sent events and then at most one frame which
ends the session; that frame reports the number of the last event. -/
theorem session_ends_once {α : Type} {log : ℕ → List α} {config : ServerConfig}
    {state : ServerState α} {id : ℕ} {conn : Connection α} (hreached : state.Reached config log)
    (hfound : state.connections id = some conn) :
    (∀ frame ∈ conn.written.dropLast, frame.event? ≠ none) ∧
      ∀ frame ∈ conn.written, frame.event? = none → conn.Ends frame := by
  refine ⟨?_, fun frame hmem hframe =>
    ((hreached.sound.tracked id conn hfound).ended frame hmem hframe).1⟩
  have hinvariant := @Reachable.invariant _ _ _ _ (fun state : ServerState α => state.Sound log ∧
    ∀ id conn, state.connections id = some conn → conn.EndsOnce) ?_ _ _ hreached
    ⟨ServerState.initial_sound config, by simp [ServerState.initial]⟩
  · exact hinvariant.2 id conn hfound
  intro before label after hstep hbefore
  have heffect := serverStep_effect hstep
  exact ⟨hbefore.1.effect heffect, fun id conn hconn =>
    ServerState.endsOnce_effect hbefore.1 hbefore.2 heffect hconn⟩

theorem stoppedRun_ends_once :
    ∃ (state : ServerState ℕ) (session : Connection ℕ), state.Reached patientServer pairedEvents ∧
      state.connections 0 = some session ∧ .serverShutdown 2 ∈ session.written ∧
      session.Ends (.serverShutdown 2) := by
  obtain ⟨session, hfound, hwritten, _⟩ := stoppedRun_delivers
  have hreached : stoppedRun.Reached patientServer pairedEvents :=
    ServerState.afterSchedule_reachable _ _ _ _
  have hended : .serverShutdown 2 ∈ session.written := by
    rw [hwritten]
    decide
  exact ⟨stoppedRun, session, hreached, hfound, hended,
    (session_ends_once hreached hfound).2 _ hended rfl⟩

end EventStream
end Canon
