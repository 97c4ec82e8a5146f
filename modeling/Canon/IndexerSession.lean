import Canon.EventResume
import Canon.EventContiguity
import Canon.IndexerSync

/-!
# The session of the indexer with the event server

The daemon subscribes with its cursor as the number to resume from.  The two sides do
not mean the same by the number zero.  For the indexer it is the cursor of an empty
database, and everything is to come; the server takes it for the live tail.
-/

namespace Canon
namespace Indexing

open EventStream Sequenced List

/-- What `run_daemon` passes to `SubscribeClient::connect`. -/
def Indexer.resumeFrom (indexer : Indexer) : ℕ := indexer.cursor.toNat

/-- The events after a number, or the report that they are lost: in any state the
new events delivered are the first ones after the number, and a session that nothing
ends goes on until it has them all, or is told. -/
structure Informed (config : ServerConfig) (log : ℕ → List Bytes)
    (state : ServerState Bytes) (id : ℕ) (conn : Connection Bytes) (cursor : ℕ) : Prop where
  inOrder : conn.delivered.filter (fun event => cursor < event.seq) <+:
    between log cursor state.read
  complete : state.Attends conn → state.Completes config log id fun last =>
      last.delivered.filter (fun event => cursor < event.seq) = between log cursor state.read

section Sessions

variable {config : ServerConfig} {log : ℕ → List Bytes}
  {state : ServerState Bytes} {id : ℕ} {conn : Connection Bytes}

theorem informed_of_careful (hreached : state.Reached config log)
    (hfound : state.connections id = some conn) (hcareful : conn.Careful config)
    (hstart : conn.resumeFrom = 0 → upTo log conn.history.since = []) :
    Informed config log state id conn conn.resumeFrom := by
  have htracked := hreached.sound.tracked id conn hfound
  have hsettled := hreached.orderly.settled id conn hfound
  constructor
  · exact (htracked.delivered_resumed (hsettled.unbroken hcareful)
      hstart).trans (between_prefix_of_le state.snapshots_le_read)
  · intro hattends
    obtain ⟨final, last, hruns, hlast, hdone⟩ := hreached.completes hfound hcareful hstart hattends
    exact ⟨final, last, hruns, hlast, hdone.imp_right And.right⟩

theorem not_completes_of_tail (hreached : state.Reached config log)
    (hfound : state.connections id = some conn) (hzero : conn.resumeFrom = 0) {joined : ℕ}
    (hjoined : conn.history.joinedAt = some joined) (hsince : conn.history.since ≤ state.read)
    (hmissed : upTo log conn.history.since ≠ []) : ¬state.Completes config log id fun last =>
      last.delivered.filter (fun event => 0 < event.seq) = between log 0 state.read := by
  rintro ⟨final, last, hruns, hlast, hdone⟩
  obtain ⟨other, hother, hkept, hsame⟩ := hruns.kept hreached hfound
  obtain rfl := Option.some.inj (hother.symm.trans hlast)
  have htracked := (hruns.reached hreached).sound.tracked id other hother
  have hotherJoined := hsame joined hjoined
  rcases hdone with ⟨oldest, hwritten⟩ | hdelivered
  · have hends := (htracked.ended _ hwritten rfl).1
    rw [Connection.Ends, hotherJoined] at hends
    cases hends
  · have hanswer : other.answer log = [] :=
      Connection.answer_eq_nil hotherJoined (.inl (hkept.resumeFrom.trans hzero))
    obtain ⟨entry, hentry⟩ := exists_mem_of_ne_nil _ hmissed
    have hmem : entry ∈ between log 0 state.read := by
      rw [between_zero]
      exact (upTo_prefix_of_le hsince).subset hentry
    rw [← hdelivered] at hmem
    have hseq := htracked.delivered_since hanswer entry (mem_filter.mp hmem).1
    rw [hkept.since] at hseq
    have hle := (seq_of_mem_upTo hentry).2
    omega

end Sessions

def firstFrame (missed n : ℕ) : List Bytes :=
  if n = 1 then List.replicate missed [] else []

theorem upTo_firstFrame (missed : ℕ) : (upTo (firstFrame missed) 1).length = missed := by
  simp [upTo, batch, firstFrame]

theorem exists_uninformed (config : ServerConfig) {missed : ℕ} (hmissed : missed ≠ 0) :
    ∃ (log : ℕ → List Bytes) (state : ServerState Bytes) (conn : Connection Bytes),
      state.Hosts config log conn ∧ conn.resumeFrom = 0 ∧
      (upTo log conn.history.since).length = missed ∧ conn.history.offers = [] ∧
      ¬Informed config log state 0 conn 0 := by
  obtain ⟨state, conn, hhosts, hread, hchecking, hidle, hresume, hsince,
    _, hoffers, hjoined⟩ := exists_tail_subscriber config (firstFrame missed)
      (@Or.inl (0 = 0) (1 ≤ 0) rfl)
  have hlength : (upTo (firstFrame missed) conn.history.since).length = missed := by
    rw [hsince]
    exact upTo_firstFrame missed
  refine ⟨_, state, conn, hhosts, hresume, hlength, hoffers, ?_⟩
  intro hinformed
  have hattends : state.Attends conn := by
    refine ⟨?_, hhosts.stop, hidle.unasked, ?_⟩
    · rw [ServerState.locked, hchecking]
    · rw [hidle.phase]
      rfl
  refine not_completes_of_tail hhosts.reached hhosts.found hresume hjoined
    ?_ ?_ (hinformed.complete hattends)
  · rw [hsince, hread]
  · intro hnil
    rw [hnil] at hlength
    exact hmissed hlength.symm

/-- For which servers and which cursors the session of the indexer misses nothing,
when `missed` events have been sent to the subscribers before it registers. -/
theorem session_informed_iff (indexer : Indexer) (config : ServerConfig)
    (overflow : Overflow) (missed : ℕ) :
    (∀ (log : ℕ → List Bytes) (state : ServerState Bytes) (id : ℕ) (conn : Connection Bytes),
      state.Reached config log → state.connections id = some conn →
      conn.resumeFrom = indexer.resumeFrom →
      (upTo log conn.history.since).length = missed → overflow.Allows conn →
      Informed config log state id conn indexer.resumeFrom) ↔
    (overflow = .never ∨ config.maxSubscriberLag = 0) ∧ (indexer.cursor ≠ 0 ∨ missed = 0) := by
  constructor
  · intro hall
    constructor
    · by_contra hcondition
      rw [not_or] at hcondition
      obtain ⟨hnever, hlag⟩ := hcondition
      obtain ⟨log, state, conn, base, hhosts, hread, hbase, hlength,
        hresume, hsince, hbefore, hlost, hdelivered⟩ := @exists_overflow Bytes
          _ config (Nat.pos_of_ne_zero hlag) indexer.resumeFrom missed
      have hinformed := hall log state 0 conn hhosts.reached
        hhosts.found hresume (hsince.symm ▸ hlength) (Overflow.allows_of_before_nil hnever hbefore)
      have hnew : conn.delivered.filter (fun event => indexer.resumeFrom < event.seq) =
          conn.delivered := by
        rw [filter_eq_self, hdelivered]
        intro event hevent
        rw [decide_eq_true_iff]
        rcases mem_append.mp hevent with hfirst | hlast
        · rw [eq_of_mem_replicate hfirst]
          exact Nat.lt_succ_of_le hbase
        · rw [mem_singleton.mp hlast]
          exact Nat.lt_of_le_of_lt hbase (Nat.lt_add_of_pos_right (Nat.succ_pos 2))
      have hinOrder := hinformed.inOrder
      rw [hnew, hdelivered, hread] at hinOrder
      exact not_infix_of_overflow config hlost (hinOrder.isInfix.trans (between_suffix _ _).isInfix)
    · by_contra hcondition
      rw [not_or, not_not] at hcondition
      obtain ⟨hzero, hmissed⟩ := hcondition
      have hresumeZero : indexer.resumeFrom = 0 := by
        rw [Indexer.resumeFrom, hzero]
        rfl
      obtain ⟨log, state, conn, hhosts, hresume, hlength, hoffers,
        huninformed⟩ := exists_uninformed config hmissed
      have hinformed := hall log state 0 conn hhosts.reached
        hhosts.found (hresume.trans hresumeZero.symm) hlength
        (Overflow.allows_of_offers_nil overflow hoffers)
      rw [hresumeZero] at hinformed
      exact huninformed hinformed
  · rintro ⟨hoverflow, hcursor⟩ log state id conn hreached hfound hresume hlength hallows
    rw [← hresume]
    refine informed_of_careful hreached hfound ?_ ?_
    · rcases hoverflow with rfl | hlag
      · exact .inr hallows
      · refine .inl ?_
        rw [ServerConfig.lagLimit, hlag]
        rfl
    · intro hzero
      have hcursorZero : indexer.cursor = 0 := UInt64.toNat_inj.mp (hresume.symm.trans hzero)
      rw [hcursor.resolve_left fun hne => hne hcursorZero] at hlength
      exact eq_nil_of_length_eq_zero hlength

def freshRun : ServerState Bytes := ServerState.afterSchedule patientServer (firstFrame 1)
    (.initial patientServer)
    [(4, .extractor .frame), (1, .subscribe (some 0) true), (8, .connection 0 true)]

theorem freshRun_delivers :
    freshRun.read = 1 ∧ freshRun.locked = false ∧ freshRun.stop = false ∧
      ∃ conn, freshRun.connections 0 = some conn ∧ conn.resumeFrom = 0 ∧ conn.history.since = 1 ∧
        conn.history.joinedAt = some 1 ∧ conn.disconnected = false ∧
        conn.shutdownRequested = false ∧ conn.phase.items ++ conn.queue = [] ∧
        conn.phase.ending = false ∧ conn.delivered = [] :=
  ⟨by decide +kernel, by decide +kernel, by decide +kernel, exists_connection (by decide +kernel)⟩

/-- The indexer of an empty database is not told about the event. -/
theorem fresh_indexer_uninformed :
    ∃ (indexer : Indexer) (state : ServerState Bytes) (conn : Connection Bytes),
      Indexer.open (.opened ∅ Sqlite.Outcomes.faultless) = .ok indexer ∧
      state.Reached patientServer (firstFrame 1) ∧ state.connections 0 = some conn ∧
      conn.resumeFrom = indexer.resumeFrom ∧
      conn.delivered = [] ∧ upTo (firstFrame 1) state.read ≠ [] ∧
      ¬Informed patientServer (firstFrame 1) state 0 conn indexer.resumeFrom := by
  obtain ⟨indexer, hopen, hcursor⟩ : ∃ indexer,
      Indexer.open (.opened ∅ Sqlite.Outcomes.faultless) = .ok indexer ∧ indexer.resumeFrom = 0 :=
    exists_opened (by decide +kernel)
  obtain ⟨hread, hlocked, hstop, conn, hfound, hresume, hsince, hjoined,
    hdisconnected, hrequested, hitems, hopenPhase, hdelivered⟩ := freshRun_delivers
  have hreached : freshRun.Reached patientServer (firstFrame 1) :=
    ServerState.afterSchedule_reachable _ _ _ _
  have hattends : freshRun.Attends conn := by
    refine ⟨hlocked, hstop, ⟨hdisconnected, hrequested, ?_⟩, hopenPhase⟩
    rw [hitems]
    exact not_mem_nil
  have hmissed : upTo (firstFrame 1) 1 ≠ [] := by decide
  refine ⟨indexer, freshRun, conn, hopen, hreached, hfound,
    hresume.trans hcursor.symm, hdelivered, ?_, ?_⟩
  · rw [hread]
    exact hmissed
  · rw [hcursor]
    intro hinformed
    refine not_completes_of_tail hreached hfound hresume hjoined ?_ ?_ (hinformed.complete hattends)
    · rw [hsince, hread]
    · rw [hsince]
      exact hmissed

end Indexing
end Canon
