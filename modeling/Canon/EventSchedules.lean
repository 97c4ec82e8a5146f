import Canon.EventSessions

/-!
# Schedules of the event server

The runs of interest have a simple shape: the extractor handles a frame without
interruption, and then the thread of a connection catches up.  Without interruption
a broadcast to one subscriber is a fold of whole calls of `try_enqueue` over the
events of the frame.
-/

namespace Canon
namespace EventStream

open Sequenced List

/-- The state at the end of a schedule, where every label stands with the number of
times it is repeated. -/
def ServerState.afterSchedule {α : Type} (config : ServerConfig)
    (log : ℕ → List α) (state : ServerState α)
    (schedule : List (ℕ × ServerLabel)) : ServerState α :=
  (submitAll (serverStep config log) state
    (schedule.flatMap fun entry => List.replicate entry.1 entry.2)).2

variable {α : Type}

theorem ServerState.afterSchedule_reachable (config : ServerConfig) (log : ℕ → List α)
    (state : ServerState α) (schedule : List (ℕ × ServerLabel)) :
    Reachable (serverStep config log) state (state.afterSchedule config log schedule) :=
  ⟨_, run_submitAll _ _⟩

theorem exists_connection {found : Option (Connection α)} {fact : Connection α → Prop}
    [DecidablePred fact] (hany : found.any (fun conn => fact conn) = true) :
    ∃ conn, found = some conn ∧ fact conn := by
  cases found with
  | none => cases hany
  | some conn => exact ⟨conn, rfl, of_decide_eq_true hany⟩

/-! ## Whole calls of `try_enqueue` -/

section Enqueued

variable {α : Type} {config : ServerConfig} {conn : Connection α} {event : CachedEvent α}

def Connection.enqueued (config : ServerConfig) (conn : Connection α)
    (event : CachedEvent α) : Connection α :=
  let (checked, more) := conn.tryEnqueue config (.check event)
  match more with
  | none => checked
  | some op =>
    let (sent, more) := checked.tryEnqueue config op
    match more with
    | none => sent
    | some op => (sent.tryEnqueue config op).1

def Connection.accept (conn : Connection α) (event : CachedEvent α) : Connection α :=
  { conn.offer event .enqueued with
    queue := conn.queue ++ [.live event], lag := 0 }

def Connection.fallBehind (conn : Connection α) (event : CachedEvent α) : Connection α :=
  { conn.offer event (.lagging (conn.lag + 1)) with
    lag := conn.lag + 1 }

def Connection.exceed (conn : Connection α) (event : CachedEvent α) : Connection α :=
  { conn.offer event .lagExceeded with
    lag := conn.lag + 1, disconnected := true }

theorem Connection.enqueued_accept (hdisconnected : conn.disconnected = false)
    (hdropped : conn.receiverDropped = false) (hroom : conn.queue.length < config.queueDepth) :
    conn.enqueued config event = conn.accept event := by
  simp [Connection.enqueued, Connection.tryEnqueue, Connection.accept,
    hdisconnected, hdropped, hroom]

theorem Connection.enqueued_fallBehind (hdisconnected : conn.disconnected = false)
    (hdropped : conn.receiverDropped = false) (hfull : ¬conn.queue.length < config.queueDepth)
    (hlag : ¬config.lagLimit < conn.lag + 1) :
    conn.enqueued config event = conn.fallBehind event := by
  simp only [Connection.enqueued, Connection.tryEnqueue, hdisconnected,
    hdropped, hfull, hlag, if_false, Bool.false_eq_true, Connection.fallBehind]

theorem Connection.enqueued_exceed (hdisconnected : conn.disconnected = false)
    (hdropped : conn.receiverDropped = false) (hfull : ¬conn.queue.length < config.queueDepth)
    (hlag : config.lagLimit < conn.lag + 1) : conn.enqueued config event = conn.exceed event := by
  simp only [Connection.enqueued, Connection.tryEnqueue, hdisconnected,
    hdropped, hfull, hlag, if_false, if_true, Bool.false_eq_true, Connection.exceed]

theorem Connection.enqueued_disconnected (hdisconnected : conn.disconnected = true) :
    conn.enqueued config event = conn.offer event .disconnected := by
  simp only [Connection.enqueued, Connection.tryEnqueue, hdisconnected, if_true]

theorem Connection.tryEnqueue_check_more (config : ServerConfig)
    (conn : Connection α) (event : CachedEvent α) :
    (conn.tryEnqueue config (.check event)).2 = none ∨
      (conn.tryEnqueue config (.check event)).2 = some (.send event) := by
  simp only [Connection.tryEnqueue]
  split_ifs
  · exact .inl rfl
  · exact .inr rfl

theorem Connection.tryEnqueue_send_more (config : ServerConfig)
    (conn : Connection α) (event : CachedEvent α) :
    (conn.tryEnqueue config (.send event)).2 = none ∨
      (conn.tryEnqueue config (.send event)).2 = some .evict := by
  simp only [Connection.tryEnqueue]
  split_ifs
  · exact .inr rfl
  · exact .inl rfl
  · exact .inr rfl
  · exact .inl rfl

theorem Connection.foldl_enqueued {events : List (CachedEvent α)}
    (hdisconnected : conn.disconnected = false) (hdropped : conn.receiverDropped = false)
    (hroom : conn.queue.length + events.length ≤ config.queueDepth) :
    events.foldl (Connection.enqueued config) conn = events.foldl Connection.accept conn := by
  induction events generalizing conn with
  | nil => rfl
  | cons event rest ih =>
    rw [length_cons] at hroom
    rw [foldl_cons, foldl_cons, Connection.enqueued_accept hdisconnected hdropped (by omega)]
    refine ih hdisconnected hdropped ?_
    change (conn.queue ++ [DeliveryEvent.live event]).length + rest.length ≤ _
    rw [length_append, length_singleton]
    omega

structure Connection.Accepts (conn : Connection α)
    (events : List (CachedEvent α)) (next : Connection α) : Prop where
  resumeFrom : next.resumeFrom = conn.resumeFrom
  phase : next.phase = conn.phase
  queue : next.queue = conn.queue ++ events.map DeliveryEvent.live
  lag : events ≠ [] → next.lag = 0
  disconnected : next.disconnected = conn.disconnected
  shutdownRequested : next.shutdownRequested = conn.shutdownRequested
  written : next.written = conn.written
  since : next.history.since = conn.history.since
  registeredAt : next.history.registeredAt = conn.history.registeredAt
  joinedAt : next.history.joinedAt = conn.history.joinedAt
  before : conn.history.joinedAt.isSome = true →
    next.history.before = conn.history.before
  after : conn.history.joinedAt = none →
    next.history.after = conn.history.after
  offers : (conn.history.joinedAt = none → conn.history.after = []) →
    next.history.offers = conn.history.offers ++ events.map fun event => (event, .enqueued)

theorem Connection.accepts_foldl (events : List (CachedEvent α)) (conn : Connection α) :
    conn.Accepts events (events.foldl Connection.accept conn) := by
  induction events generalizing conn with
  | nil =>
    exact ⟨rfl, rfl, (append_nil _).symm, fun hne => absurd rfl hne,
      rfl, rfl, rfl, rfl, rfl, rfl, fun _ => rfl, fun _ => rfl,
      fun _ => (append_nil _).symm⟩
  | cons event rest ih =>
    have hrest := ih (conn.accept event)
    have hjoined : (conn.accept event).history.joinedAt =
        conn.history.joinedAt :=
      conn.history.offer_joinedAt event .enqueued
    have hsame : conn.history.joinedAt = none →
        (conn.accept event).history.after =
          conn.history.after :=
      conn.history.after_offer event .enqueued
    rw [foldl_cons]
    refine ⟨hrest.resumeFrom, hrest.phase, ?_, ?_, hrest.disconnected,
      hrest.shutdownRequested, hrest.written, ?_, ?_, ?_, ?_, ?_, ?_⟩
    · rw [hrest.queue]
      change conn.queue ++ [.live event] ++ rest.map DeliveryEvent.live = _
      rw [append_assoc]
      rfl
    · intro _
      by_cases hnil : rest = []
      · rw [hnil]
        rfl
      · exact hrest.lag hnil
    · rw [hrest.since]
      exact conn.history.offer_since event .enqueued
    · rw [hrest.registeredAt]
      exact conn.history.offer_registeredAt event .enqueued
    · rw [hrest.joinedAt, hjoined]
    · intro hsome
      rw [hrest.before (hjoined ▸ hsome)]
      exact History.before_offer event .enqueued hsome
    · intro hnone
      rw [hrest.after (hjoined.trans hnone)]
      exact hsame hnone
    · intro hafter
      have hoffers : (conn.accept event).history.offers =
          conn.history.offers ++ [(event, .enqueued)] := History.offers_offer event .enqueued hafter
      rw [hrest.offers ?_, hoffers, append_assoc]
      · rfl
      · intro hnone
        rw [hjoined] at hnone
        exact (hsame hnone).trans (hafter hnone)

end Enqueued

/-! ## The extractor -/

section Extractor

variable {α : Type} {log : ℕ → List α} {config : ServerConfig}
  {state next : ServerState α} {id : ℕ} {conn : Connection α} {events : List (CachedEvent α)}

theorem ServerState.Reached.step {label : ServerLabel} (hreached : state.Reached config log)
    (hstep : serverStep config log state label = .ok next) :
    next.Reached config log :=
  Reachable.tail hreached hstep

theorem ServerState.Reached.pushed (hreached : state.Reached config log)
    (hextractor : state.extractor = .checking) (hstop : state.stop = false) : ∃ cache, ({ state with
      cache := cache, read := state.read + 1,
      extractor := .pushed (batch log (state.read + 1)) } : ServerState α).Reached config log := by
  obtain ⟨cache, hpush, _⟩ := hreached.sound.cache.pushAll
  have hreading : ({ state with extractor := .reading } : ServerState α).Reached config log := by
    refine @ServerState.Reached.step α log config state _ (.extractor .frame) hreached ?_
    simp [serverStep, ServerState.extractorStep, hextractor, hstop]
  refine ⟨cache, @ServerState.Reached.step α log config _ _ (.extractor .frame) hreading ?_⟩
  simp [serverStep, ServerState.extractorStep, ServerState.extract, hpush]

theorem ServerState.Reached.released (hreached : state.Reached config log)
    (hextractor : state.extractor = .broadcasting []) :
    ({ state with extractor := .checking } : ServerState α).Reached config log := by
  refine @ServerState.Reached.step α log config state _ (.extractor .frame) hreached ?_
  simp [serverStep, ServerState.extractorStep, hextractor]

theorem ServerState.Reached.access {op : EnqueueOp α}
    {todo : List (ℕ × EnqueueOp α)} (hreached : state.Reached config log)
    (hextractor : state.extractor = .broadcasting ((id, op) :: todo))
    (hfound : state.connections id = some conn) :
    ({ state.setConnection id (conn.tryEnqueue config op).1 with
      extractor := .broadcasting
        (((conn.tryEnqueue config op).2.toList.map fun op => (id, op)) ++ todo) } :
        ServerState α).Reached config log := by
  refine @ServerState.Reached.step α log config state _ (.extractor .frame) hreached ?_
  simp [serverStep, ServerState.extractorStep, hextractor, ServerState.enqueue_some hfound]

theorem ServerState.Reached.enqueued {event : CachedEvent α}
    {todo : List (ℕ × EnqueueOp α)} (hreached : state.Reached config log)
    (hextractor : state.extractor = .broadcasting ((id, .check event) :: todo))
    (hfound : state.connections id = some conn) :
    ({ state.setConnection id (conn.enqueued config event) with
      extractor := .broadcasting todo } : ServerState α).Reached config log := by
  have haccess : ∀ {current : Connection α} {op : EnqueueOp α},
      ({ state.setConnection id current with
        extractor := .broadcasting ((id, op) :: todo) } : ServerState α).Reached config log →
      ({ state.setConnection id (current.tryEnqueue config op).1 with
        extractor := .broadcasting
          (((current.tryEnqueue config op).2.toList.map fun op => (id, op)) ++ todo) } :
          ServerState α).Reached config log := by
    intro current op hcurrent
    have hnext := hcurrent.access rfl (state.setConnection_found id current)
    simpa [ServerState.setConnection] using hnext
  have hcheck : ({ state.setConnection id conn with
      extractor := .broadcasting ((id, .check event) :: todo) } :
        ServerState α).Reached config log := by
    rw [ServerState.setConnection_self hfound, ← hextractor]
    exact hreached
  have hchecked := haccess hcheck
  rcases conn.tryEnqueue_check_more config event with hdone | hsend
  · have hresult : conn.enqueued config event = (conn.tryEnqueue config (.check event)).1 := by
      simp only [Connection.enqueued, hdone]
    rw [hdone] at hchecked
    rw [hresult]
    exact hchecked
  · rw [hsend] at hchecked
    have hsent := haccess hchecked
    rcases (conn.tryEnqueue config (.check
      event)).1.tryEnqueue_send_more config event with hdone | hevict
    · have hresult : conn.enqueued config event =
          ((conn.tryEnqueue config (.check event)).1.tryEnqueue config (.send event)).1 := by
        simp only [Connection.enqueued, hsend, hdone]
      rw [hdone] at hsent
      rw [hresult]
      exact hsent
    · have hresult : conn.enqueued config event =
          (((conn.tryEnqueue config (.check event)).1.tryEnqueue config
            (.send event)).1.tryEnqueue config .evict).1 := by
        simp only [Connection.enqueued, hsend, hevict]
      rw [hevict] at hsent
      rw [hresult]
      exact haccess hsent

theorem ServerState.Reached.snapshot (hreached : state.Reached config log)
    (hextractor : state.extractor = .pushed events) (hregistry : state.registry = [id]) :
    ({ state with
      extractor := .broadcasting (events.map fun event => (id, .check event)) } :
        ServerState α).Reached config log := by
  refine @ServerState.Reached.step α log config state _ (.extractor .frame) hreached ?_
  have hflat : broadcastCalls [id] events =
      events.map fun event => (id, EnqueueOp.check event) := by
    exact flatMap_pure_eq_map _ _
  simp [serverStep, ServerState.extractorStep, hextractor, hregistry, hflat]

theorem ServerState.Reached.broadcast (hreached : state.Reached config log)
    (hextractor : state.extractor = .pushed events) (hregistry : state.registry = [id])
    (hfound : state.connections id = some conn) :
    ({ state.setConnection id (events.foldl (Connection.enqueued config) conn) with
      extractor := .checking } : ServerState α).Reached config log := by
  have hall : ∀ (events : List (CachedEvent α)) (current : Connection α),
      ({ state.setConnection id current with
        extractor := .broadcasting (events.map fun event => (id, .check event)) } :
        ServerState α).Reached config log →
      ({ state.setConnection id (events.foldl (Connection.enqueued config) current) with
        extractor := .broadcasting [] } :
        ServerState α).Reached config log := by
    intro events
    induction events with
    | nil => exact fun _ hcurrent => hcurrent
    | cons event _ ih =>
      intro current hcurrent
      have hnext := hcurrent.enqueued rfl (state.setConnection_found id current)
      refine ih (current.enqueued config event) ?_
      simpa [ServerState.setConnection] using hnext
  refine (hall events conn ?_).released rfl
  rw [ServerState.setConnection_self hfound]
  exact hreached.snapshot hextractor hregistry

end Extractor

/-! ## A server with one subscriber -/

section Hosts

variable {α : Type} {log : ℕ → List α} {config : ServerConfig}
  {state : ServerState α} {conn : Connection α}

structure ServerState.Lonely (config : ServerConfig) (log : ℕ → List α)
    (state : ServerState α) : Prop where
  reached : state.Reached config log
  stop : state.stop = false
  registry : state.registry = []
  nextId : state.nextId = 0

structure ServerState.Hosts (config : ServerConfig) (log : ℕ → List α)
    (conn : Connection α) (state : ServerState α) : Prop where
  reached : state.Reached config log
  stop : state.stop = false
  registry : state.registry = [0]
  found : state.connections 0 = some conn

structure Connection.Served (conn : Connection α)
    (offers : List (Offer α)) (last : Connection α) : Prop where
  idle : last.Idle
  resumeFrom : last.resumeFrom = conn.resumeFrom
  since : last.history.since = conn.history.since
  before : last.history.before = conn.history.before
  joinedAt : last.history.joinedAt = conn.history.joinedAt
  offers : last.history.offers = conn.history.offers ++ offers

theorem Connection.Served.refl (hidle : conn.Idle) : conn.Served [] conn :=
  ⟨hidle, rfl, rfl, rfl, rfl, (append_nil _).symm⟩

theorem Connection.Served.trans {first second : List (Offer α)}
    {next last : Connection α} (hfirst : conn.Served first next)
    (hsecond : next.Served second last) : conn.Served (first ++ second) last where
  idle := hsecond.idle
  resumeFrom := hsecond.resumeFrom.trans hfirst.resumeFrom
  since := hsecond.since.trans hfirst.since
  before := hsecond.before.trans hfirst.before
  joinedAt := hsecond.joinedAt.trans hfirst.joinedAt
  offers := by
    rw [hsecond.offers, hfirst.offers, append_assoc]

theorem ServerState.Lonely.pushed (hlonely : state.Lonely config log)
    (hextractor : state.extractor = .checking) :
    ∃ next : ServerState α, next.Lonely config log ∧
      next.read = state.read + 1 ∧
      next.extractor = .pushed (batch log (state.read + 1)) := by
  obtain ⟨cache, hpushed⟩ := hlonely.reached.pushed hextractor hlonely.stop
  exact ⟨_, ⟨hpushed, hlonely.stop, hlonely.registry, hlonely.nextId⟩, rfl, rfl⟩

theorem ServerState.exists_lonely (config : ServerConfig) (log : ℕ → List α) (n : ℕ) :
    ∃ state : ServerState α, state.Lonely config log ∧ state.read = n ∧
      state.extractor = .checking := by
  induction n with
  | zero => exact ⟨.initial config, ⟨.refl _, rfl, rfl, rfl⟩, rfl, rfl⟩
  | succ _ ih =>
    obtain ⟨state, hlonely, hread, hextractor⟩ := ih
    obtain ⟨next, hnext, hnextRead, hpushed⟩ := hlonely.pushed hextractor
    have hcalls : ({ next with extractor := .broadcasting [] } :
        ServerState α).Reached config log := by
      refine @ServerState.Reached.step α log config next _ (.extractor .frame) hnext.reached ?_
      simp [serverStep, ServerState.extractorStep, hpushed, hnext.registry, broadcastCalls]
    refine ⟨_, ⟨hcalls.released rfl, hnext.stop, hnext.registry, hnext.nextId⟩, ?_, rfl⟩
    exact hnextRead.trans (congrArg (· + 1) hread)

theorem ServerState.Lonely.subscribe (hlonely : state.Lonely config log) (resumeFrom : ℕ) :
    ∃ next : ServerState α,
      next.Hosts config log (.new resumeFrom .registered [] state) ∧
      next.read = state.read ∧ next.extractor = state.extractor := by
  have hroom : ¬(config.maxSubscribers ≠ 0 ∧ config.maxSubscribers ≤ state.registry.length) := by
    rw [hlonely.registry, length_nil]
    omega
  have hsubscribed : ({ state.addConnection (.new resumeFrom .registered [] state) with
        registry := [0] } : ServerState α).Reached config log := by
    refine @ServerState.Reached.step α log config state _
      (.subscribe (some resumeFrom) true) hlonely.reached ?_
    rw [serverStep, ServerState.subscribe]
    rw [if_neg hroom, hlonely.registry, hlonely.nextId, nil_append]
  refine ⟨_, ⟨hsubscribed, hlonely.stop, rfl, ?_⟩, rfl, rfl⟩
  change Function.update state.connections state.nextId _ 0 = _
  rw [hlonely.nextId, Function.update_self]

section

variable (hhosts : state.Hosts config log conn)
include hhosts

theorem ServerState.Hosts.broadcast {events : List (CachedEvent α)} (hextractor : state.extractor = .pushed events) :
    ∃ next : ServerState α, next.Hosts config log (events.foldl (Connection.enqueued config) conn) ∧
      next.read = state.read ∧ next.extractor = .checking :=
  ⟨_, ⟨hhosts.reached.broadcast hextractor hhosts.registry hhosts.found,
    hhosts.stop, hhosts.registry, state.setConnection_found 0 _⟩, rfl, rfl⟩

theorem ServerState.Hosts.frame (hextractor : state.extractor = .checking) :
    ∃ next : ServerState α, next.Hosts config log
        ((batch log (state.read + 1)).foldl (Connection.enqueued config) conn) ∧
      next.read = state.read + 1 ∧ next.extractor = .checking := by
  obtain ⟨cache, hpushed⟩ := hhosts.reached.pushed hextractor hhosts.stop
  have hnext : ServerState.Hosts config log conn { state with
      cache := cache, read := state.read + 1,
      extractor := .pushed (batch log (state.read + 1)) } :=
    ⟨hpushed, hhosts.stop, hhosts.registry, hhosts.found⟩
  exact hnext.broadcast rfl

theorem ServerState.Hosts.setConnection {last : Connection α}
    (hruns : state.ThreadRuns config log 0 (state.setConnection 0 last)) :
    (state.setConnection 0 last).Hosts config log last :=
  ⟨hruns.reached hhosts.reached, hhosts.stop, hhosts.registry, state.setConnection_found 0 last⟩

theorem ServerState.Hosts.liveTail
    (hphase : conn.phase = .registered) (hextractor : state.extractor = .checking)
    (hunasked : conn.Unasked) (hrange : state.cache.range conn.resumeFrom = .atLiveTail) :
    ∃ next last, ServerState.Hosts config log last next ∧
      next.read = state.read ∧ next.extractor = .checking ∧
      conn.Kept last ∧ last.Idle ∧
      last.history.joinedAt = some state.read := by
  have hlocked : state.locked = false := by
    rw [ServerState.locked, hextractor]
  have hasked := @serverStep_backfill α log config state 0 conn true hhosts.found hphase hlocked
  rw [hrange] at hasked
  obtain ⟨hanswered, _⟩ := hunasked.backfill state.read .atLiveTail
  obtain ⟨last, hadvances, hidle⟩ := @Connection.advances_backfilled α config
    (conn.backfill state.read .atLiveTail) hanswered rfl
  obtain ⟨hkept, hjoined⟩ := hadvances.kept
  have hfirst : state.ThreadRuns config log 0 (state.setConnection 0
      (conn.backfill state.read .atLiveTail)) :=
    @Reachable.tail _ _ _ _ _ _ _ () (.refl state) hasked
  have hruns := @Connection.Advances.threadRuns α config state 0 _ last hadvances hhosts.stop log
  exact ⟨_, last, hhosts.setConnection (Reachable.trans hfirst hruns), rfl,
    hextractor, (conn.backfill_moves _ _ hphase).toKept.trans hkept, hidle, hjoined⟩

theorem ServerState.Hosts.catchUp (hphase : conn.phase = .looping []) (hunasked : conn.Unasked) :
    ∃ next last, ServerState.Hosts config log last next ∧
      next.read = state.read ∧ next.extractor = state.extractor ∧
      conn.Kept last ∧ last.Idle ∧
      last.history.joinedAt = conn.history.joinedAt := by
  obtain ⟨last, hadvances, hidle⟩ := @Connection.advances_looping α config conn [] hunasked hphase
  have hruns := @Connection.Advances.threadRuns α config state 0 conn last hadvances hhosts.stop log
  rw [ServerState.setConnection_self hhosts.found] at hruns
  exact ⟨_, last, hhosts.setConnection hruns, rfl, rfl, hadvances.kept.1, hidle, hadvances.kept.2⟩

end

end Hosts

/-! ## A subscriber that comes too early -/

section Late

variable {α : Type}

theorem ServerConfig.queueDepth_pos (config : ServerConfig) : 0 < config.queueDepth :=
  Nat.lt_of_lt_of_le Nat.zero_lt_one (Nat.le_max_left _ _)

/-- A subscriber that registers after a frame was pushed and before its snapshot is
taken gets the frame, whatever number it resumes from. -/
theorem exists_late_subscriber [Inhabited α] (config : ServerConfig)
    {since resumeFrom : ℕ} (hlate : since < resumeFrom) :
    ∃ (log : ℕ → List α) (state : ServerState α) (conn : Connection α),
      state.Hosts config log conn ∧ conn.resumeFrom = resumeFrom ∧
      conn.history.since = since ∧ conn.history.registeredAt = since + 1 ∧
      AllEnqueued conn.history.offers ∧ ⟨since + 1, default⟩ ∈ upTo log (since + 1) ∧
      conn.delivered = [⟨since + 1, default⟩] := by
  let log : ℕ → List α := fun n => if n = since + 1 then [default] else []
  let event : CachedEvent α := ⟨since + 1, default⟩
  have hbatch : batch log (since + 1) = [event] := by
    simp [batch, log, event]
  obtain ⟨_, hbefore, hread, hchecking⟩ := ServerState.exists_lonely config log since
  obtain ⟨pushed, hlonely, hpushedRead, hpushed⟩ := hbefore.pushed hchecking
  rw [hread] at hpushedRead hpushed
  rw [hbatch] at hpushed
  obtain ⟨_, hsubscribed, hnewRead, hnewExtractor⟩ := hlonely.subscribe resumeFrom
  -- the queue takes the event while the thread has not asked the cache yet
  obtain ⟨asking, hasking, haskingRead, haskingExtractor⟩ :=
    hsubscribed.broadcast (hnewExtractor.trans hpushed)
  have hroom : (Connection.new resumeFrom .registered [] pushed).queue.length
      < config.queueDepth := config.queueDepth_pos
  rw [foldl_cons, foldl_nil, Connection.enqueued_accept rfl rfl hroom] at hasking
  rw [hnewRead, hpushedRead] at haskingRead
  have hle : ∀ entry ∈ upTo log asking.read, entry.seq ≤ resumeFrom := by
    intro entry hmem
    have hseq := (seq_of_mem_upTo hmem).2
    omega
  obtain ⟨_, last, hlast, _, _, hkept, hidle, hjoined⟩ := hasking.liveTail
    rfl haskingExtractor ⟨rfl, rfl, by simp [Phase.items, Connection.accept,
      Connection.new, Connection.offer]⟩
    (hasking.reached.sound.cache.range_of_le hle)
  have hoffers : last.history.offers = [(event, .enqueued)] := hkept.offers.trans rfl
  have hsince : pushed.snapshots = since := by
    rw [ServerState.snapshots, hpushed]
    simp only
    omega
  have hanswer : last.answer log = [] := by
    refine Connection.answer_eq_nil hjoined (.inr ?_)
    rw [hkept.resumeFrom, haskingRead]
    exact hlate
  have htracked := hlast.reached.sound.tracked 0 last hlast.found
  refine ⟨log, _, last, hlast, hkept.resumeFrom, hkept.since.trans hsince,
    hkept.registeredAt.trans hpushedRead, ?_, ?_, ?_⟩
  · rw [hoffers]
    intro offer hoffer
    rw [mem_singleton.mp hoffer]
  · rw [upTo, hbatch]
    exact mem_append_right _ (mem_singleton_self _)
  · rw [htracked.delivered_liveTail hidle.phase hidle.queue hanswer, hoffers]
    rfl

end Late

/-! ## A subscriber at the live tail -/

section Tail

variable {α : Type} {log : ℕ → List α} {config : ServerConfig}
  {state : ServerState α} {conn : Connection α} {base resumeFrom : ℕ}
  {events : List (CachedEvent α)}

theorem exists_tail_subscriber (config : ServerConfig) (log : ℕ → List α)
    (hbase : resumeFrom = 0 ∨ base ≤ resumeFrom) :
    ∃ (state : ServerState α) (conn : Connection α),
      state.Hosts config log conn ∧ state.read = base ∧
      state.extractor = .checking ∧ conn.Idle ∧ conn.resumeFrom = resumeFrom ∧
      conn.history.since = base ∧ conn.history.before = [] ∧
      conn.history.offers = [] ∧ conn.history.joinedAt = some base := by
  obtain ⟨before, hbefore, hread, hchecking⟩ := ServerState.exists_lonely config log base
  obtain ⟨asking, hasking, haskingRead, haskingExtractor⟩ := hbefore.subscribe resumeFrom
  rw [hread] at haskingRead
  rw [hchecking] at haskingExtractor
  have hrange : asking.cache.range resumeFrom = .atLiveTail := by
    rcases hbase with rfl | hle
    · exact EventCache.range_zero
    · refine hasking.reached.sound.cache.range_of_le ?_
      intro entry hmem
      have hseq := (seq_of_mem_upTo hmem).2
      omega
  have hsince : before.snapshots = base := by
    rw [ServerState.snapshots, hchecking]
    exact hread
  obtain ⟨state, last, hlast, hlastRead, hlastExtractor, hkept, hidle,
    hjoined⟩ := hasking.liveTail rfl haskingExtractor ⟨rfl, rfl, not_mem_nil⟩ hrange
  exact ⟨state, last, hlast, hlastRead.trans haskingRead, hlastExtractor,
    hidle, hkept.resumeFrom, hkept.since.trans hsince, hkept.before,
    hkept.offers, hjoined.trans (congrArg some haskingRead)⟩

theorem ServerState.Hosts.fill (hhosts : state.Hosts config log conn)
    (hextractor : state.extractor = .checking) (hidle : conn.Idle)
    (hevents : batch log (state.read + 1) = events) (hroom : events.length ≤ config.queueDepth) :
    ∃ next last, ServerState.Hosts config log last next ∧
      next.read = state.read + 1 ∧ next.extractor = .checking ∧
      conn.Accepts events last ∧ last.Unasked := by
  obtain ⟨next, hnext, hread, hchecking⟩ := hhosts.frame hextractor
  have hdropped : conn.receiverDropped = false := by
    rw [Connection.receiverDropped, hidle.phase]
  have hlength : conn.queue.length + events.length ≤ config.queueDepth := by
    rw [hidle.queue, length_nil, Nat.zero_add]
    exact hroom
  rw [hevents, Connection.foldl_enqueued hidle.unasked.disconnected hdropped hlength] at hnext
  have haccepts := Connection.accepts_foldl events conn
  refine ⟨next, _, hnext, hread, hchecking, haccepts,
    haccepts.disconnected.trans hidle.unasked.disconnected,
    haccepts.shutdownRequested.trans hidle.unasked.shutdownRequested, ?_⟩
  rw [haccepts.phase, hidle.phase, haccepts.queue, hidle.queue]
  simp [Phase.items]

theorem Connection.Idle.receiverDropped (hidle : conn.Idle) : conn.receiverDropped = false := by
  rw [Connection.receiverDropped, hidle.phase]

theorem History.after_of_isSome {history : History α} (hjoined : history.joinedAt.isSome = true) :
    history.joinedAt = none → history.after = [] := by
  intro hnone
  rw [hnone] at hjoined
  cases hjoined

theorem ServerState.Hosts.serveCalls (hhosts : state.Hosts config log conn) (hidle : conn.Idle)
    (hjoined : conn.history.joinedAt.isSome = true)
    (hextractor : state.extractor = .broadcasting (events.map fun event => (0, .check event))) :
    ∃ next last, ServerState.Hosts config log last next ∧
      next.read = state.read ∧ next.extractor = .broadcasting [] ∧
      conn.Served (events.map fun event => (event, .enqueued))
        last := by
  induction events generalizing state conn with
  | nil => exact ⟨state, conn, hhosts, rfl, hextractor, .refl hidle⟩
  | cons event rest ih =>
    have hroom : conn.queue.length < config.queueDepth := by
      rw [hidle.queue]
      exact config.queueDepth_pos
    have hoffered := hhosts.reached.enqueued hextractor hhosts.found
    rw [Connection.enqueued_accept hidle.unasked.disconnected
      hidle.receiverDropped hroom] at hoffered
    have haccepted : ServerState.Hosts config log (conn.accept event)
        { state.setConnection 0 (conn.accept event) with
          extractor := .broadcasting (rest.map fun event => (0, .check event)) } :=
      ⟨hoffered, hhosts.stop, hhosts.registry, state.setConnection_found 0 _⟩
    have hunasked : (conn.accept event).Unasked := by
      refine ⟨hidle.unasked.disconnected, hidle.unasked.shutdownRequested, ?_⟩
      change .shutdown ∉ conn.phase.items ++ (conn.queue ++ [.live event])
      rw [hidle.phase, hidle.queue]
      simp [Phase.items]
    obtain ⟨middle, next, hnext, hread, hrest, hkept, hnextIdle,
      hnextJoined⟩ := haccepted.catchUp hidle.phase hunasked
    have hserved : conn.Served [(event, .enqueued)] next :=
      ⟨hnextIdle, hkept.resumeFrom, hkept.since.trans (conn.history.offer_since _ _),
        hkept.before.trans (History.before_offer _ _ hjoined),
        hnextJoined.trans (conn.history.offer_joinedAt _ _),
        hkept.offers.trans (History.offers_offer _ _ (History.after_of_isSome hjoined))⟩
    obtain ⟨final, last, hlast, hlastRead, hdone, hlastServed⟩ :=
      ih hnext hnextIdle (hserved.joinedAt ▸ hjoined) hrest
    exact ⟨final, last, hlast, hlastRead.trans hread, hdone, hserved.trans hlastServed⟩

theorem ServerState.Hosts.serve (hhosts : state.Hosts config log conn)
    (hextractor : state.extractor = .checking) (hidle : conn.Idle)
    (hjoined : conn.history.joinedAt.isSome = true) :
    ∃ next last, ServerState.Hosts config log last next ∧
      next.read = state.read + 1 ∧ next.extractor = .checking ∧
      conn.Served ((batch log (state.read + 1)).map fun event => (event, .enqueued)) last := by
  obtain ⟨cache, hpushed⟩ := hhosts.reached.pushed hextractor hhosts.stop
  have hcalls := hpushed.snapshot rfl hhosts.registry
  obtain ⟨next, last, hnext, hread, hdone, hserved⟩ := ServerState.Hosts.serveCalls
      ⟨hcalls, hhosts.stop, hhosts.registry, hhosts.found⟩ hidle hjoined rfl
  exact ⟨_, last, ⟨hnext.reached.released hdone, hnext.stop, hnext.registry,
    hnext.found⟩, hread, rfl, hserved⟩

theorem ServerState.Hosts.serveFrames (hhosts : state.Hosts config log conn)
    (hextractor : state.extractor = .checking) (hidle : conn.Idle)
    (hjoined : conn.history.joinedAt.isSome = true) (frames : ℕ) :
    ∃ next last, ServerState.Hosts config log last next ∧
      next.read = state.read + frames ∧ next.extractor = .checking ∧
      conn.Served ((between log state.read (state.read + frames)).map
        fun event => (event, .enqueued)) last := by
  induction frames with
  | zero =>
    rw [Nat.add_zero, between_of_le (Nat.le_refl _)]
    exact ⟨state, conn, hhosts, rfl, hextractor, .refl hidle⟩
  | succ _ ih =>
    obtain ⟨middle, next, hnext, hread, hchecking, hserved⟩ := ih
    obtain ⟨final, last, hlast, hlastRead, hdone, hlastServed⟩ :=
      hnext.serve hchecking hserved.idle (hserved.joinedAt ▸ hjoined)
    rw [hread] at hlastRead hlastServed
    refine ⟨final, last, hlast, hlastRead, hdone, ?_⟩
    rw [← Nat.add_assoc, between_succ (Nat.le_add_right _ _), map_append]
    exact hserved.trans hlastServed

theorem exists_follower (config : ServerConfig) (log : ℕ → List α)
    (hbase : resumeFrom = 0 ∨ base ≤ resumeFrom) (frames : ℕ) :
    ∃ (state : ServerState α) (conn : Connection α),
      state.Hosts config log conn ∧ state.read = base + frames ∧
      conn.resumeFrom = resumeFrom ∧ conn.history.since = base ∧ AllEnqueued conn.history.offers ∧
      conn.delivered = between log base (base + frames) := by
  obtain ⟨start, first, hfirst, hread, hchecking, hidle, hresume, hsince, _,
    hoffers, hjoined⟩ := exists_tail_subscriber config log hbase
  have hsome : first.history.joinedAt.isSome = true := by
    rw [hjoined]
    rfl
  obtain ⟨state, last, hlast, hlastRead, _, hserved⟩ :=
    hfirst.serveFrames hchecking hidle hsome frames
  rw [hread] at hlastRead hserved
  have hall : last.history.offers = (between log base (base + frames)).map
      fun event => (event, .enqueued) := by
    rw [hserved.offers, hoffers, nil_append]
  have hanswer : last.answer log = [] := by
    refine Connection.answer_eq_nil (hserved.joinedAt.trans hjoined) ?_
    rw [hserved.resumeFrom, hresume]
    exact hbase
  have htracked := hlast.reached.sound.tracked 0 last hlast.found
  refine ⟨state, last, hlast, hlastRead, hserved.resumeFrom.trans hresume,
    hserved.since.trans hsince, ?_, ?_⟩
  · rw [hall]
    intro offer hoffer
    obtain ⟨event, _, rfl⟩ := mem_map.mp hoffer
    rfl
  · rw [htracked.delivered_liveTail hserved.idle.phase hserved.idle.queue
      hanswer, hall, acceptedOf_enqueuedAll]

end Tail

end EventStream
end Canon
