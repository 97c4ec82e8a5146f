import Canon.EventRefusals

/-!
# Refusals in every reachable state

While the extractor broadcasts, only the call it is in the middle of can be past
its first check, and a shutdown marks a connection as disconnected only after its
thread has returned.
-/

namespace Canon
namespace EventStream

open Sequenced Function List

section Server

variable {α : Type} {log : ℕ → List α} {config : ServerConfig} {state next : ServerState α}

structure ServerState.Orderly (config : ServerConfig) (state : ServerState α) : Prop where
  checks : ∀ call ∈ state.extractor.todo.tail, ∃ event, call.2 = .check event
  shutdowns : ∀ call ∈ state.shutdowns, call.1 < state.nextId
  settled : ∀ id conn, state.connections id = some conn →
    conn.Settled config (state.extractor.current id) ((id, .evict) ∈ state.shutdowns)

variable {id : ℕ} {conn : Connection α}

theorem ServerState.initial_orderly (config : ServerConfig) :
    (ServerState.initial config : ServerState α).Orderly config := by
  refine ⟨?_, ?_, ?_⟩
  all_goals simp [ServerState.initial, Extractor.todo, ServerState.shutdowns,
    Extractor.shutdowns, MainThread.shutdowns]

theorem Extractor.current_of_checks {extractor : Extractor α}
    (hchecks : ∀ call ∈ extractor.todo, ∃ event, call.2 = .check event)
    (id : ℕ) : ∀ op, extractor.current id = some op → ∃ event, op = .check event := by
  intro op hop
  unfold Extractor.current at hop
  cases htodo : extractor.todo with
  | nil => simp [htodo] at hop
  | cons call =>
    simp only [htodo] at hop
    split_ifs at hop
    cases hop
    exact hchecks call (htodo ▸ mem_cons_self)

theorem ServerState.Orderly.of_quiet (horderly : state.Orderly config) (hsound : state.Sound log)
    (hnextId : next.nextId = state.nextId) (hconnections : next.connections = state.connections)
    (hextractor : next.extractor.todo = state.extractor.todo ∨
      state.extractor.todo = [] ∧ ∀ call ∈ next.extractor.todo, ∃ event, call.2 = .check event)
    (hshutdowns : ∀ call ∈ next.shutdowns, call ∈ state.shutdowns ∨
      call ∈ shutdownCalls state.registry) : next.Orderly config := by
  have hdoomed : ∀ id, (id, .evict) ∈ next.shutdowns → (id, .evict) ∈ state.shutdowns := by
    intro id hmem
    refine (hshutdowns _ hmem).resolve_right ?_
    intro hcheck
    obtain ⟨_, _, heq⟩ := mem_map.mp hcheck
    cases heq
  refine ⟨?_, ?_, ?_⟩
  · rcases hextractor with hsame | ⟨_, hchecks⟩
    · rw [hsame]
      exact horderly.checks
    · exact fun call hcall => hchecks call (mem_of_mem_tail hcall)
  · intro call hcall
    rw [hnextId]
    rcases hshutdowns call hcall with hold | hnew
    · exact horderly.shutdowns call hold
    · obtain ⟨id, hid, rfl⟩ := mem_map.mp hnew
      exact hsound.registry id hid
  · intro id conn hfound
    rw [hconnections] at hfound
    have hsettled := horderly.settled id conn hfound
    rcases hextractor with hsame | ⟨hnone, hchecks⟩
    · have hcurrent : next.extractor.current id = state.extractor.current id := by
        rw [Extractor.current, hsame, Extractor.current]
      rw [hcurrent]
      exact ⟨hsettled.unbroken, hsettled.refused, hsettled.sending,
        fun hnow => hsettled.dooming (hnow.imp_right (hdoomed id)),
        hsettled.registered, hsettled.joined, hsettled.window⟩
    · have hcurrent : state.extractor.current id = none := by
        rw [Extractor.current, hnone]
      rw [hcurrent] at hsettled
      exact hsettled.idle (Extractor.current_of_checks hchecks id) (hdoomed id)

theorem ServerState.Orderly.of_update (horderly : state.Orderly config)
      (hnextId : next.nextId = state.nextId)
    (hconnections : next.connections = update state.connections id (some conn))
    (hchecks : ∀ call ∈ next.extractor.todo.tail, ∃ event, call.2 = .check event)
    (hcurrent : ∀ other, other ≠ id →
      (∀ op, next.extractor.current other = some op →
        ∃ event, op = .check event) ∧ state.extractor.current other = none ∨
        next.extractor.current other = state.extractor.current other)
    (hshutdowns : ∀ call ∈ next.shutdowns, call ∈ state.shutdowns ∨ call.1 = id ∧ id < state.nextId)
    (hsettled : conn.Settled config (next.extractor.current id)
      ((id, .evict) ∈ next.shutdowns)) : next.Orderly config := by
  refine ⟨hchecks, ?_, ?_⟩
  · intro call hcall
    rw [hnextId]
    rcases hshutdowns call hcall with hold | ⟨hid, hlt⟩
    · exact horderly.shutdowns call hold
    · rw [hid]
      exact hlt
  · intro other found hfound
    rw [hconnections] at hfound
    by_cases hother : other = id
    · subst hother
      rw [update_self] at hfound
      cases hfound
      exact hsettled
    · rw [update_of_ne hother] at hfound
      have hold := horderly.settled other found hfound
      have hdoomed : (other, .evict) ∈ next.shutdowns → (other, .evict) ∈ state.shutdowns := by
        intro hmem
        exact (hshutdowns _ hmem).resolve_right fun hself =>
          hother hself.1
      rcases hcurrent other hother with ⟨hidle, hnone⟩ | hsame
      · rw [hnone] at hold
        exact hold.idle hidle hdoomed
      · rw [hsame]
        exact ⟨hold.unbroken, hold.refused, hold.sending,
          fun hnow => hold.dooming (hnow.imp_right hdoomed),
          hold.registered, hold.joined, hold.window⟩

theorem ServerState.Orderly.setConnection (horderly : state.Orderly config) {registry : List ℕ}
    (hsettled : conn.Settled config (state.extractor.current id) ((id, .evict) ∈ state.shutdowns)) :
    ({ state.setConnection id conn with registry := registry } : ServerState α).Orderly config :=
  horderly.of_update rfl rfl horderly.checks (fun _ _ => .inr rfl)
    (fun _ hcall => .inl hcall) hsettled

theorem ServerState.Orderly.enqueue (horderly : state.Orderly config)
    (hsound : state.Sound log) {op : EnqueueOp α} {todo : List (ℕ × EnqueueOp α)}
    (hextractor : state.extractor = .broadcasting ((id, op) :: todo)) :
    ({ (state.enqueue config id op).1 with
        extractor := .broadcasting ((state.enqueue config id op).2 ++ todo) } :
      ServerState α).Orderly config := by
  have hchecks : ∀ call ∈ todo, ∃ event, call.2 = .check event := by
    have htail := horderly.checks
    rw [hextractor] at htail
    exact htail
  have hcurrent : ∀ other, state.extractor.current other =
      if id = other then some op else none := by
    intro other
    rw [Extractor.current, hextractor]
    rfl
  have hshutdowns : ∀ (connections : ℕ → Option (Connection α)) (calls : List (ℕ × EnqueueOp α)),
      ({ state with
          connections := connections
          extractor := .broadcasting calls } : ServerState α).shutdowns =
        state.shutdowns := by
    intro connections calls
    rw [ServerState.shutdowns, ServerState.shutdowns, hextractor]
    rfl
  cases hfound : state.connections id with
  | none =>
    rw [ServerState.enqueue_none hfound]
    refine ⟨fun call hcall => hchecks call (mem_of_mem_tail hcall), ?_, ?_⟩
    · rw [hshutdowns]
      exact horderly.shutdowns
    · intro other conn hother
      have hsettled := horderly.settled other conn hother
      have hne : id ≠ other := by
        rintro rfl
        rw [hfound] at hother
        cases hother
      rw [hcurrent, if_neg hne] at hsettled
      rw [hshutdowns]
      exact hsettled.idle (Extractor.current_of_checks hchecks other) fun hmem => hmem
  | some conn =>
    have hsettled := horderly.settled id conn hfound
    rw [hcurrent, if_pos rfl] at hsettled
    have hnext := hsettled.tryEnqueue (hsound.tracked id conn hfound).after_eq_nil
    rw [ServerState.enqueue_some hfound]
    cases hmore : (conn.tryEnqueue config op).2 with
    | none =>
      rw [hmore] at hnext
      refine horderly.of_update rfl rfl
        (fun call hcall => hchecks call (mem_of_mem_tail hcall)) ?_ ?_ ?_
      · intro other hother
        refine .inl ⟨Extractor.current_of_checks hchecks other, ?_⟩
        rw [hcurrent, if_neg (Ne.symm hother)]
      · intro call hcall
        exact .inl (hshutdowns _ _ ▸ hcall)
      · refine hnext.idle (Extractor.current_of_checks hchecks id) ?_
        exact fun hmem => hshutdowns _ _ ▸ hmem
    | some more =>
      rw [hmore] at hnext
      refine horderly.of_update rfl rfl hchecks ?_ ?_ ?_
      · intro other hother
        refine .inr ?_
        rw [hcurrent, if_neg (Ne.symm hother)]
        exact if_neg (Ne.symm hother)
      · intro call hcall
        exact .inl (hshutdowns _ _ ▸ hcall)
      · have hself : (Extractor.broadcasting ((id, more) ::
            todo)).current id = some more := if_pos rfl
        change Connection.Settled config ((Extractor.broadcasting ((id, more) :: todo)).current id)
          ((id, .evict) ∈ ServerState.shutdowns { state with
            connections := _
            extractor := .broadcasting _ }) _
        rw [hself, hshutdowns]
        exact hnext

section

variable (horderly : state.Orderly config)
include horderly

theorem ServerState.Orderly.shutDown
    (hsound : state.Sound log) {op : ShutdownOp} (hmem : (id, op) ∈ state.shutdowns)
    (hnextId : next.nextId = state.nextId)
    (hconnections : next.connections = (state.shutDown config id op).1.connections)
    (hextractor : next.extractor.todo = state.extractor.todo)
    (hshutdowns : ∀ call ∈ next.shutdowns, call ∈ state.shutdowns ∨
      call ∈ (state.shutDown config id op).2) : next.Orderly config := by
  have hcurrent : ∀ other, next.extractor.current other = state.extractor.current other := by
    intro other
    rw [Extractor.current, hextractor, Extractor.current]
  cases hfound : state.connections id with
  | none =>
    rw [ServerState.shutDown, hfound] at hconnections hshutdowns
    exact horderly.of_quiet hsound hnextId hconnections (.inl hextractor)
      fun call hcall => .inl ((hshutdowns call hcall).resolve_right (by simp))
  | some conn =>
    rw [ServerState.shutDown_some hfound] at hconnections hshutdowns
    obtain ⟨hsettled, hclosed⟩ := (horderly.settled id conn
      hfound).requestShutdown (fun hevict => hevict ▸ hmem)
    refine horderly.of_update hnextId hconnections
      (hextractor ▸ horderly.checks) (fun other _ => .inr (hcurrent other)) ?_ ?_
    · intro call hcall
      refine (hshutdowns call hcall).imp_right ?_
      intro hnew
      obtain ⟨more, _, rfl⟩ := mem_map.mp hnew
      exact ⟨rfl, hsound.connections id conn hfound⟩
    · rw [hcurrent]
      refine ⟨hsettled.unbroken, hsettled.refused, hsettled.sending, ?_,
        hsettled.registered, hsettled.joined, hsettled.window⟩
      rintro (hevict | hdoomed)
      · exact hsettled.dooming (.inl hevict)
      · rcases hshutdowns _ hdoomed with hold | hnew
        · exact hsettled.dooming (.inr hold)
        · obtain ⟨more, hmore, heq⟩ := mem_map.mp hnew
          rw [Option.mem_toList, (Prod.mk.inj heq).2] at hmore
          refine .inr ?_
          rw [(conn.requestShutdown_effect config op).2.1]
          exact hclosed hmore

theorem ServerState.Orderly.addConnection
    (hsound : state.Sound log) {resumeFrom : ℕ} {phase : Phase α}
    {written : List (OutboundFrame α)} {registry : List ℕ} :
    ({ state.addConnection (.new resumeFrom phase written state) with
        registry := registry } : ServerState α).Orderly config := by
  have hdoomed : (state.nextId, .evict) ∉ state.shutdowns := by
    intro hmem
    exact Nat.lt_irrefl _ (horderly.shutdowns _ hmem)
  have hcurrent : ∀ op, state.extractor.current state.nextId = some op → False := by
    intro op hop
    unfold Extractor.current at hop
    cases htodo : state.extractor.todo with
    | nil => simp [htodo] at hop
    | cons call =>
      simp only [htodo] at hop
      split_ifs at hop with htarget
      have hlt := hsound.todo call (htodo ▸ mem_cons_self)
      omega
  have hwindow : state.read ≤ state.snapshots + 1 := by
    unfold ServerState.snapshots
    split
    · omega
    · exact Nat.le_succ _
  refine ⟨horderly.checks, ?_, ?_⟩
  · intro call hcall
    exact Nat.lt_succ_of_lt (horderly.shutdowns call hcall)
  · intro id conn hfound
    change update state.connections state.nextId _ id = _ at hfound
    by_cases hnew : id = state.nextId
    · subst hnew
      rw [update_self] at hfound
      cases hfound
      refine Connection.Settled.idle (.fresh rfl rfl rfl hwindow) ?_ hdoomed
      intro op hop
      exact (hcurrent op hop).elim
    · rw [update_of_ne hnew] at hfound
      exact horderly.settled id conn hfound

theorem ServerState.Orderly.subscribe
    (hsound : state.Sound log) (handshake : Option ℕ) (io : Bool) :
    (state.subscribe config handshake io).Orderly config := by
  unfold ServerState.subscribe
  cases handshake with
  | none => exact horderly.addConnection hsound
  | some =>
    by_cases hfull : config.maxSubscribers ≠ 0 ∧ config.maxSubscribers ≤ state.registry.length
    · simp only
      rw [if_pos hfull]
      exact horderly.addConnection hsound
    · simp only
      rw [if_neg hfull]
      exact horderly.addConnection hsound

theorem ServerState.Orderly.connectionStep
    (hsound : state.Sound log) {io : Bool} (hfound : state.connections id = some conn)
    (hstep : state.connectionStep config id io conn = some next) :
    next.Orderly config := by
  have hsettled := horderly.settled id conn hfound
  obtain ⟨other, registry, rfl, hmoves, hjoined⟩ := ServerState.connectionStep_moves hstep
  refine horderly.setConnection (hsettled.moves hmoves ?_)
  intro hsome hnone
  rcases hjoined with hphase | hsame
  · -- the thread has not asked before, so all offers came before the answer
    have htracked := hsound.tracked id conn hfound
    have hunserved : conn.history.joinedAt = none := htracked.streams_of hphase
    have hoffers : conn.history.offers = conn.history.before := by
      rw [History.offers, htracked.after_eq_nil hunserved, append_nil]
    rw [← hoffers] at hnone ⊢
    exact hsettled.allEnqueued_of_registered hphase hnone
  · rw [hsame] at hsome
    exact hsettled.joined hsome hnone

end

theorem ServerState.Orderly.effect (horderly : state.Orderly config) (hsound : state.Sound log)
    (heffect : state.Effect config log next) : next.Orderly config := by
  cases heffect with
  | quiet _ _ _ hrests hcalls =>
    exact horderly.of_quiet hsound rfl rfl (.inl hrests.todo) hcalls
  | asked id op _ _ hmem hrests hcalls =>
    obtain ⟨_, _, hnextId⟩ := @state.shutDown_frame _ config id op
    exact horderly.shutDown hsound hmem hnextId rfl hrests.todo hcalls
  | extracted hlocked =>
    obtain ⟨cache, hpush, _⟩ := hsound.cache.pushAll
    simp only [ServerState.extract, hpush]
    refine horderly.of_quiet hsound rfl rfl
      (.inl (ServerState.snapshots_of_not_locked hlocked).2.symm) ?_
    exact fun call hcall => .inl (mem_append_right _ hcall)
  | snapshot events hextractor =>
    refine horderly.of_quiet hsound rfl rfl (.inr ⟨by rw [hextractor]; rfl, ?_⟩) ?_
    · intro call hcall
      obtain ⟨event, _, hcalls⟩ := mem_flatMap.mp hcall
      obtain ⟨_, _, rfl⟩ := mem_map.mp hcalls
      exact ⟨event, rfl⟩
    · exact fun call hcall => .inl (mem_append_right _ hcall)
  | enqueued _ _ _ hextractor => exact horderly.enqueue hsound hextractor
  | joined handshake io => exact horderly.subscribe hsound handshake io
  | moved _ _ _ _ hfound hstep => exact horderly.connectionStep hsound hfound hstep
  | restarted => exact ServerState.initial_orderly config

theorem ServerState.Reached.orderly (hreached : state.Reached config log) :
    state.Orderly config := by
  have hstep : ∀ before call after, serverStep config log before call = .ok after →
      before.Sound log ∧ before.Orderly config → after.Sound log ∧ after.Orderly config := by
    rintro before call after hstep ⟨hsound, horderly⟩
    have heffect := serverStep_effect hstep
    exact ⟨hsound.effect heffect, horderly.effect hsound heffect⟩
  exact (hreached.invariant hstep ⟨ServerState.initial_sound config,
    ServerState.initial_orderly config⟩).2

end Server

end EventStream
end Canon
