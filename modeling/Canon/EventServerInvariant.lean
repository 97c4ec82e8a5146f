import Canon.EventDispatch

/-!
# The invariant of the event server

In every state that the server can reach, the cache holds the frames read so far,
the calls of a broadcast are for registered connections, and every connection is
tracked.
-/

namespace Canon
namespace EventStream

open Sequenced Function List

/-! ## What a step does -/

section Effects

variable {α : Type}

def Extractor.shutdowns : Extractor α → List (ℕ × ShutdownOp)
  | .halting todo => todo
  | _ => []

def MainThread.shutdowns : MainThread → List (ℕ × ShutdownOp)
  | .broadcasting todo => todo
  | _ => []

/-- The calls of `request_shutdown` which the extractor and the main thread still
have to make. -/
def ServerState.shutdowns (state : ServerState α) : List (ℕ × ShutdownOp) :=
  state.extractor.shutdowns ++ state.main.shutdowns

/-- The extractor can go there without a change of the calls to come. -/
structure ServerState.Rests (state : ServerState α) (extractor : Extractor α) : Prop where
  todo : extractor.todo = state.extractor.todo
  pushed : ∀ events, extractor = .pushed events → state.extractor = .pushed events
  snapshots : ({ state with extractor := extractor } : ServerState α).snapshots = state.snapshots

inductive ServerState.Effect (config : ServerConfig) (log : ℕ → List α) (state : ServerState α) :
    ServerState α → Prop
  | quiet (extractor : Extractor α) (main : MainThread) (stop : Bool)
      (hrests : state.Rests extractor)
      (hcalls : ∀ call ∈ extractor.shutdowns ++ main.shutdowns, call ∈ state.shutdowns ∨
        call ∈ shutdownCalls state.registry) :
      Effect config log state { state with extractor := extractor, main := main, stop := stop }
  | asked (id : ℕ) (op : ShutdownOp) (extractor : Extractor α) (main : MainThread)
      (hmem : (id, op) ∈ state.shutdowns) (hrests : state.Rests extractor)
      (hcalls : ∀ call ∈ extractor.shutdowns ++ main.shutdowns, call ∈ state.shutdowns ∨
        call ∈ (state.shutDown config id op).2) :
      Effect config log state
        { (state.shutDown config id op).1 with extractor := extractor, main := main }
  | extracted (hlocked : state.locked = false) : Effect config log state (state.extract log)
  | snapshot (events : List (CachedEvent α)) (hextractor : state.extractor = .pushed events) :
      Effect config log state
        { state with extractor := .broadcasting (broadcastCalls state.registry events) }
  | enqueued (id : ℕ) (op : EnqueueOp α) (todo : List (ℕ × EnqueueOp α))
      (hextractor : state.extractor = .broadcasting ((id, op) :: todo)) :
      Effect config log state { (state.enqueue config id op).1 with
        extractor := .broadcasting ((state.enqueue config id op).2 ++ todo) }
  | joined (handshake : Option ℕ) (io : Bool) :
      Effect config log state (state.subscribe config handshake io)
  | moved (id : ℕ) (conn : Connection α) (io : Bool) (next : ServerState α)
      (hfound : state.connections id = some conn)
      (hstep : state.connectionStep config id io conn = some next) : Effect config log state next
  | restarted : Effect config log state (.initial config)

variable {log : ℕ → List α} {config : ServerConfig} {state next : ServerState α} {stop : Bool}

theorem ServerState.Rests.refl (state : ServerState α) : state.Rests state.extractor :=
  ⟨rfl, fun _ hevents => hevents, rfl⟩

theorem ServerState.snapshots_of_not_locked (hlocked : state.locked = false) :
    state.snapshots = state.read ∧ state.extractor.todo = [] := by
  unfold ServerState.locked at hlocked
  unfold ServerState.snapshots
  cases hextractor : state.extractor with
  | pushed | broadcasting => simp [hextractor] at hlocked
  | checking | reading | failing | halting | returned => exact ⟨rfl, rfl⟩

theorem ServerState.Effect.idle {extractor : Extractor α}
    (hidle : state.snapshots = state.read ∧ state.extractor.todo = [])
    (hlocked : ({ state with extractor := extractor } : ServerState α).locked = false)
    (hcalls : ∀ call ∈ extractor.shutdowns, call ∈ shutdownCalls state.registry) :
    state.Effect config log { state with extractor := extractor, stop := stop } := by
  obtain ⟨hread, htodo⟩ := ServerState.snapshots_of_not_locked hlocked
  refine .quiet extractor state.main stop ⟨htodo.trans hidle.2.symm, ?_, hread.trans hidle.1.symm⟩ ?_
  · rintro events rfl
    cases hlocked
  · intro call hcall
    rcases mem_append.mp hcall with hnew | hold
    · exact .inr (hcalls call hnew)
    · exact .inl (mem_append_right _ hold)

theorem ServerState.Effect.setMain {main : MainThread}
    (hcalls : ∀ call ∈ main.shutdowns, call ∈ state.main.shutdowns ∨
      call ∈ shutdownCalls state.registry) :
    state.Effect config log { state with main := main, stop := stop } := by
  refine .quiet state.extractor main stop (.refl state) ?_
  intro call hcall
  rcases mem_append.mp hcall with hold | hnew
  · exact .inl (mem_append_left _ hold)
  · exact (hcalls call hnew).imp_left (mem_append_right _)

theorem ServerState.shutDown_frame (state : ServerState α) (id : ℕ) (op : ShutdownOp) :
    (state.shutDown config id op).1.extractor = state.extractor ∧
      (state.shutDown config id op).1.main = state.main ∧
      (state.shutDown config id op).1.nextId = state.nextId := by
  unfold ServerState.shutDown
  cases state.connections id with
  | none | some => exact ⟨rfl, rfl, rfl⟩

theorem ServerState.extractorStep_effect {outcome : ReadOutcome}
    (hstep : state.extractorStep config log outcome = some next) :
    state.Effect config log next := by
  unfold ServerState.extractorStep at hstep
  cases hextractor : state.extractor with
  | checking =>
    simp only [hextractor] at hstep
    cases hstep
    refine .idle (by simp [ServerState.snapshots, hextractor, Extractor.todo]) ?_ ?_
    all_goals by_cases hstop : state.stop = true
    all_goals simp [ServerState.locked, Extractor.shutdowns, hstop]
  | reading =>
    have hlocked : state.locked = false := by
      rw [ServerState.locked, hextractor]
    simp only [hextractor] at hstep
    cases outcome with
    | nothing | failure =>
      cases hstep
      exact .idle (ServerState.snapshots_of_not_locked hlocked) rfl (forall_mem_nil _)
    | frame =>
      cases hstep
      exact .extracted hlocked
  | pushed events =>
    simp only [hextractor] at hstep
    cases hstep
    exact .snapshot events hextractor
  | broadcasting todo =>
    cases todo with
    | nil =>
      simp only [hextractor] at hstep
      cases hstep
      exact .idle (by simp [ServerState.snapshots, hextractor, Extractor.todo]) rfl
        (forall_mem_nil _)
    | cons call todo =>
      simp only [hextractor] at hstep
      cases hstep
      exact .enqueued call.1 call.2 todo hextractor
  | failing =>
    simp only [hextractor] at hstep
    cases hstep
    exact .idle (by simp [ServerState.snapshots, hextractor, Extractor.todo]) rfl
      fun _ hcall => hcall
  | halting todo =>
    cases todo with
    | nil =>
      simp only [hextractor] at hstep
      cases hstep
      exact .idle (by simp [ServerState.snapshots, hextractor, Extractor.todo]) rfl
        (forall_mem_nil _)
    | cons call todo =>
      obtain ⟨id, op⟩ := call
      simp only [hextractor] at hstep
      cases hstep
      have hcalls : state.shutdowns = (id, op) :: todo ++ state.main.shutdowns := by
        rw [ServerState.shutdowns, hextractor]
        rfl
      obtain ⟨_, hmain, _⟩ := @state.shutDown_frame _ config id op
      refine .asked id op _ (state.shutDown config id op).1.main ?_ ⟨?_, by simp, ?_⟩ ?_
      · rw [hcalls]
        exact mem_cons_self
      · rw [hextractor]
        rfl
      · simp only [ServerState.snapshots, hextractor]
      · intro other hother
        rw [hmain] at hother
        rw [hcalls]
        rcases mem_append.mp hother with hnew | hold
        · exact (mem_append.mp hnew).symm.imp_left fun hrest =>
            mem_append_left _ (mem_cons_of_mem _ hrest)
        · exact .inl (mem_append_right _ hold)
  | returned => simp [hextractor] at hstep

theorem ServerState.mainStep_effect (hstep : state.mainStep config = some next) :
    state.Effect config log next := by
  unfold ServerState.mainStep at hstep
  cases hmain : state.main with
  | accepting =>
    simp only [hmain] at hstep
    split_ifs at hstep
    cases hstep
    exact .setMain (forall_mem_nil _)
  | stopping =>
    simp only [hmain] at hstep
    cases hstep
    exact .setMain fun _ hcall => .inr hcall
  | broadcasting todo =>
    cases todo with
    | nil =>
      simp only [hmain] at hstep
      cases hstep
      exact .setMain (forall_mem_nil _)
    | cons call todo =>
      obtain ⟨id, op⟩ := call
      simp only [hmain] at hstep
      cases hstep
      have hcalls : state.shutdowns = state.extractor.shutdowns ++ (id, op) :: todo := by
        rw [ServerState.shutdowns, hmain]
        rfl
      obtain ⟨hextractor, _⟩ := @state.shutDown_frame _ config id op
      refine .asked id op (state.shutDown config id op).1.extractor _ ?_ ?_ ?_
      · rw [hcalls]
        exact mem_append_right _ mem_cons_self
      · rw [hextractor]
        exact .refl state
      · intro other hother
        rw [hextractor] at hother
        rw [hcalls]
        rcases mem_append.mp hother with hold | hrest
        · exact .inl (mem_append_left _ hold)
        · exact (mem_append.mp hrest).symm.imp_left fun hold =>
            mem_append_right _ (mem_cons_of_mem _ hold)
  | finished => simp [hmain] at hstep

theorem some_of_elim {result : Option (ServerState α)}
    (hresult : result.elim (.error Blocked.blocked) Except.ok = .ok next) : result = some next := by
  cases result with
  | none => cases hresult
  | some => rw [Except.ok.inj hresult]

theorem serverStep_effect {label : ServerLabel}
    (hstep : serverStep config log state label = .ok next) : state.Effect config log next := by
  cases label with
  | extractor => exact ServerState.extractorStep_effect (some_of_elim hstep)
  | main => exact ServerState.mainStep_effect (some_of_elim hstep)
  | stop =>
    cases hstep
    exact .setMain fun _ hcall => .inl hcall
  | subscribe handshake io =>
    cases hstep
    exact .joined handshake io
  | connection id io =>
    obtain ⟨conn, hfound, hconnection⟩ := Option.bind_eq_some_iff.mp (some_of_elim hstep)
    exact .moved id conn io next hfound hconnection
  | restart =>
    cases hstep
    exact .restarted

end Effects

/-! ## The whole server -/

section Server

variable {α : Type} {log : ℕ → List α} {config : ServerConfig} {state next : ServerState α}

structure ServerState.Sound (log : ℕ → List α) (state : ServerState α) : Prop where
  cache : state.cache.Holds (upTo log state.read)
  pushed : ∀ events, state.extractor = .pushed events →
    0 < state.read ∧ events = batch log state.read
  nodup : state.registry.Nodup
  registry : ∀ id ∈ state.registry, id < state.nextId
  todo : ∀ call ∈ state.extractor.todo, call.1 < state.nextId
  connections : ∀ id conn, state.connections id = some conn → id < state.nextId
  tracked : ∀ id conn, state.connections id = some conn →
    conn.Tracked log state.snapshots (id ∈ state.registry) (coming id state.extractor.todo)

variable {id : ℕ} {conn : Connection α}

theorem ServerState.initial_sound (config : ServerConfig) :
    (ServerState.initial config : ServerState α).Sound log := by
  refine ⟨EventCache.new_holds _ config.keepHistory_pos, ?_, nodup_nil, ?_, ?_, ?_, ?_⟩
  all_goals simp [ServerState.initial, Extractor.todo]

theorem ServerState.Sound.rests (hsound : state.Sound log) {extractor : Extractor α}
    (hrests : state.Rests extractor) (main : MainThread) (stop : Bool) :
    ({ state with extractor := extractor, main := main, stop := stop } :
      ServerState α).Sound log where
  cache := hsound.cache
  pushed events hevents := hsound.pushed events (hrests.pushed events hevents)
  nodup := hsound.nodup
  registry := hsound.registry
  todo := by
    rw [hrests.todo]
    exact hsound.todo
  connections := hsound.connections
  tracked := by
    intro id conn hfound
    have htracked := hsound.tracked id conn hfound
    rw [← hrests.todo, ← hrests.snapshots] at htracked
    exact htracked

theorem ServerState.Sound.of_update (hsound : state.Sound log)
    (hcache : next.cache = state.cache) (hread : next.read = state.read)
    (hnextId : next.nextId = state.nextId) (hid : id < state.nextId)
    (hconnections : next.connections = update state.connections id (some conn))
    (hnodup : next.registry.Nodup)
    (hregistry : ∀ other, other ≠ id → (other ∈ next.registry ↔ other ∈ state.registry))
    (hcoming : ∀ other, other ≠ id →
      coming other next.extractor.todo = coming other state.extractor.todo)
    (htodo : ∀ call ∈ next.extractor.todo, call.1 < state.nextId)
    (hpushed : ∀ events, next.extractor = .pushed events → state.extractor = .pushed events)
    (hsnapshots : next.snapshots = state.snapshots)
    (htracked : conn.Tracked log state.snapshots
      (id ∈ next.registry) (coming id next.extractor.todo)) :
    next.Sound log where
  cache := by
    rw [hcache, hread]
    exact hsound.cache
  pushed := by
    intro events hevents
    rw [hread]
    exact hsound.pushed events (hpushed events hevents)
  nodup := hnodup
  registry := by
    intro other hmem
    rw [hnextId]
    by_cases hother : other = id
    · rw [hother]
      exact hid
    · exact hsound.registry other ((hregistry other hother).mp hmem)
  todo := by
    rw [hnextId]
    exact htodo
  connections := by
    intro other found hfound
    rw [hnextId]
    rw [hconnections] at hfound
    by_cases hother : other = id
    · rw [hother]
      exact hid
    · rw [update_of_ne hother] at hfound
      exact hsound.connections other found hfound
  tracked := by
    intro other found hfound
    rw [hconnections] at hfound
    rw [hsnapshots]
    by_cases hother : other = id
    · subst hother
      rw [update_self] at hfound
      cases hfound
      exact htracked
    · rw [update_of_ne hother] at hfound
      rw [hcoming other hother]
      have hiff : other ∈ next.registry ↔ other ∈ state.registry := hregistry other hother
      rw [hiff]
      exact hsound.tracked other found hfound

theorem ServerState.snapshots_le_read (state : ServerState α) : state.snapshots ≤ state.read := by
  unfold ServerState.snapshots
  split
  · exact Nat.sub_le _ _
  · exact Nat.le_refl _

theorem ServerState.Sound.setConnection (hsound : state.Sound log)
    {other : Connection α} (hfound : state.connections id = some conn)
    (htracked : other.Tracked log state.snapshots (id ∈ state.registry)
      (coming id state.extractor.todo)) : (state.setConnection id other).Sound log :=
  hsound.of_update rfl rfl rfl (hsound.connections id conn hfound) rfl
    hsound.nodup (fun _ _ => Iff.rfl) (fun _ _ => rfl) hsound.todo
    (fun _ hevents => hevents) rfl htracked

section

variable (hsound : state.Sound log)
include hsound

theorem ServerState.Sound.extract
    (hlocked : state.locked = false) : (state.extract log).Sound log := by
  obtain ⟨cache, hpush, hholds⟩ := hsound.cache.pushAll
  obtain ⟨hread, htodo⟩ := ServerState.snapshots_of_not_locked hlocked
  have hnext : state.extract log =
      { state with
        cache := cache, read := state.read + 1,
        extractor := .pushed (batch log (state.read + 1)) } := by
    simp only [ServerState.extract, hpush]
  rw [hnext]
  refine ⟨hholds, ?_, hsound.nodup, hsound.registry, by simp [Extractor.todo],
    hsound.connections, ?_⟩
  · intro events hevents
    exact ⟨Nat.succ_pos _, (Extractor.pushed.inj hevents).symm⟩
  · intro id conn hfound
    have htracked := hsound.tracked id conn hfound
    rw [hread, htodo] at htracked
    exact htracked

theorem ServerState.Sound.snapshot {events : List (CachedEvent α)}
    (hextractor : state.extractor = .pushed events) :
    ({ state with
        extractor := .broadcasting (broadcastCalls state.registry events) } :
      ServerState α).Sound log := by
  obtain ⟨hpositive, hevents⟩ := hsound.pushed events hextractor
  have hsnapshots : state.snapshots + 1 = state.read := by
    rw [ServerState.snapshots, hextractor]
    simp only
    omega
  refine ⟨hsound.cache, by simp, hsound.nodup, hsound.registry, ?_, hsound.connections, ?_⟩
  · intro call hcall
    obtain ⟨event, _, hcalls⟩ := mem_flatMap.mp hcall
    obtain ⟨id, hid, rfl⟩ := mem_map.mp hcalls
    exact hsound.registry id hid
  · intro id conn hfound
    have htracked := hsound.tracked id conn hfound
    rw [hextractor] at htracked
    change conn.Tracked log state.read (id ∈ state.registry)
      (coming id (broadcastCalls state.registry events))
    rw [coming_broadcastCalls hsound.nodup, ← hsnapshots]
    refine htracked.snapshot ?_ ?_
    · intro hmember
      rw [if_pos hmember, hsnapshots, hevents]
    · intro hother
      rw [if_neg hother]

theorem ServerState.Sound.enqueue {op : EnqueueOp α} {todo : List (ℕ × EnqueueOp α)}
    (hextractor : state.extractor = .broadcasting ((id, op) :: todo)) :
    ({ (state.enqueue config id op).1 with
        extractor := .broadcasting ((state.enqueue config id op).2 ++ todo) } :
      ServerState α).Sound log := by
  have hcalls := hsound.todo
  rw [hextractor] at hcalls
  have hsnapshots : state.snapshots = state.read := by
    rw [ServerState.snapshots, hextractor]
  unfold ServerState.enqueue
  cases hfound : state.connections id with
  | none =>
    refine ⟨hsound.cache, by simp, hsound.nodup, hsound.registry,
      fun call hcall => hcalls call (mem_cons_of_mem _ hcall), hsound.connections, ?_⟩
    intro other conn hother
    have hne : id ≠ other := by
      rintro rfl
      rw [hfound] at hother
      cases hother
    have htracked := hsound.tracked other conn hother
    rw [hsnapshots, hextractor] at htracked
    change conn.Tracked log state.read _ (coming other ((id, op) :: todo)) at htracked
    rw [coming_cons_of_ne hne] at htracked
    exact htracked
  | some conn =>
    have htracked := hsound.tracked id conn hfound
    rw [hextractor] at htracked
    change conn.Tracked log state.snapshots _ (coming id ((id, op) :: todo)) at htracked
    rw [coming_cons_self] at htracked
    have hid := hsound.connections id conn hfound
    have hmore : ∀ other, coming other
        ((conn.tryEnqueue config op).2.toList.map fun op => (id, op)) =
        if id = other then ((conn.tryEnqueue config op).2.bind
          EnqueueOp.event?).toList else [] := by
      intro other
      cases (conn.tryEnqueue config op).2 with
      | none => simp
      | some more =>
        by_cases hother : id = other
        · subst hother
          rw [if_pos rfl]
          exact (coming_cons_self id more []).trans (append_nil _)
        · rw [if_neg hother]
          exact coming_cons_of_ne hother more []
    refine hsound.of_update rfl rfl rfl hid rfl hsound.nodup
      (fun _ _ => Iff.rfl) ?_ ?_ (by simp) hsnapshots.symm ?_
    · intro other hother
      rw [hextractor]
      change coming other (_ ++ todo) = coming other ((id, op) :: todo)
      rw [coming_append, hmore, if_neg (Ne.symm hother), coming_cons_of_ne (Ne.symm hother)]
      rfl
    · intro call hcall
      rcases mem_append.mp hcall with hnew | hold
      · obtain ⟨more, _, rfl⟩ := mem_map.mp hnew
        exact hid
      · exact hcalls call (mem_cons_of_mem _ hold)
    · change (conn.tryEnqueue config op).1.Tracked log
        state.snapshots (id ∈ state.registry) (coming id (_ ++ todo))
      rw [coming_append, hmore, if_pos rfl]
      exact htracked.tryEnqueue

end

theorem Connection.new_tracked (resumeFrom : ℕ) {phase : Phase α}
    {written : List (OutboundFrame α)} {member : Prop}
    (hphase : phase = .registered ∧ written = [] ∧ member ∨
      phase = .closed ∧ (∀ frame ∈ written, frame = .invalidRequest ∨ frame = .lagExceeded 0)) :
    (Connection.new resumeFrom phase written state).Tracked log state.snapshots member [] := by
  have hdelivered : (Connection.new resumeFrom phase written state).delivered = [] := by
    rw [Connection.delivered, filterMap_eq_nil_iff]
    intro frame hframe
    rcases hphase with ⟨_, hnone, _⟩ | ⟨_, hrefused⟩
    · change frame ∈ written at hframe
      rw [hnone] at hframe
      cases hframe
    · rcases hrefused frame hframe with rfl | rfl
      all_goals rfl
  refine ⟨⟨state.snapshots, Nat.le_refl _, Nat.le_refl _, fun _ => rfl, ?_⟩,
    rfl, fun _ => rfl, ?_, ?_, ?_, ?_, ?_, ?_⟩
  · refine ⟨?_, rfl⟩
    change [] ++ [] = between log state.snapshots state.snapshots
    rw [between_of_le (Nat.le_refl _)]
    rfl
  · intro hserving
    rcases hphase with ⟨rfl, _⟩ | ⟨rfl, _⟩
    all_goals cases hserving
  · rw [hdelivered]
    exact nil_prefix
  · rcases hphase with ⟨rfl, _⟩ | ⟨rfl, _⟩
    · rfl
    · trivial
  · rw [hdelivered]
    rfl
  · intro frame hmem _
    have hmem' : frame ∈ written := hmem
    rcases hphase with ⟨_, rfl, _⟩ | ⟨rfl, hrefused⟩
    · cases hmem'
    · refine ⟨?_, .inr rfl⟩
      rcases hrefused frame hmem' with rfl | rfl
      · trivial
      · change 0 = lastSeq _
        rw [hdelivered]
        rfl
  · intro hopen
    rcases hphase with ⟨_, _, hmember⟩ | ⟨hclosed, _⟩
    · exact hmember
    · exact absurd hclosed hopen

theorem ServerState.Sound.addConnection (hsound : state.Sound log) {registry : List ℕ}
    (hregistry : registry = state.registry ∨ registry = state.registry ++ [state.nextId])
    (htracked : conn.Tracked log state.snapshots (state.nextId ∈ registry) []) :
    ({ state.addConnection conn with registry := registry } : ServerState α).Sound log := by
  have hfresh : state.nextId ∉ state.registry := by
    intro hmem
    exact Nat.lt_irrefl _ (hsound.registry state.nextId hmem)
  have hmember : ∀ id, id ≠ state.nextId → (id ∈ registry ↔ id ∈ state.registry) := by
    intro id hid
    rcases hregistry with rfl | rfl
    · exact Iff.rfl
    · rw [mem_append, mem_singleton]
      exact or_iff_left hid
  have hnone : coming state.nextId state.extractor.todo = [] := coming_of_lt hsound.todo
  refine ⟨hsound.cache, hsound.pushed, ?_, ?_, ?_, ?_, ?_⟩
  · rcases hregistry with rfl | rfl
    · exact hsound.nodup
    · exact List.Nodup.append hsound.nodup (nodup_singleton _) (disjoint_singleton.mpr hfresh)
  · intro id hid
    change id < state.nextId + 1
    by_cases hnew : id = state.nextId
    · omega
    · have hold := hsound.registry id ((hmember id hnew).mp hid)
      omega
  · intro call hcall
    exact Nat.lt_succ_of_lt (hsound.todo call hcall)
  · intro id found hfound
    change update state.connections state.nextId _ id = _ at hfound
    change id < state.nextId + 1
    by_cases hnew : id = state.nextId
    · omega
    · rw [update_of_ne hnew] at hfound
      have hold := hsound.connections id found hfound
      omega
  · intro id found hfound
    change update state.connections state.nextId _ id = _ at hfound
    by_cases hnew : id = state.nextId
    · subst hnew
      rw [update_self] at hfound
      cases hfound
      change conn.Tracked log state.snapshots (state.nextId ∈ registry)
        (coming state.nextId state.extractor.todo)
      rw [hnone]
      exact htracked
    · rw [update_of_ne hnew] at hfound
      rw [hmember id hnew]
      exact hsound.tracked id found hfound

theorem ServerState.Sound.subscribe (hsound : state.Sound log) (handshake : Option ℕ) (io : Bool) :
    (state.subscribe config handshake io).Sound log := by
  have hrefused : ∀ (resumeFrom : ℕ) (frame : OutboundFrame α),
      frame = .invalidRequest ∨ frame = .lagExceeded 0 →
      (state.addConnection (.new resumeFrom .closed
        (if io then [frame] else []) state)).Sound log := by
    intro resumeFrom frame hframe
    refine hsound.addConnection (.inl rfl) (Connection.new_tracked _ (.inr ⟨rfl, ?_⟩))
    intro other hother
    cases io with
    | false => cases hother
    | true =>
      rw [mem_singleton.mp hother]
      exact hframe
  unfold ServerState.subscribe
  cases handshake with
  | none => exact hrefused 0 _ (.inl rfl)
  | some resumeFrom =>
    by_cases hfull : config.maxSubscribers ≠ 0 ∧ config.maxSubscribers ≤ state.registry.length
    · simp only
      rw [if_pos hfull]
      exact hrefused resumeFrom _ (.inr rfl)
    · simp only
      rw [if_neg hfull]
      exact hsound.addConnection (.inr rfl) (Connection.new_tracked _ (.inl ⟨rfl, rfl, by simp⟩))

theorem ServerState.Sound.connectionStep (hsound : state.Sound log) {io : Bool}
    (hfound : state.connections id = some conn)
    (hstep : state.connectionStep config id io conn = some next) :
    next.Sound log := by
  have htracked := hsound.tracked id conn hfound
  have hadvance : (conn.advance config state.stop io).map
      (fun other => state.setConnection id other) = some next →
      next.Sound log := by
    intro hmap
    obtain ⟨other, hother, rfl⟩ := Option.map_eq_some_iff.mp hmap
    exact hsound.setConnection hfound (htracked.advance hother)
  unfold ServerState.connectionStep at hstep
  split at hstep
  · rename_i hphase
    split_ifs at hstep with hlocked
    cases hstep
    obtain ⟨hread, htodo⟩ := ServerState.snapshots_of_not_locked (Bool.not_eq_true _ ▸ hlocked)
    refine hsound.setConnection hfound ?_
    rw [htodo] at htracked ⊢
    rw [← hread]
    refine htracked.backfill hphase ?_
    rw [hread]
    exact hsound.cache
  · cases hstep
    refine hsound.of_update rfl rfl rfl
      (hsound.connections id conn hfound) rfl (hsound.nodup.erase id)
      ?_ (fun _ _ => rfl) hsound.todo (fun _ hevents => hevents) rfl
      (htracked.unregister hsound.nodup.not_mem_erase)
    intro other hother
    exact mem_erase_of_ne hother
  · exact hadvance hstep

theorem ServerState.Sound.effect (hsound : state.Sound log) (heffect : state.Effect config log next) :
    next.Sound log := by
  cases heffect with
  | quiet _ main stop hrests => exact hsound.rests hrests main stop
  | asked id op extractor main _ hrests =>
    cases hfound : state.connections id with
    | none =>
      rw [ServerState.shutDown, hfound]
      exact hsound.rests hrests main state.stop
    | some conn =>
      have htracked := (hsound.tracked id conn hfound).requestShutdown config op
      rw [ServerState.shutDown_some hfound]
      exact (hsound.setConnection hfound htracked).rests
        ⟨hrests.todo, hrests.pushed, hrests.snapshots⟩ main state.stop
  | extracted hlocked => exact hsound.extract hlocked
  | snapshot _ hextractor => exact hsound.snapshot hextractor
  | enqueued _ _ _ hextractor => exact hsound.enqueue hextractor
  | joined handshake io => exact hsound.subscribe handshake io
  | moved _ _ _ _ hfound hstep => exact hsound.connectionStep hfound hstep
  | restarted => exact ServerState.initial_sound config

theorem ServerState.Reached.sound (hreached : state.Reached config log) : state.Sound log :=
  Reachable.invariant (fun _ _ _ hstep hsound => hsound.effect (serverStep_effect hstep)) hreached
    (ServerState.initial_sound config)

end Server

/-! ## The end of a session -/

section Endings

variable {α : Type} {log : ℕ → List α} {config : ServerConfig} {state next : ServerState α}
  {conn other : Connection α}

/-- All frames of the connection but the last are events. -/
def Connection.EndsOnce (conn : Connection α) : Prop :=
  ∀ frame ∈ conn.written.dropLast, frame.event? ≠ none

theorem Connection.advance_written {stop io : Bool}
    (hadvance : conn.advance config stop io = some other) :
    other.written = conn.written ∨
      conn.phase.Running ∧ ∃ frame, other.written = conn.written ++ [frame] := by
  unfold Connection.advance at hadvance
  cases hphase : conn.phase with
  | registered | unregistering | closed => simp [hphase] at hadvance
  | backfilled | entering | looping | checking | draining =>
    simp only [hphase] at hadvance
    split at hadvance <;> cases hadvance <;> exact .inl rfl
  | truncating | closing =>
    simp only [hphase] at hadvance
    split at hadvance <;> cases hadvance
    · exact .inr ⟨by simp [Phase.Running], _, rfl⟩
    · exact .inl rfl
  | backfilling rest =>
    cases rest <;> simp only [hphase] at hadvance
    · cases hadvance
      exact .inl rfl
    · split at hadvance <;> cases hadvance
      · exact .inr ⟨by simp [Phase.Running], _, rfl⟩
      · exact .inl rfl
  | requesting op =>
    simp only [hphase] at hadvance
    have hwritten := (conn.requestShutdown_effect config op).1.written
    split at hadvance <;> cases hadvance <;> exact .inl hwritten
  | pulling pending =>
    cases pending <;> simp only [hphase] at hadvance
    · split at hadvance
      · cases hadvance
        exact .inl rfl
      · split at hadvance <;> cases hadvance <;> exact .inl rfl
    · cases hadvance
      exact .inl rfl
  | handling item =>
    cases item <;> simp only [hphase] at hadvance
    · split at hadvance <;> cases hadvance
      · exact .inr ⟨by simp [Phase.Running], _, rfl⟩
      · exact .inl rfl
    · cases hadvance
      exact .inl rfl

theorem ServerState.endsOnce_effect (hsound : state.Sound log)
    (hends : ∀ id conn, state.connections id = some conn → conn.EndsOnce)
    (heffect : state.Effect config log next) {id : ℕ} (hfound : next.connections id = some conn) :
    conn.EndsOnce := by
  have hset : ∀ place (changed : Connection α), changed.EndsOnce →
      (update state.connections place (some changed)) id = some conn → conn.EndsOnce := by
    intro place changed hchanged hconn
    by_cases hid : id = place
    · rw [hid, update_self] at hconn
      cases hconn
      exact hchanged
    · rw [update_of_ne hid] at hconn
      exact hends id conn hconn
  have hsame : ∀ place (changed found : Connection α), state.connections place = some found →
      changed.written = found.written →
      (update state.connections place (some changed)) id = some conn → conn.EndsOnce := by
    intro place changed found hplace hwritten
    refine hset place changed ?_
    unfold Connection.EndsOnce
    rw [hwritten]
    exact hends place found hplace
  cases heffect with
  | quiet | snapshot => exact hends id conn hfound
  | extracted =>
    simp only [ServerState.extract] at hfound
    split at hfound <;> exact hends id conn hfound
  | asked place op =>
    cases hplace : state.connections place with
    | none =>
      simp only [ServerState.shutDown, hplace] at hfound
      exact hends id conn hfound
    | some found =>
      rw [ServerState.shutDown_some hplace] at hfound
      exact hsame place _ found hplace (found.requestShutdown_effect config op).1.written hfound
  | enqueued place op =>
    cases hplace : state.connections place with
    | none =>
      rw [ServerState.enqueue_none hplace] at hfound
      exact hends id conn hfound
    | some found =>
      rw [ServerState.enqueue_some hplace] at hfound
      refine hsame place _ found hplace ?_ hfound
      unfold Connection.tryEnqueue
      cases op with
      | check event | send event => split_ifs <;> rfl
      | evict => rfl
  | joined handshake io =>
    unfold ServerState.subscribe at hfound
    cases handshake with
    | none =>
      refine hset _ _ ?_ hfound
      simp [Connection.EndsOnce, Connection.new, apply_ite List.dropLast]
    | some =>
      simp only at hfound
      split at hfound <;> refine hset _ _ ?_ hfound <;>
        simp [Connection.EndsOnce, Connection.new, apply_ite List.dropLast]
  | moved place found io _ hplace hstep =>
    unfold ServerState.connectionStep at hstep
    split at hstep
    · split at hstep <;> cases hstep
      refine hsame place _ found hplace ?_ hfound
      unfold Connection.backfill
      split <;> rfl
    · cases hstep
      exact hsame place (found.goTo .closed) found hplace rfl hfound
    · obtain ⟨changed, hadvance, rfl⟩ := Option.map_eq_some_iff.mp hstep
      rcases Connection.advance_written hadvance with hwritten | ⟨hrunning, frame, hwritten⟩
      · exact hsame place changed found hplace hwritten hfound
      · refine hset place changed ?_ hfound
        unfold Connection.EndsOnce
        rw [hwritten, dropLast_concat]
        exact fun frame => (hsound.tracked place found hplace).not_ended hrunning
  | restarted => cases hfound

end Endings

end EventStream
end Canon
