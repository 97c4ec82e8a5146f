import Canon.HostEffects

/-!
# The invariant of the host

The requests that were enqueued have been passed to the kernel in this order, or still
wait, and none of them twice.  Every connection is tracked along with its request.
-/

namespace Canon
namespace Host

open Function List

/-! ## The queue -/

structure Dispatcher.Ordered (config : ServerConfig) (dispatcher : Dispatcher) : Prop where
  bounded : dispatcher.queue.length ≤ config.capacity
  order : ∃ lost, dispatcher.enqueued = dispatcher.dispatched ++ dispatcher.queue ++ lost ∧
    (dispatcher.worker ≠ .exited → lost = [])
  exited : dispatcher.worker = .exited → dispatcher.queue = []
  distinct : (dispatcher.enqueued.map QueuedRequest.reply).Nodup
  outgoing : ∀ call, dispatcher.worker.outgoing = some call → call ∈ dispatcher.answered

section Queue

variable {config : ServerConfig} {dispatcher next : Dispatcher} {worker : WorkerPhase}
  {request : QueuedRequest}

theorem WorkerPhase.inKernel_of_isIdle (hidle : worker.isIdle = true) : worker.inKernel = none := by
  cases worker <;> first | rfl | cases hidle

theorem WorkerPhase.outgoing_of_isIdle (hidle : worker.isIdle = true) : worker.outgoing = none := by
  cases worker <;> first | rfl | cases hidle

theorem WorkerPhase.back_isIdle (draining : Bool) : (WorkerPhase.back draining).isIdle = true := by
  cases draining <;> rfl

theorem WorkerPhase.back_ne_exited (draining : Bool) : WorkerPhase.back draining ≠ .exited := by
  cases draining <;> simp [WorkerPhase.back]

theorem Dispatcher.dispatched_of_isIdle (hidle : dispatcher.worker.isIdle = true) :
    dispatcher.dispatched = dispatcher.answered.map Prod.fst := by
  rw [dispatched, WorkerPhase.inKernel_of_isIdle hidle]
  exact append_nil _

section

variable (hordered : dispatcher.Ordered config)
include hordered

theorem Dispatcher.Ordered.dispatched_queue (hworker : dispatcher.worker ≠ .exited) :
    dispatcher.enqueued = dispatcher.dispatched ++ dispatcher.queue := by
  obtain ⟨lost, horder, hlost⟩ := hordered.order
  rw [horder, hlost hworker, append_nil]

theorem Dispatcher.Ordered.dispatched_prefix_enqueued :
    dispatcher.dispatched <+: dispatcher.enqueued := by
  obtain ⟨lost, horder, _⟩ := hordered.order
  rw [horder, append_assoc]
  exact prefix_append _ _

theorem Dispatcher.Ordered.of_answered {call : QueuedRequest × VerdictResponse}
    (hcall : call ∈ dispatcher.answered) : call.1 ∈ dispatcher.enqueued := by
  refine hordered.dispatched_prefix_enqueued.subset ?_
  exact mem_append_left _ (mem_map_of_mem hcall)

theorem Dispatcher.Ordered.request_unique {first second : QueuedRequest}
    (hfirst : first ∈ dispatcher.enqueued) (hsecond : second ∈ dispatcher.enqueued)
    (hreply : first.reply = second.reply) : first = second :=
  inj_on_of_nodup_map hordered.distinct hfirst hsecond hreply

theorem Dispatcher.Ordered.dispatched_nodup :
    dispatcher.dispatched.Nodup :=
  hordered.distinct.of_map.sublist hordered.dispatched_prefix_enqueued.sublist

theorem Dispatcher.Ordered.call_unique
    {first second : QueuedRequest × VerdictResponse} (hfirst : first ∈ dispatcher.answered)
    (hsecond : second ∈ dispatcher.answered)
    (hreply : first.1.reply = second.1.reply) : first = second := by
  have hnodup : (dispatcher.answered.map Prod.fst).Nodup :=
    hordered.dispatched_nodup.sublist (sublist_append_left _ _)
  exact inj_on_of_nodup_map hnodup hfirst hsecond
    (hordered.request_unique (hordered.of_answered hfirst) (hordered.of_answered hsecond) hreply)

end

theorem Dispatcher.initial_ordered (config : ServerConfig) : Dispatcher.initial.Ordered config where
  bounded := Nat.zero_le _
  order := ⟨[], rfl, fun _ => rfl⟩
  exited _ := rfl
  distinct := nodup_nil
  outgoing _ hcall := by cases hcall

theorem Dispatcher.Works.enqueued (hworks : dispatcher.Works next) :
    next.enqueued = dispatcher.enqueued := by
  cases hworks <;> rfl

theorem Dispatcher.Works.answered_subset (hworks : dispatcher.Works next) :
    dispatcher.answered ⊆ next.answered := by
  cases hworks with
  | answered => exact subset_append_left _ _
  | idled | took | dropped => exact fun _ hcall => hcall

theorem Dispatcher.Works.dispatched_queue (hworks : dispatcher.Works next)
    (hworker : dispatcher.worker ≠ .leaving) :
    next.dispatched ++ next.queue = dispatcher.dispatched ++ dispatcher.queue := by
  cases hworks with
  | idled hidle _ hnext =>
    rw [Dispatcher.dispatched_of_isIdle hidle, Dispatcher.dispatched_of_isIdle hnext]
  | took _ hidle _ hqueue =>
    rw [Dispatcher.dispatched_of_isIdle hidle, hqueue]
    simp [Dispatcher.dispatched, WorkerPhase.inKernel]
  | answered _ hsubmitting =>
    simp [Dispatcher.dispatched, WorkerPhase.inKernel, hsubmitting]
  | dropped hleaving => exact absurd hleaving hworker

theorem Dispatcher.Works.of_leaving (hworks : dispatcher.Works next)
    (hworker : dispatcher.worker = .leaving) :
    next = { dispatcher with queue := [], worker := .exited } := by
  cases hworks with
  | idled _ hstays | took _ _ hstays =>
    rw [hworker] at hstays
    cases hstays
  | answered _ hsubmitting =>
    rw [hworker] at hsubmitting
    cases hsubmitting
  | dropped => rfl

theorem Dispatcher.dispatched_of_leaving (hworker : dispatcher.worker = .leaving) :
    dispatcher.dispatched = dispatcher.answered.map Prod.fst :=
  Dispatcher.dispatched_of_isIdle (by rw [hworker]; rfl)

theorem Dispatcher.Works.not_exited (hworks : dispatcher.Works next) :
    dispatcher.worker ≠ .exited := by
  intro hexited
  cases hworks with
  | idled _ hstays | took _ _ hstays =>
    rw [hexited] at hstays
    cases hstays
  | answered _ hworker | dropped hworker =>
    rw [hexited] at hworker
    cases hworker

theorem Dispatcher.Works.queue_length (hworks : dispatcher.Works next) :
    next.queue.length ≤ dispatcher.queue.length := by
  cases hworks with
  | idled | answered => exact Nat.le_refl _
  | took _ _ _ hqueue =>
    rw [hqueue]
    exact Nat.le_succ _
  | dropped => exact Nat.zero_le _

theorem Dispatcher.Works.exited (hworks : dispatcher.Works next)
    (hexited : next.worker = .exited) : dispatcher.worker = .leaving := by
  cases hworks with
  | idled _ _ _ hnot => exact absurd hexited hnot
  | took | answered => cases hexited
  | dropped hworker => exact hworker

theorem Dispatcher.Works.outgoing (hworks : dispatcher.Works next)
    {call : QueuedRequest × VerdictResponse}
    (hcall : next.worker.outgoing = some call) : call ∈ next.answered := by
  cases hworks with
  | idled _ _ hnext =>
    rw [WorkerPhase.outgoing_of_isIdle hnext] at hcall
    cases hcall
  | took | dropped => cases hcall
  | answered =>
    cases hcall
    exact mem_append_right _ (mem_singleton_self _)

theorem Dispatcher.Ordered.works (hordered : dispatcher.Ordered config)
    (hworks : dispatcher.Works next) : next.Ordered config := by
  have horder := hordered.dispatched_queue hworks.not_exited
  refine ⟨hworks.queue_length.trans hordered.bounded, ?_, ?_, ?_,
    fun _ hcall => hworks.outgoing hcall⟩
  · rw [hworks.enqueued, horder]
    by_cases hleaving : dispatcher.worker = .leaving
    · rw [hworks.of_leaving hleaving]
      refine ⟨dispatcher.queue, ?_, fun hnot => absurd rfl hnot⟩
      rw [Dispatcher.dispatched_of_leaving hleaving,
        Dispatcher.dispatched_of_isIdle rfl, append_nil]
    · exact ⟨[], by rw [hworks.dispatched_queue hleaving, append_nil], fun _ => rfl⟩
  · intro hexited
    rw [hworks.of_leaving (hworks.exited hexited)]
  · rw [hworks.enqueued]
    exact hordered.distinct

theorem Dispatcher.Ordered.back (hordered : dispatcher.Ordered config)
    {response : VerdictResponse} {draining : Bool}
    (hworker : dispatcher.worker = .replying request response draining) :
    ({ dispatcher with worker := .back draining } : Dispatcher).Ordered
      config := by
  have horder := hordered.dispatched_queue (by rw [hworker]; simp)
  refine ⟨hordered.bounded, ⟨[], ?_, fun _ => rfl⟩,
    fun heq => absurd heq (WorkerPhase.back_ne_exited draining), hordered.distinct, ?_⟩
  · rw [Dispatcher.dispatched_of_isIdle (WorkerPhase.back_isIdle draining), append_nil]
    rw [Dispatcher.dispatched, hworker] at horder
    rw [horder]
    simp [WorkerPhase.inKernel]
  · intro call hcall
    rw [WorkerPhase.outgoing_of_isIdle (WorkerPhase.back_isIdle draining)] at hcall
    cases hcall

theorem Dispatcher.Accepts.enqueued {request : QueuedRequest}
    (haccepts : dispatcher.Accepts config request next) :
    next.enqueued = dispatcher.enqueued ++ [request] := by
  cases haccepts <;> rfl

theorem Dispatcher.Accepts.answered {request : QueuedRequest}
    (haccepts : dispatcher.Accepts config request next) :
    next.answered = dispatcher.answered := by
  cases haccepts <;> rfl

theorem Dispatcher.Accepts.outgoing (haccepts : dispatcher.Accepts config request next) :
    next.worker.outgoing = dispatcher.worker.outgoing := by
  cases haccepts with
  | queued => rfl
  | handed _ hworker =>
    rw [hworker]
    rfl

theorem Dispatcher.Ordered.accepts (hordered : dispatcher.Ordered config)
    (hfresh : ∀ other ∈ dispatcher.enqueued, other.reply ≠ request.reply)
    (haccepts : dispatcher.Accepts config request next) : next.Ordered config := by
  have hdistinct : ((dispatcher.enqueued ++ [request]).map QueuedRequest.reply).Nodup := by
    rw [map_append, nodup_append]
    refine ⟨hordered.distinct, nodup_singleton _, ?_⟩
    intro first hfirst second hsecond
    obtain ⟨other, hother, rfl⟩ := mem_map.mp hfirst
    rw [mem_singleton.mp hsecond]
    exact hfresh other hother
  have houtgoing : ∀ call, next.worker.outgoing = some call → call ∈ next.answered := by
    rw [haccepts.outgoing, haccepts.answered]
    exact hordered.outgoing
  cases haccepts with
  | queued hworker hspace =>
    have horder := hordered.dispatched_queue hworker
    refine ⟨?_, ⟨[], ?_, fun _ => rfl⟩, fun heq => absurd heq hworker, hdistinct, houtgoing⟩
    · rw [length_append, length_singleton]
      exact hspace
    · rw [append_nil, horder]
      exact append_assoc _ _ _
  | handed hcapacity hworker =>
    have hbounded := hordered.bounded
    rw [hcapacity, Nat.le_zero, length_eq_zero_iff] at hbounded
    have horder := hordered.dispatched_queue (by rw [hworker]; simp)
    refine ⟨hordered.bounded, ⟨[], ?_, fun _ => rfl⟩, by simp, hdistinct, houtgoing⟩
    rw [horder, hbounded]
    simp [Dispatcher.dispatched, WorkerPhase.inKernel, hworker]

end Queue

/-! ## Connections -/

structure Connection.Tracked (config : ServerConfig) (dispatcher : Dispatcher)
    (id : ℕ) (conn : Connection) : Prop where
  requested : ∀ request ∈ dispatcher.enqueued, request.reply = id →
    conn.phase.isLate = true ∧
      (readFrame config.handler.maxFrameSize conn.stream).1 = .ok request.payload
  waiting : conn.phase = .waiting → ∃ request ∈ dispatcher.enqueued, request.reply = id
  replied : ∀ response, conn.reply = some response ∨ conn.received = some response →
    ∃ call ∈ dispatcher.answered, call.1.reply = id ∧ call.2 = response
  unreplied : ∀ call ∈ dispatcher.answered, call.1.reply = id → conn.phase = .waiting →
    conn.reply = some call.2 ∨ dispatcher.worker.outgoing = some call
  submitting : ∀ payload, conn.phase = .submitting payload →
    (readFrame config.handler.maxFrameSize conn.stream).1 = .ok payload
  unsent : conn.phase.isOver = false → conn.sent = []
  patient : conn.gaveUp = true → conn.phase.isLate = true ∧ conn.phase ≠ .waiting

section Connections

variable {config : ServerConfig} {dispatcher next : Dispatcher} {id : ℕ} {conn after : Connection}

section

variable (htracked : conn.Tracked config dispatcher id) {request : QueuedRequest}
include htracked

theorem Connection.Tracked.follows {pending : Bool}
    (hfollows : conn.Follows config pending after) : after.Tracked config dispatcher id where
  requested request hrequest hreply := by
    obtain ⟨hlate, hframe⟩ := htracked.requested request hrequest hreply
    rw [hfollows.stream]
    exact ⟨hfollows.late hlate, hframe⟩
  waiting hwaiting := absurd hwaiting hfollows.left
  replied response hsome := by
    refine htracked.replied response ?_
    rcases hsome with hreply | hreceived
    · rcases hfollows.reply with hsame | hnone
      · exact .inl (hsame.symm.trans hreply)
      · rw [hnone] at hreply
        cases hreply
    · rcases hfollows.received with hsame | ⟨_, _, hsame⟩
      · exact .inr (hsame.symm.trans hreceived)
      · exact .inl (hsame.symm.trans hreceived)
  unreplied _ _ _ hwaiting := absurd hwaiting hfollows.left
  submitting payload hphase := by
    rw [hfollows.stream]
    exact hfollows.submitting payload hphase
  unsent hnot := by
    have hbefore : conn.phase.isOver = false := by
      by_contra hover
      rw [Bool.not_eq_false] at hover
      rw [hfollows.stays hover] at hnot
      cases hnot
    cases hresponse : conn.phase.response? with
    | none =>
      rw [hfollows.unsent hresponse]
      exact htracked.unsent hbefore
    | some response =>
      rw [(hfollows.answered response hresponse).1] at hnot
      cases hnot
  patient hgaveUp := by
    refine ⟨?_, hfollows.left⟩
    rcases hfollows.patient hgaveUp with hbefore | hlate
    · exact hfollows.late (htracked.patient hbefore).1
    · exact hlate

theorem Connection.Tracked.works
    (hworks : dispatcher.Works next) : conn.Tracked config next id where
  requested := by
    rw [hworks.enqueued]
    exact htracked.requested
  waiting := by
    rw [hworks.enqueued]
    exact htracked.waiting
  replied response hsome := by
    obtain ⟨call, hcall, hcallResponse⟩ := htracked.replied response hsome
    exact ⟨call, hworks.answered_subset hcall, hcallResponse⟩
  unreplied call hcall hreply hwaiting := by
    have hold : dispatcher.worker.outgoing = none →
        call ∈ dispatcher.answered → conn.reply = some call.2 := by
      intro hnone hmem
      refine (htracked.unreplied call hmem hreply hwaiting).resolve_right ?_
      rw [hnone]
      simp
    cases hworks with
    | idled hidle | took _ hidle =>
      exact .inl (hold (WorkerPhase.outgoing_of_isIdle hidle) hcall)
    | answered _ hworker =>
      rcases mem_append.mp hcall with hmem | hnew
      · exact .inl (hold (by rw [hworker]; rfl) hmem)
      · rw [mem_singleton.mp hnew]
        exact .inr rfl
    | dropped hworker =>
      exact .inl (hold (by rw [hworker]; rfl) hcall)
  submitting := htracked.submitting
  unsent := htracked.unsent
  patient := htracked.patient

theorem Connection.Tracked.accepts (haccepts : dispatcher.Accepts config request next)
    (hother : request.reply ≠ id) : conn.Tracked config next id where
  requested other hmem hreply := by
    rw [haccepts.enqueued] at hmem
    rcases mem_append.mp hmem with hold | hnew
    · exact htracked.requested other hold hreply
    · rw [mem_singleton.mp hnew] at hreply
      exact absurd hreply hother
  waiting hwaiting := by
    obtain ⟨other, hmem, hreply⟩ := htracked.waiting hwaiting
    refine ⟨other, ?_, hreply⟩
    rw [haccepts.enqueued]
    exact mem_append_left _ hmem
  replied := by
    rw [haccepts.answered]
    exact htracked.replied
  unreplied := by
    rw [haccepts.answered, haccepts.outgoing]
    exact htracked.unreplied
  submitting := htracked.submitting
  unsent := htracked.unsent
  patient := htracked.patient

theorem Connection.Tracked.submitted {payload : Bytes} (hordered : dispatcher.Ordered config)
    (hphase : conn.phase = .submitting payload)
    (haccepts : dispatcher.Accepts config ⟨payload, id⟩ next) :
    (conn.goTo .waiting).Tracked config next id := by
  have hfresh : ∀ request ∈ dispatcher.enqueued, request.reply ≠ id := by
    intro request hmem hreply
    have hlate := (htracked.requested request hmem hreply).1
    rw [hphase] at hlate
    cases hlate
  constructor
  · intro request hmem hreply
    rw [haccepts.enqueued] at hmem
    rcases mem_append.mp hmem with hold | hnew
    · exact absurd hreply (hfresh request hold)
    · rw [mem_singleton.mp hnew]
      exact ⟨rfl, htracked.submitting payload hphase⟩
  · intro _
    refine ⟨⟨payload, id⟩, ?_, rfl⟩
    rw [haccepts.enqueued]
    exact mem_append_right _ (mem_singleton_self _)
  · rw [haccepts.answered]
    exact htracked.replied
  · intro call hcall hreply
    rw [haccepts.answered] at hcall
    exact absurd hreply (hfresh call.1 (hordered.of_answered hcall))
  · simp [Connection.goTo]
  · intro _
    refine htracked.unsent ?_
    rw [hphase]
    rfl
  · intro hgaveUp
    have hlate := (htracked.patient hgaveUp).1
    rw [hphase] at hlate
    cases hlate

theorem Connection.Tracked.replies {response : VerdictResponse} {draining : Bool}
    (hordered : dispatcher.Ordered config)
    (hworker : dispatcher.worker = .replying request response draining)
    (hafter : after = conn ∧ (request.reply = id → conn.phase = .waiting → conn.reply ≠ none) ∨
      request.reply = id ∧ after = { conn with reply := some response }) :
    after.Tracked config { dispatcher with worker := .back draining } id := by
  have hoffered : (request, response) ∈ dispatcher.answered :=
    hordered.outgoing _ (by rw [hworker]; rfl)
  rcases hafter with ⟨rfl, hreplied⟩ | ⟨hreply, rfl⟩
  · refine ⟨htracked.requested, htracked.waiting, htracked.replied, ?_,
      htracked.submitting, htracked.unsent, htracked.patient⟩
    intro call hcall hid hwaiting
    refine .inl ?_
    rcases htracked.unreplied call hcall hid hwaiting with hsame | hsame
    · exact hsame
    · rw [hworker] at hsame
      cases hsame
      obtain ⟨other, hother⟩ := Option.ne_none_iff_exists'.mp (hreplied hid hwaiting)
      obtain ⟨found, hfound, hfoundId, rfl⟩ := htracked.replied other (.inl hother)
      rw [hother, hordered.call_unique hfound hoffered (hfoundId.trans hid.symm)]
  · refine ⟨htracked.requested, htracked.waiting, ?_, ?_,
      htracked.submitting, htracked.unsent, htracked.patient⟩
    · intro other hother
      rcases hother with hsome | hsome
      · cases hsome
        exact ⟨_, hoffered, hreply, rfl⟩
      · exact htracked.replied other (.inr hsome)
    · intro call hcall hid _
      refine .inl ?_
      rw [hordered.call_unique hcall hoffered (hid.trans hreply.symm)]

end

end Connections

/-! ## The host -/

structure HostState.Sound (config : ServerConfig) (state : HostState) : Prop where
  ordered : state.dispatcher.Ordered config
  tracked : ∀ id conn, state.connections id = some conn → conn.Tracked config state.dispatcher id
  known : ∀ request ∈ state.dispatcher.enqueued, ∃ conn, state.connections request.reply = some conn
  numbered : ∀ id conn, state.connections id = some conn → id < state.nextId

section Host

variable {config : ServerConfig} {state next : HostState} {id : ℕ} {conn after : Connection}
  {connections : ℕ → Option Connection} {other target : ℕ} {response : VerdictResponse}

theorem update_cases (hfound : update connections id (some after) other = some conn) :
    other = id ∧ conn = after ∨ other ≠ id ∧ connections other = some conn := by
  by_cases hother : other = id
  · subst hother
    rw [update_self] at hfound
    exact .inl ⟨rfl, (Option.some.inj hfound).symm⟩
  · rw [update_of_ne hother] at hfound
    exact .inr ⟨hother, hfound⟩

theorem exists_update (hfound : ∃ conn, connections other = some conn) :
    ∃ conn, update connections id (some after) other = some conn := by
  by_cases hother : other = id
  · subst hother
    exact ⟨after, update_self _ _ _⟩
  · rw [update_of_ne hother]
    exact hfound

theorem HostState.sendReply_cases
    (hfound : (state.sendReply target response).connections id = some after) :
    ∃ conn, state.connections id = some conn ∧
      (after = conn ∧ (target = id → conn.phase = .waiting → conn.reply ≠ none) ∨
        target = id ∧ conn.phase.hasReceiver = true ∧ conn.reply = none ∧
          after = { conn with reply := some response }) := by
  unfold HostState.sendReply at hfound
  split at hfound
  next hnone =>
    refine ⟨after, hfound, .inl ⟨rfl, ?_⟩⟩
    rintro rfl
    rw [hnone] at hfound
    cases hfound
  next conn hsome =>
    split_ifs at hfound with hsend
    · rcases update_cases hfound with ⟨rfl, rfl⟩ | ⟨hother, hold⟩
      · exact ⟨conn, hsome, .inr ⟨rfl, hsend.1, hsend.2, rfl⟩⟩
      · exact ⟨after, hold, .inl ⟨rfl, fun heq => absurd heq.symm hother⟩⟩
    · refine ⟨after, hfound, .inl ⟨rfl, ?_⟩⟩
      rintro rfl hwaiting hreply
      obtain rfl := Option.some.inj (hsome.symm.trans hfound)
      exact hsend ⟨by rw [hwaiting]; rfl, hreply⟩

theorem HostState.sendReply_some (hfound : ∃ conn, state.connections id = some conn) :
    ∃ conn, (state.sendReply target response).connections id = some conn := by
  unfold HostState.sendReply
  split
  · exact hfound
  · split_ifs
    · exact exists_update hfound
    · exact hfound

theorem HostState.initial_sound (config : ServerConfig) : HostState.initial.Sound config where
  ordered := Dispatcher.initial_ordered config
  tracked _ _ hfound := by cases hfound
  known _ hmem := by cases hmem
  numbered _ _ hfound := by cases hfound

theorem HostState.Sound.effect (hsound : state.Sound config)
    (heffect : state.Effect config next) : next.Sound config := by
  cases heffect with
  | idle hconnections hnextId _ hdispatcher =>
    refine ⟨?_, ?_, ?_, ?_⟩
    · rw [hdispatcher]
      exact hsound.ordered
    · rw [hconnections, hdispatcher]
      exact hsound.tracked
    · rw [hconnections, hdispatcher]
      exact hsound.known
    · rw [hconnections, hnextId]
      exact hsound.numbered
  | accepted _ _ hconnections hnextId _ hdispatcher =>
    have hfresh : ∀ request ∈ state.dispatcher.enqueued, request.reply ≠ state.nextId := by
      intro request hmem
      obtain ⟨conn, hfound⟩ := hsound.known request hmem
      exact Nat.ne_of_lt (hsound.numbered _ conn hfound)
    refine ⟨?_, ?_, ?_, ?_⟩
    · rw [hdispatcher]
      exact hsound.ordered
    · intro id conn hfound
      rw [hconnections] at hfound
      rw [hdispatcher]
      rcases update_cases hfound with ⟨rfl, rfl⟩ | ⟨_, hold⟩
      · refine ⟨?_, by simp [Connection.accepted], by simp [Connection.accepted], ?_,
          by simp [Connection.accepted], fun _ => rfl, by simp [Connection.accepted]⟩
        · exact fun request hmem hreply =>
            absurd hreply (hfresh request hmem)
        · exact fun call hcall hreply => absurd hreply
            (hfresh call.1 (hsound.ordered.of_answered hcall))
      · exact hsound.tracked id conn hold
    · rw [hconnections, hdispatcher]
      exact fun request hmem => exists_update (hsound.known request hmem)
    · intro id conn hfound
      rw [hconnections] at hfound
      rw [hnextId]
      rcases update_cases hfound with ⟨rfl, _⟩ | ⟨_, hold⟩
      · exact Nat.lt_succ_self _
      · exact Nat.lt_succ_of_lt (hsound.numbered id conn hold)
  | @moved target conn after hfound hfollows hconnections hnextId _ _ hdispatcher =>
    refine ⟨?_, ?_, ?_, ?_⟩
    · rw [hdispatcher]
      exact hsound.ordered
    · intro id found hid
      rw [hconnections] at hid
      rw [hdispatcher]
      rcases update_cases hid with ⟨rfl, rfl⟩ | ⟨_, hold⟩
      · exact (hsound.tracked _ conn hfound).follows hfollows
      · exact hsound.tracked id found hold
    · rw [hconnections, hdispatcher]
      exact fun request hmem => exists_update (hsound.known request hmem)
    · intro id found hid
      rw [hconnections] at hid
      rw [hnextId]
      rcases update_cases hid with ⟨rfl, _⟩ | ⟨_, hold⟩
      · exact hsound.numbered _ conn hfound
      · exact hsound.numbered id found hold
  | @enqueued target conn payload hfound hphase hconnections hnextId _ hdispatcher =>
    have htracked := hsound.tracked target conn hfound
    refine ⟨?_, ?_, ?_, ?_⟩
    · refine hsound.ordered.accepts ?_ hdispatcher
      intro request hmem hreply
      have hlate := (htracked.requested request hmem hreply).1
      rw [hphase] at hlate
      cases hlate
    · intro id found hid
      rw [hconnections] at hid
      rcases update_cases hid with ⟨rfl, rfl⟩ | ⟨hother, hold⟩
      · exact htracked.submitted hsound.ordered hphase hdispatcher
      · exact (hsound.tracked id found hold).accepts hdispatcher (Ne.symm hother)
    · intro request hmem
      rw [hconnections]
      rw [hdispatcher.enqueued] at hmem
      rcases mem_append.mp hmem with hold | hnew
      · exact exists_update (hsound.known request hold)
      · rw [mem_singleton.mp hnew]
        exact ⟨_, update_self _ _ _⟩
    · intro id found hid
      rw [hconnections] at hid
      rw [hnextId]
      rcases update_cases hid with ⟨rfl, _⟩ | ⟨_, hold⟩
      · exact hsound.numbered _ conn hfound
      · exact hsound.numbered id found hold
  | worked hconnections hnextId _ hdispatcher =>
    refine ⟨hsound.ordered.works hdispatcher, ?_, ?_, ?_⟩
    · rw [hconnections]
      exact fun id conn hfound =>
        (hsound.tracked id conn hfound).works hdispatcher
    · rw [hconnections, hdispatcher.enqueued]
      exact hsound.known
    · rw [hconnections, hnextId]
      exact hsound.numbered
  | @replied request response draining hworker hconnections hnextId _ hdispatcher =>
    refine ⟨?_, ?_, ?_, ?_⟩
    · rw [hdispatcher]
      exact hsound.ordered.back hworker
    · intro id found hid
      rw [hconnections] at hid
      obtain ⟨conn, hfound, hcases⟩ := HostState.sendReply_cases hid
      rw [hdispatcher]
      refine (hsound.tracked id conn hfound).replies hsound.ordered hworker (hcases.imp_right ?_)
      rintro ⟨hreply, _, _, hafter⟩
      exact ⟨hreply, hafter⟩
    · rw [hconnections, hdispatcher]
      exact fun other hmem =>
        HostState.sendReply_some (hsound.known other hmem)
    · intro id found hid
      rw [hconnections] at hid
      rw [hnextId]
      obtain ⟨conn, hfound, _⟩ := HostState.sendReply_cases hid
      exact hsound.numbered id conn hfound

theorem HostState.Reached.sound (hreached : state.Reached config) : state.Sound config :=
  HostState.reachable_invariant (fun _ _ hsound => hsound.effect) hreached
    (HostState.initial_sound config)

structure Connection.Same (conn after : Connection) : Prop where
  stream : after.stream = conn.stream
  phase : after.phase = conn.phase
  sent : after.sent = conn.sent
  received : after.received = conn.received
  gaveUp : after.gaveUp = conn.gaveUp

theorem Connection.Same.refl (conn : Connection) : conn.Same conn := ⟨rfl, rfl, rfl, rfl, rfl⟩

theorem HostState.Effect.of_found (heffect : state.Effect config next) (hsound : state.Sound config)
    (hfound : state.connections id = some conn) :
    ∃ after, next.connections id = some after ∧
      (conn.Same after ∨
        conn.Follows config (state.dispatcher.ownsReply id) after ∧
          next.dispatcher = state.dispatcher ∨
        (∃ payload, conn.phase = .submitting payload) ∧ after = conn.goTo .waiting) := by
  cases heffect with
  | idle hconnections | worked hconnections =>
    rw [hconnections]
    exact ⟨conn, hfound, .inl (.refl conn)⟩
  | accepted _ _ hconnections =>
    rw [hconnections, update_of_ne (Nat.ne_of_lt (hsound.numbered id conn hfound))]
    exact ⟨conn, hfound, .inl (.refl conn)⟩
  | @moved target before after hbefore hfollows hconnections _ _ _ hdispatcher =>
    rw [hconnections]
    by_cases hid : id = target
    · subst hid
      obtain rfl := Option.some.inj (hfound.symm.trans hbefore)
      exact ⟨after, update_self _ _ _, .inr (.inl ⟨hfollows, hdispatcher⟩)⟩
    · rw [update_of_ne hid]
      exact ⟨conn, hfound, .inl (.refl conn)⟩
  | @enqueued target before payload hbefore hphase hconnections =>
    rw [hconnections]
    by_cases hid : id = target
    · subst hid
      obtain rfl := Option.some.inj (hfound.symm.trans hbefore)
      exact ⟨_, update_self _ _ _, .inr (.inr ⟨⟨payload, hphase⟩, rfl⟩)⟩
    · rw [update_of_ne hid]
      exact ⟨conn, hfound, .inl (.refl conn)⟩
  | replied _ hconnections =>
    rw [hconnections]
    obtain ⟨after, hafter⟩ := HostState.sendReply_some ⟨conn, hfound⟩
    obtain ⟨before, hbefore, hcases⟩ := HostState.sendReply_cases hafter
    obtain rfl := Option.some.inj (hfound.symm.trans hbefore)
    refine ⟨after, hafter, .inl ?_⟩
    rcases hcases with ⟨rfl, _⟩ | ⟨_, _, _, rfl⟩
    · exact .refl after
    · exact ⟨rfl, rfl, rfl, rfl, rfl⟩

theorem HostState.Effect.dispatcher_cases (heffect : state.Effect config next) :
    next.dispatcher = state.dispatcher ∨
    (∃ request conn, state.connections request.reply = some conn ∧
      conn.phase = .submitting request.payload ∧
      state.dispatcher.Accepts config request next.dispatcher) ∨
    state.dispatcher.Works next.dispatcher ∨
    ∃ request response draining, state.dispatcher.worker = .replying request response draining ∧
      next.dispatcher = { state.dispatcher with worker := .back draining } := by
  cases heffect with
  | idle _ _ _ hdispatcher | accepted _ _ _ _ _ hdispatcher | moved _ _ _ _ _ _ hdispatcher =>
    exact .inl hdispatcher
  | enqueued hfound hphase _ _ _ hdispatcher =>
    exact .inr (.inl ⟨_, _, hfound, hphase, hdispatcher⟩)
  | worked _ _ _ hdispatcher => exact .inr (.inr (.inl hdispatcher))
  | replied hworker _ _ _ hdispatcher =>
    exact .inr (.inr (.inr ⟨_, _, _, hworker, hdispatcher⟩))

end Host

end Host
end Canon
