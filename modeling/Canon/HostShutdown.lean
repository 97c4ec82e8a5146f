import Canon.HostDispatch

/-!
# Requests at the end of a run

When the stop flag is set the worker drains the queue and drops it as soon as it has
found it empty.  A connection thread that was still reading its frame may enqueue its
request in between, and such a request never reaches the kernel.
-/

namespace Canon
namespace Host

open List

/-! ## Kept requests -/

structure Dispatcher.Keeps (request : QueuedRequest) (dispatcher : Dispatcher) : Prop where
  kept : request ∈ dispatcher.dispatched ++ dispatcher.queue
  gone : dispatcher.worker.isGone = true → request ∈ dispatcher.dispatched

section Keeps

variable {config : ServerConfig} {dispatcher next : Dispatcher} {request other : QueuedRequest}
  {response : VerdictResponse}

theorem WorkerPhase.cases_of_isGone {worker : WorkerPhase} (hgone : worker.isGone = true) :
    worker = .leaving ∨ worker = .exited := by
  cases worker <;> first | exact .inl rfl | exact .inr rfl | cases hgone

theorem Dispatcher.Keeps.works (hkeeps : dispatcher.Keeps request)
    (hworks : dispatcher.Works next) : next.Keeps request := by
  by_cases hleaving : dispatcher.worker = .leaving
  · have hgone : request ∈ dispatcher.answered.map Prod.fst := by
      rw [← Dispatcher.dispatched_of_leaving hleaving]
      exact hkeeps.gone (by rw [hleaving]; rfl)
    rw [hworks.of_leaving hleaving]
    constructor
    · exact mem_append_left _ (mem_append_left _ hgone)
    · exact fun _ => mem_append_left _ hgone
  · have hsame := hworks.dispatched_queue hleaving
    have hkept := hkeeps.kept
    rw [← hsame] at hkept
    refine ⟨hkept, fun hnext => ?_⟩
    cases hworks with
    | idled _ _ _ _ hgone =>
      rw [hgone hnext, append_nil] at hkept
      exact hkept
    | took | answered => cases hnext
    | dropped hworker => exact absurd hworker hleaving

theorem Dispatcher.Keeps.accepts (hkeeps : dispatcher.Keeps request)
    (haccepts : dispatcher.Accepts config other next) :
    next.Keeps request := by
  cases haccepts with
  | queued =>
    refine ⟨?_, hkeeps.gone⟩
    have hkept := mem_append_left [other] hkeeps.kept
    rw [append_assoc] at hkept
    exact hkept
  | handed _ hworker =>
    refine ⟨?_, fun hgone => by cases hgone⟩
    have hkept := hkeeps.kept
    rw [Dispatcher.dispatched_of_isIdle (by rw [hworker]; rfl)] at hkept
    rcases mem_append.mp hkept with hanswered | hqueue
    · exact mem_append_left _ (mem_append_left _ hanswered)
    · exact mem_append_right _ hqueue

theorem Dispatcher.Keeps.back (hkeeps : dispatcher.Keeps request) {current : QueuedRequest}
    {draining : Bool} (hworker : dispatcher.worker = .replying current response draining) :
    ({ dispatcher with worker := .back draining } : Dispatcher).Keeps
      request := by
  have hdispatched : dispatcher.dispatched = dispatcher.answered.map Prod.fst := by
    rw [Dispatcher.dispatched, hworker]
    exact append_nil _
  have hkept := hkeeps.kept
  rw [hdispatched] at hkept
  constructor
  · rw [Dispatcher.dispatched_of_isIdle (WorkerPhase.back_isIdle draining)]
    exact hkept
  · intro hgone
    cases draining <;> cases hgone

theorem Dispatcher.Accepts.not_exited (haccepts : dispatcher.Accepts config request next) :
    dispatcher.worker ≠ .exited := by
  cases haccepts with
  | queued hworker => exact hworker
  | handed _ hworker =>
    rw [hworker]
    simp

theorem Dispatcher.Accepts.keeps (haccepts : dispatcher.Accepts config request next)
    (hworker : dispatcher.worker ≠ .leaving) : next.Keeps request := by
  cases haccepts with
  | queued hexited =>
    refine ⟨?_, fun hgone => ?_⟩
    · exact mem_append_right _ (mem_append_right _ (mem_singleton_self _))
    · rcases WorkerPhase.cases_of_isGone hgone with hphase | hphase
      · exact absurd hphase hworker
      · exact absurd hphase hexited
  | handed =>
    refine ⟨mem_append_left _ ?_, fun hgone => by cases hgone⟩
    exact mem_append_right _ (mem_singleton_self _)

theorem Dispatcher.Keeps.answered_or_owned (hkeeps : dispatcher.Keeps request) :
    (∃ response, (request, response) ∈ dispatcher.answered) ∨
      dispatcher.ownsReply request.reply = true := by
  rcases mem_append.mp hkeeps.kept with hdispatched | hqueue
  · rcases mem_append.mp hdispatched with hanswered | hkernel
    · obtain ⟨⟨found, response⟩, hcall, rfl⟩ := mem_map.mp hanswered
      exact .inl ⟨response, hcall⟩
    · refine .inr (any_eq_true.mpr ⟨request, ?_, decide_eq_true rfl⟩)
      refine mem_append_right _ ?_
      cases hworker : dispatcher.worker <;> rw [hworker] at hkernel <;>
        first | exact hkernel | cases hkernel
  · exact .inr (any_eq_true.mpr ⟨request, mem_append_left _ hqueue, decide_eq_true rfl⟩)

theorem Dispatcher.owned_of_outgoing
    (houtgoing : dispatcher.worker.outgoing = some (request, response)) :
    dispatcher.ownsReply request.reply = true := by
  refine any_eq_true.mpr ⟨request, ?_, decide_eq_true rfl⟩
  refine mem_append_right _ ?_
  cases hworker : dispatcher.worker <;> rw [hworker] at houtgoing <;>
    cases houtgoing
  exact mem_singleton_self _

end Keeps

/-! ## Waiting connections -/

structure HostState.Awaits (config : ServerConfig) (request : QueuedRequest)
    (state : HostState) : Prop where
  sound : state.Sound config
  keeps : state.dispatcher.Keeps request
  waits : ∃ conn, state.connections request.reply = some conn ∧
    (conn.gaveUp = true ∨ conn.phase = .waiting ∨ conn.received.isSome = true)

section Awaits

variable {config : ServerConfig} {state next : HostState}
  {request : QueuedRequest} {conn after : Connection}

theorem Dispatcher.Keeps.mem_enqueued {dispatcher : Dispatcher} (hkeeps : dispatcher.Keeps request)
    (hordered : dispatcher.Ordered config) : request ∈ dispatcher.enqueued := by
  obtain ⟨lost, horder, _⟩ := hordered.order
  rw [horder]
  exact mem_append_left _ hkeeps.kept

theorem HostState.Awaits.not_disconnected (hawaits : state.Awaits config request)
    (hfound : state.connections request.reply = some conn)
    (hwaiting : conn.phase = .waiting) (hreply : conn.reply = none) :
    state.dispatcher.ownsReply request.reply = true := by
  rcases hawaits.keeps.answered_or_owned with ⟨response, hcall⟩ | howned
  · have htracked := hawaits.sound.tracked _ conn hfound
    rcases htracked.unreplied _ hcall rfl hwaiting with hsome | houtgoing
    · rw [hreply] at hsome
      cases hsome
    · exact Dispatcher.owned_of_outgoing houtgoing
  · exact howned

theorem Dispatcher.Keeps.effect (hkeeps : state.dispatcher.Keeps request)
    (heffect : state.Effect config next) :
    next.dispatcher.Keeps request := by
  rcases heffect.dispatcher_cases with hsame |
    ⟨_, _, _, _, haccepts⟩ | hworks | ⟨_, _, _, hworker, hback⟩
  · rw [hsame]
    exact hkeeps
  · exact hkeeps.accepts haccepts
  · exact hkeeps.works hworks
  · rw [hback]
    exact hkeeps.back hworker

theorem HostState.Awaits.effect (hawaits : state.Awaits config request)
    (heffect : state.Effect config next) : next.Awaits config request := by
  obtain ⟨conn, hfound, hwaits⟩ := hawaits.waits
  obtain ⟨after, hafter, hcases⟩ := heffect.of_found hawaits.sound hfound
  refine ⟨hawaits.sound.effect heffect, hawaits.keeps.effect heffect, after, hafter, ?_⟩
  rcases hcases with hsame | ⟨hfollows, _⟩ | ⟨⟨payload, hphase⟩, _⟩
  · rw [hsame.gaveUp, hsame.phase, hsame.received]
    exact hwaits
  · rcases hwaits with hgaveUp | hwaiting | hreceived
    · exact .inl (hfollows.gaveUp hgaveUp)
    · rcases hfollows.waited hwaiting with hgaveUp | hgot | hclosed
      · exact .inl hgaveUp
      · rw [hgot.1]
        exact .inr (.inr hgot.2)
      · rw [hawaits.not_disconnected hfound hwaiting hclosed.1] at hclosed
        cases hclosed.2
    · refine .inr (.inr ?_)
      rcases hfollows.received with hsame | ⟨_, hsome, hsame⟩
      · rw [hsame]
        exact hreceived
      · rw [hsame]
        exact hsome
  · have hlate := ((hawaits.sound.tracked _ conn hfound).requested
      request (hawaits.keeps.mem_enqueued hawaits.sound.ordered) rfl).1
    rw [hphase] at hlate
    cases hlate

end Awaits

/-! ## Completion -/

inductive HostState.Serves (config : ServerConfig)
    (kernel : QueuedRequest → KernelAnswer) (id : ℕ) : HostState → HostState → Prop
  | refl (state : HostState) : Serves config kernel id state state
  | worker {state next final : HostState} (hstep : state.next config (.worker .proceed) = some next)
      (hrest : Serves config kernel id next final) : Serves config kernel id state final
  | kernel {state next final : HostState} {request : QueuedRequest} {draining : Bool}
      (hworker : state.dispatcher.worker = .submitting request draining)
      (hstep : state.next config (.worker (.answer (kernel request))) = some next)
      (hrest : Serves config kernel id next final) : Serves config kernel id state final
  | receive {state next final : HostState}
      (hstep : state.next config (.handler id .receive) = some next)
      (hrest : Serves config kernel id next final) : Serves config kernel id state final

def HostState.Answered (config : ServerConfig) (id : ℕ) (state : HostState) :
    Prop :=
  ∃ conn request response, state.connections id = some conn ∧
    conn.received = some response ∧ request.reply = id ∧
    (readFrame config.handler.maxFrameSize conn.stream).1 = .ok request.payload ∧
    (request, response) ∈ state.dispatcher.answered ∧ state.dispatcher.dispatched.count request = 1

def HostState.Completes (config : ServerConfig) (id : ℕ) (state : HostState) :
    Prop :=
  ∀ kernel, ∃ final, HostState.Serves config kernel id state final ∧ final.Answered config id

def WorkerPhase.rank : WorkerPhase → ℕ
  | .submitting _ _ => 4
  | .replying _ _ _ => 3
  | .checking => 2
  | .receiving | .draining => 1
  | .leaving | .exited => 0

def Dispatcher.rank (dispatcher : Dispatcher) : ℕ :=
  4 * dispatcher.queue.length + dispatcher.worker.rank

section Completion

variable {config : ServerConfig} {state next final : HostState}
  {request : QueuedRequest} {conn : Connection} {kernel : QueuedRequest → KernelAnswer} {id : ℕ}
  {event : WorkerEvent} {dispatcher : Dispatcher}

theorem HostState.Sound.answered (hsound : state.Sound config)
    (hfound : state.connections id = some conn)
    (hreceived : conn.received.isSome = true) : state.Answered config id := by
  obtain ⟨response, hresponse⟩ := Option.isSome_iff_exists.mp hreceived
  have htracked := hsound.tracked id conn hfound
  obtain ⟨⟨request, answer⟩, hcall, hreply, rfl⟩ := htracked.replied response (.inr hresponse)
  have henqueued := hsound.ordered.of_answered hcall
  refine ⟨conn, request, answer, hfound, hresponse, hreply,
    (htracked.requested request henqueued hreply).2, hcall, ?_⟩
  rw [count_eq_one_of_mem hsound.ordered.dispatched_nodup]
  exact mem_append_left _ (mem_map_of_mem hcall)

theorem HostState.next_work
    (hwork : state.dispatcher.work state.stop (state.connected config) event = some dispatcher)
    (houtgoing : state.dispatcher.worker.outgoing = none) :
    state.next config (.worker event) = some { state with dispatcher := dispatcher } := by
  change state.workerStep config event = _
  unfold HostState.workerStep
  split
  next hworker =>
    rw [hworker] at houtgoing
    cases houtgoing
  next => rw [hwork, Option.map_some]

theorem HostState.next_reply {current : QueuedRequest}
    {response : VerdictResponse} {draining : Bool}
    (hworker : state.dispatcher.worker = .replying current response draining) :
    state.next config (.worker .proceed) = some { state.sendReply current.reply response with
        dispatcher := { state.dispatcher with worker := .back draining } } := by
  change state.workerStep config .proceed = _
  unfold HostState.workerStep
  rw [hworker]

theorem HostState.worker_gaveUp (hstep : state.next config (.worker event) = some next)
    (hfound : state.connections id = some conn) :
    ∃ after, next.connections id = some after ∧ after.gaveUp = conn.gaveUp := by
  change state.workerStep config event = _ at hstep
  unfold HostState.workerStep at hstep
  split at hstep
  next =>
    cases hstep
    obtain ⟨after, hafter⟩ := HostState.sendReply_some ⟨conn, hfound⟩
    obtain ⟨before, hbefore, hcases⟩ := HostState.sendReply_cases hafter
    obtain rfl := Option.some.inj (hfound.symm.trans hbefore)
    refine ⟨after, hafter, ?_⟩
    rcases hcases with ⟨rfl, _⟩ | ⟨_, _, _, rfl⟩
    all_goals rfl
  next =>
    obtain ⟨dispatcher, _, rfl⟩ := Option.map_eq_some_iff.mp hstep
    exact ⟨conn, hfound, rfl⟩

theorem Dispatcher.exists_work (stop connected : Bool) (kernel : QueuedRequest → KernelAnswer)
    (hstays : dispatcher.worker.isGone = false)
    (hqueue : dispatcher.worker.isIdle = true → dispatcher.queue ≠ [])
    (houtgoing : dispatcher.worker.outgoing = none) :
    ∃ event next, dispatcher.work stop connected event = some next ∧
      next.rank < dispatcher.rank ∧
      (event = .proceed ∨ ∃ current draining, dispatcher.worker = .submitting current draining ∧
        event = .answer (kernel current)) := by
  obtain ⟨queue, worker, enqueued, answered⟩ := dispatcher
  cases worker with
  | checking =>
    refine ⟨.proceed, _, rfl, ?_, .inl rfl⟩
    cases stop <;> simp [Dispatcher.rank, WorkerPhase.rank]
  | receiving | draining =>
    obtain ⟨current, rest, rfl⟩ := exists_cons_of_ne_nil (hqueue rfl)
    refine ⟨.proceed, _, rfl, ?_, .inl rfl⟩
    simp only [Dispatcher.rank, WorkerPhase.rank, length_cons]
    omega
  | submitting current draining =>
    refine ⟨.answer (kernel current), _, rfl, ?_, .inr ⟨current, draining, rfl, rfl⟩⟩
    simp [Dispatcher.rank, WorkerPhase.rank]
  | replying => cases houtgoing
  | leaving | exited => cases hstays

theorem HostState.Awaits.queued (hawaits : state.Awaits config request)
    (hfound : state.connections request.reply = some conn)
    (hwaiting : conn.phase = .waiting) (hreply : conn.reply = none)
    (hidle : state.dispatcher.worker.isIdle = true) :
    request ∈ state.dispatcher.queue ∧ state.dispatcher.worker.isGone = false := by
  have hunanswered : request ∉ state.dispatcher.dispatched := by
    rw [Dispatcher.dispatched_of_isIdle hidle]
    intro hanswered
    obtain ⟨call, hcall, rfl⟩ := mem_map.mp hanswered
    have htracked := hawaits.sound.tracked _ conn hfound
    rcases htracked.unreplied call hcall rfl hwaiting with hsome | hout
    · rw [hreply] at hsome
      cases hsome
    · rw [WorkerPhase.outgoing_of_isIdle hidle] at hout
      cases hout
  constructor
  · exact (mem_append.mp hawaits.keeps.kept).resolve_left hunanswered
  · by_contra hgone
    rw [Bool.not_eq_false] at hgone
    exact hunanswered (hawaits.keeps.gone hgone)

theorem HostState.Awaits.exists_worker_step (hawaits : state.Awaits config request)
    (hfound : state.connections request.reply = some conn)
    (hwaiting : conn.phase = .waiting) (hreply : conn.reply = none)
    (kernel : QueuedRequest → KernelAnswer) :
    ∃ event next, state.next config (.worker event) = some next ∧
      next.dispatcher.rank < state.dispatcher.rank ∧
      (event = .proceed ∨ ∃ current draining,
        state.dispatcher.worker = .submitting current draining ∧
        event = .answer (kernel current)) := by
  cases houtgoing : state.dispatcher.worker.outgoing with
  | none =>
    have hstays : state.dispatcher.worker.isGone = false := by
      by_cases hidle : state.dispatcher.worker.isIdle = true
      · exact (hawaits.queued hfound hwaiting hreply hidle).2
      · cases hworker : state.dispatcher.worker <;>
          rw [hworker] at hidle <;> first | rfl | exact absurd rfl hidle
    obtain ⟨event, dispatcher, hwork, hrank, hevent⟩ :=
      Dispatcher.exists_work state.stop (state.connected config) kernel hstays
        (fun hidle => ne_nil_of_mem (hawaits.queued hfound hwaiting hreply hidle).1) houtgoing
    exact ⟨event, _, HostState.next_work hwork houtgoing, hrank, hevent⟩
  | some =>
    cases hworker : state.dispatcher.worker <;>
      rw [hworker] at houtgoing <;> cases houtgoing
    rename_i current response draining
    refine ⟨.proceed, _, HostState.next_reply hworker, ?_, .inl rfl⟩
    simp only [Dispatcher.rank, hworker]
    cases draining <;> simp [WorkerPhase.rank, WorkerPhase.back]

theorem HostState.next_receive {response : VerdictResponse}
    (hfound : state.connections id = some conn) (hwaiting : conn.phase = .waiting)
    (hreply : conn.reply = some response) :
    state.next config (.handler id .receive) = some (state.setConnection id { conn with
        phase := .responding response, reply := none
        received := some response }) := by
  simp only [HostState.next, hfound, Option.bind_some, HostState.handlerStep,
    hwaiting, Connection.advance, hreply, Option.map_some]

theorem HostState.Awaits.completes (hawaits : state.Awaits config request)
    (hfound : state.connections request.reply = some conn)
    (hpatient : conn.gaveUp = false) : state.Completes config request.reply := by
  intro kernel
  induction hrank : state.dispatcher.rank using Nat.strong_induction_on generalizing state conn with
  | _ _ ih =>
    obtain ⟨found, hsame, hwaits⟩ := hawaits.waits
    obtain rfl := Option.some.inj (hfound.symm.trans hsame)
    rcases hwaits with hgaveUp | hwaiting | hreceived
    · rw [hpatient] at hgaveUp
      cases hgaveUp
    · cases hreply : conn.reply with
      | some response =>
        have hstep := @HostState.next_receive config state conn
          request.reply response hfound hwaiting hreply
        refine ⟨_, .receive hstep (.refl _), ?_⟩
        exact (hawaits.sound.effect (HostState.next_effect hstep)).answered
          (HostState.setConnection_self _ _ _) rfl
      | none =>
        obtain ⟨event, next, hstep, hless, hevent⟩ :=
          hawaits.exists_worker_step hfound hwaiting hreply kernel
        have hnext := hawaits.effect (HostState.next_effect hstep)
        obtain ⟨after, hafter, hsamePatience⟩ := HostState.worker_gaveUp hstep hfound
        obtain ⟨final, hserves, hanswered⟩ := ih _ (hrank ▸ hless) hnext
          hafter (hsamePatience.trans hpatient) rfl
        refine ⟨final, ?_, hanswered⟩
        rcases hevent with rfl | ⟨current, draining, hworker, rfl⟩
        · exact .worker hstep hserves
        · exact .kernel hworker hstep hserves
    · exact ⟨state, .refl state, hawaits.sound.answered hfound hreceived⟩

theorem HostState.Effect.dispatcher_of_exited (heffect : state.Effect config next)
    (hexited : state.dispatcher.worker = .exited) :
    next.dispatcher = state.dispatcher := by
  cases heffect with
  | idle _ _ _ hdispatcher | accepted _ _ _ _ _ hdispatcher | moved _ _ _ _ _ _ hdispatcher =>
    exact hdispatcher
  | enqueued _ _ _ _ _ hdispatcher =>
    exact absurd hexited hdispatcher.not_exited
  | worked _ _ _ hdispatcher => exact absurd hexited hdispatcher.not_exited
  | replied hworker =>
    rw [hexited] at hworker
    cases hworker

theorem HostState.Serves.reachable (hserves : HostState.Serves config kernel id state final) :
    Reachable (hostStep config) state final := by
  induction hserves with
  | refl state => exact .refl state
  | worker hstep _ ih | kernel _ hstep _ ih | receive hstep _ ih =>
    exact (Reachable.refl _ |>.tail (hostStep_of_next hstep)).trans ih

theorem HostState.not_completes_of_exited (hexited : state.dispatcher.worker = .exited)
    (hlost : ∀ call ∈ state.dispatcher.answered, call.1.reply ≠ id) :
    ¬state.Completes config id := by
  intro hcompletes
  obtain ⟨final, hserves, conn, request, response, _, _, hreply, _,
    hcall, _⟩ := hcompletes fun _ => .panicked ""
  have hsame : final.dispatcher = state.dispatcher := @HostState.reachable_invariant config
      (fun later => later.dispatcher = state.dispatcher)
      (fun before after hbefore heffect =>
        (heffect.dispatcher_of_exited (by rw [hbefore]; exact hexited)).trans hbefore)
      _ _ hserves.reachable rfl
  rw [hsame] at hcall
  exact hlost _ hcall hreply

end Completion

variable {config : ServerConfig}

theorem HostState.next_submit {before after : HostState} {id : ℕ} {parked : Bool}
    (hstep : before.next config (.handler id (.submit parked)) = some after)
    (henqueued : (after.connections id).map Connection.phase = some .waiting) :
    ∃ conn payload, before.connections id = some conn ∧ conn.phase = .submitting payload ∧
      before.dispatcher.Accepts config ⟨payload, id⟩ after.dispatcher ∧
      after.connections = (before.setConnection id (conn.goTo .waiting)).connections := by
  obtain ⟨conn, hfound, hhandler⟩ := Option.bind_eq_some_iff.mp hstep
  unfold HostState.handlerStep at hhandler
  split at hhandler
  next payload _ hphase hevent =>
    split at hhandler
    next dispatcher hsubmit =>
      cases hhandler
      exact ⟨conn, payload, hfound, hphase, Dispatcher.trySubmit_accepts hsubmit, rfl⟩
    next =>
      cases hhandler
      rw [HostState.setConnection_self] at henqueued
      cases henqueued
  next hevent => cases hevent
  next =>
    obtain ⟨next, hadvance, rfl⟩ := Option.map_eq_some_iff.mp hhandler
    have hleft := (Connection.advance_follows hadvance).left
    rw [HostState.setConnection_self] at henqueued
    exact absurd (Option.some.inj henqueued) hleft

theorem Dispatcher.Accepts.worker_of_leaving {dispatcher next : Dispatcher}
    {request : QueuedRequest} (haccepts : dispatcher.Accepts config request next)
    (hleaving : dispatcher.worker = .leaving) : next.worker = .leaving := by
  cases haccepts with
  | queued => exact hleaving
  | handed _ hworker =>
    rw [hleaving] at hworker
    cases hworker

theorem HostState.exists_drop (config : ServerConfig) (state : HostState)
    (hleaving : state.dispatcher.worker = .leaving) :
    ∃ final, state.next config (.worker .proceed) = some final ∧ final.dispatcher.worker = .exited ∧
      final.dispatcher.answered = state.dispatcher.answered ∧
      final.connections = state.connections := by
  have hwork : state.dispatcher.work state.stop (state.connected config)
      .proceed = some { state.dispatcher with
        queue := [], worker := .exited } := by
    unfold Dispatcher.work
    rw [hleaving]
  exact ⟨_, HostState.next_work hwork (by rw [hleaving]; rfl), rfl, rfl, rfl⟩

/-- For which states of the worker a request that is being enqueued will be dealt
with: in every state of the host after it, the connection gets the answer of the
kernel to its request, unless it stops waiting. -/
theorem enqueued_completes_iff {config : ServerConfig}
    {before after : HostState} {id : ℕ} {parked : Bool} (hreached : before.Reached config)
    (hstep : before.next config (.handler id (.submit parked)) = some after)
    (henqueued : (after.connections id).map Connection.phase = some .waiting) :
    (∀ final conn, Reachable (hostStep config) after final →
      final.connections id = some conn → conn.gaveUp = false →
      final.Completes config id) ↔ before.dispatcher.worker ≠ .leaving := by
  have hsound := hreached.sound
  obtain ⟨conn, payload, hfound, hphase, haccepts, hafter⟩ := HostState.next_submit hstep henqueued
  have hwaiting : after.connections id = some (conn.goTo .waiting) := by
    rw [hafter]
    exact HostState.setConnection_self _ _ _
  have hafterSound := hsound.effect (HostState.next_effect hstep)
  have hpatient : conn.gaveUp = false := by
    by_contra hgaveUp
    rw [Bool.not_eq_false] at hgaveUp
    have hlate := ((hsound.tracked id conn hfound).patient hgaveUp).1
    rw [hphase] at hlate
    cases hlate
  constructor
  · intro hall hleaving
    obtain ⟨final, hdrop, hexited, hanswered, hconnections⟩ :=
      HostState.exists_drop config after (by
        rw [haccepts.worker_of_leaving hleaving])
    rw [← hconnections] at hwaiting
    refine HostState.not_completes_of_exited hexited ?_ (hall final _
      (Reachable.refl _ |>.tail (hostStep_of_next hdrop)) hwaiting hpatient)
    intro call hcall hreply
    rw [hanswered, haccepts.answered] at hcall
    have hlate := ((hsound.tracked id conn hfound).requested call.1
      (hsound.ordered.of_answered hcall) hreply).1
    rw [hphase] at hlate
    cases hlate
  · intro hworker final found hreachable hfinal hstays
    have hawaits : after.Awaits config ⟨payload, id⟩ :=
      ⟨hafterSound, haccepts.keeps hworker, _, hwaiting, .inr (.inl rfl)⟩
    exact (HostState.reachable_invariant (fun _ _ hbefore => hbefore.effect)
      hreachable hawaits).completes hfinal hstays

def drainingRun : HostState := .afterLabels smallHost
    (clientArrives 7 ++ [.handler 0 .read, .stop, .worker .proceed])

theorem drainingRun_completes :
    ∃ after, drainingRun.next smallHost (.handler 0 (.submit false)) = some after ∧
      drainingRun.stop = true ∧ drainingRun.dispatcher.worker = .draining ∧
      after.Completes smallHost 0 := by
  have hworker : drainingRun.dispatcher.worker = .draining := by
    decide +kernel
  obtain ⟨after, hstep, hwaiting, hpatient⟩ : ∃ after,
      drainingRun.next smallHost (.handler 0 (.submit false)) = some after ∧
      (after.connections 0).map Connection.phase = some .waiting ∧
      (after.connections 0).map Connection.gaveUp = some false := exists_found (by decide +kernel)
  obtain ⟨conn, hfound, hstays⟩ := Option.map_eq_some_iff.mp hpatient
  have hreached : drainingRun.Reached smallHost := HostState.afterLabels_reached smallHost _
  have hcompletes := (enqueued_completes_iff hreached hstep hwaiting).mpr (by rw [hworker]; simp)
  exact ⟨after, hstep, by decide +kernel, hworker, hcompletes after conn (.refl _) hfound hstays⟩

def lateRun : HostState := .afterLabels smallHost
    (clientArrives 7 ++ [.stop, .worker .proceed, .worker .proceed,
      .handler 0 .read, .handler 0 (.submit false), .worker .proceed,
      .handler 0 .receive, .handler 0 (.write 99)])

theorem lateRun_loses_request : lateRun.Reached smallHost ∧ lateRun.stop = true ∧
    lateRun.dispatcher.enqueued = [⟨[7], 0⟩] ∧ lateRun.dispatcher.dispatched = [] ∧
    (∃ conn, lateRun.connections 0 = some conn ∧
      conn.gaveUp = false ∧ conn.sent = kernelTimeout.encode) ∧ ¬lateRun.Completes smallHost 0 := by
  have hanswered : lateRun.dispatcher.answered = [] := by decide +kernel
  refine ⟨HostState.afterLabels_reached smallHost _, by decide +kernel,
    by decide +kernel, by decide +kernel, exists_found (by decide +kernel), ?_⟩
  refine HostState.not_completes_of_exited (by decide +kernel) ?_
  exact forall_mem_nil _

end Host
end Canon
