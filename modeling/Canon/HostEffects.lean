import Canon.HostServer

/-!
# What a step of the host can do

A step of the host leaves the connections and the queue alone, accepts a
connection, moves one connection on, puts a request into the queue, lets the worker
go on, or delivers a reply.  The invariants are shown for these effects.
-/

namespace Canon
namespace Host

/-! ## A connection moves on -/

def Phase.isOver : Phase → Bool
  | .closing | .releasing | .ended => true
  | _ => false

variable {phase : Phase}

theorem Phase.isLate_of_isOver (hover : phase.isOver = true) : phase.isLate = true := by
  cases phase <;> first | rfl | cases hover

theorem Phase.response?_of_isOver (hover : phase.isOver = true) : phase.response? = none := by
  cases phase <;> first | rfl | cases hover

def Phase.slots (phase : Phase) : ℕ := if phase.hasSlot then 1 else 0

structure Connection.Follows (config : ServerConfig) (pending : Bool)
    (conn next : Connection) : Prop where
  stream : next.stream = conn.stream
  late : conn.phase.isLate = true → next.phase.isLate = true
  left : next.phase ≠ .waiting
  submitting : ∀ payload, next.phase = .submitting payload →
    (readFrame config.handler.maxFrameSize conn.stream).1 = .ok payload
  received : next.received = conn.received ∨
    conn.phase = .waiting ∧ conn.reply.isSome = true ∧
      next.received = conn.reply
  reply : next.reply = conn.reply ∨ next.reply = none
  gaveUp : conn.gaveUp = true → next.gaveUp = true
  patient : next.gaveUp = true → conn.gaveUp = true ∨ next.phase.isLate = true
  waited : conn.phase = .waiting → next.gaveUp = true ∨
    next.received = conn.reply ∧ conn.reply.isSome = true ∨
    conn.reply = none ∧ pending = false
  decided : ∀ response, conn.phase.response? = none →
    next.phase.response? = some response →
    conn.phase.isLate = false ∧ response.verdict ≠ .ok ∨
    conn.phase = .waiting ∧ (conn.reply = some response ∨
      conn.reply = none ∧ response.verdict ≠ .ok)
  answered : ∀ response, conn.phase.response? = some response →
    next.phase.isOver = true ∧ (next.sent = conn.sent ∨
      ∃ count, next.sent = response.encode.take count)
  stays : conn.phase.isOver = true → next.phase.isOver = true
  unsent : conn.phase.response? = none → next.sent = conn.sent

section Follows

variable {config : ServerConfig} {pending : Bool} {conn next : Connection}

theorem Connection.Follows.of_goTo (hearly : conn.phase.isLate = false)
    (hundecided : conn.phase.response? = none) (hleft : phase ≠ .waiting)
    (hsubmitting : ∀ payload, phase = .submitting payload →
      (readFrame config.handler.maxFrameSize conn.stream).1 = .ok payload)
    (hresponse : ∀ response, phase.response? = some response → response.verdict ≠ .ok) :
    conn.Follows config pending (conn.goTo phase) where
  stream := rfl
  late hlate := by
    rw [hearly] at hlate
    cases hlate
  left := hleft
  submitting := hsubmitting
  received := .inl rfl
  reply := .inl rfl
  gaveUp := id
  patient := .inl
  waited hwaiting := by
    rw [hwaiting] at hearly
    cases hearly
  decided response _ hsome := .inl ⟨hearly, hresponse response hsome⟩
  answered response hsome := by
    rw [hundecided] at hsome
    cases hsome
  stays hover := by
    rw [Phase.isLate_of_isOver hover] at hearly
    cases hearly
  unsent _ := rfl

theorem Connection.Follows.of_over (hstream : next.stream = conn.stream)
    (hover : next.phase.isOver = true) (hreceived : next.received = conn.received)
    (hreply : next.reply = conn.reply) (hgaveUp : conn.gaveUp = true → next.gaveUp = true)
    (hwaited : conn.phase = .waiting → next.gaveUp = true)
    (hsent : next.sent = conn.sent ∨ ∃ response count, conn.phase.response? = some response ∧
        next.sent = response.encode.take count) :
    conn.Follows config pending next where
  stream := hstream
  late _ := Phase.isLate_of_isOver hover
  left hwaiting := by
    rw [hwaiting] at hover
    cases hover
  submitting payload hphase := by
    rw [hphase] at hover
    cases hover
  received := .inl hreceived
  reply := .inl hreply
  gaveUp := hgaveUp
  patient _ := .inr (Phase.isLate_of_isOver hover)
  waited hwaiting := .inl (hwaited hwaiting)
  decided response _ hsome := by
    rw [Phase.response?_of_isOver hover] at hsome
    cases hsome
  answered response hsome := by
    refine ⟨hover, hsent.imp_right ?_⟩
    rintro ⟨other, count, hother, htake⟩
    rw [hsome] at hother
    cases hother
    exact ⟨count, htake⟩
  stays _ := hover
  unsent hnone := by
    rcases hsent with hsame | ⟨response, _, hsome, _⟩
    · exact hsame
    · rw [hnone] at hsome
      cases hsome

theorem Connection.readRequest_follows (hphase : conn.phase = .reading) :
    conn.Follows config pending (conn.readRequest config) := by
  have hearly : conn.phase.isLate = false := by rw [hphase]; rfl
  have hundecided : conn.phase.response? = none := by rw [hphase]; rfl
  unfold Connection.readRequest
  split
  next payload hframe =>
    refine .of_goTo hearly hundecided (by simp) ?_ (by simp [Phase.response?])
    intro other hother
    cases hother
    exact hframe
  next =>
    exact .of_goTo hearly hundecided (by simp) (by simp) (by simp [Phase.response?])
  next error _ _ =>
    refine .of_goTo hearly hundecided (by simp) (by simp) ?_
    intro response hresponse
    cases hresponse
    simp [VerdictResponse.withReason]

theorem Connection.Follows.of_unreplied
    (hphase : conn.phase = .waiting) (hreply : conn.reply = none)
    (hnext : next = { conn with
      phase := .responding kernelTimeout, gaveUp := next.gaveUp })
    (hgaveUp : conn.gaveUp = true → next.gaveUp = true)
    (hwaited : next.gaveUp = true ∨ pending = false) :
    conn.Follows config pending next := by
  rw [hnext]
  constructor
  · rfl
  · exact fun _ => rfl
  · simp
  · simp
  · exact .inl rfl
  · exact .inl rfl
  · exact hgaveUp
  · exact fun _ => .inr rfl
  · exact fun _ => hwaited.imp_right fun hpending => .inr ⟨hreply, hpending⟩
  · intro response _ hsome
    cases hsome
    exact .inr ⟨hphase, .inr ⟨hreply, by
      simp [kernelTimeout, VerdictResponse.withReason]⟩⟩
  · simp [hphase, Phase.response?]
  · simp [hphase, Phase.isOver]
  · exact fun _ => rfl

theorem Connection.Follows.of_received {response : VerdictResponse}
    (hphase : conn.phase = .waiting) (hreply : conn.reply = some response) :
    conn.Follows config pending { conn with
      phase := .responding response, reply := none
      received := some response } where
  stream := rfl
  late _ := rfl
  left := by simp
  submitting := by simp
  received := .inr ⟨hphase, by rw [hreply]; rfl, hreply.symm⟩
  reply := .inr rfl
  gaveUp := id
  patient := .inl
  waited _ := .inr (.inl ⟨hreply.symm, by rw [hreply]; rfl⟩)
  decided other _ hsome := by
    cases hsome
    exact .inr ⟨hphase, .inl hreply⟩
  answered := by simp [hphase, Phase.response?]
  stays := by simp [hphase, Phase.isOver]
  unsent _ := rfl

theorem Connection.advance_follows {event : HandlerEvent}
    (hadvance : conn.advance config pending event = some next) :
    conn.Follows config pending next := by
  have hover : ∀ {phase : Phase} {gaveUp : Bool}, phase.isOver = true →
      (conn.gaveUp = true → gaveUp = true) → (conn.phase = .waiting → gaveUp = true) →
      conn.Follows config pending { conn with
        phase := phase, gaveUp := gaveUp } :=
    fun hphase hgaveUp hwaited =>
      .of_over rfl hphase rfl rfl hgaveUp hwaited (.inl rfl)
  unfold Connection.advance at hadvance
  split at hadvance
  next hphase =>
    split_ifs at hadvance
    cases hadvance
    exact hover rfl id (by simp [hphase])
  next hphase =>
    cases hadvance
    exact Connection.readRequest_follows hphase
  next hphase =>
    split at hadvance
    next response hreply =>
      cases hadvance
      exact .of_received hphase hreply
    next hreply =>
      split_ifs at hadvance with hpending
      cases hadvance
      exact .of_unreplied hphase hreply rfl id (.inr (Bool.eq_false_iff.mpr hpending))
  next hphase =>
    split_ifs at hadvance with hwait
    cases hadvance
    exact .of_unreplied hphase hwait.1 rfl (fun _ => rfl) (.inl rfl)
  next response count hphase =>
    cases hadvance
    exact .of_over rfl rfl rfl rfl id (by simp [hphase])
      (.inr ⟨response, count, by rw [hphase]; rfl, rfl⟩)
  iterate 4 next =>
      cases hadvance
      exact hover rfl (fun _ => rfl) (fun _ => rfl)
  next hphase =>
    cases hadvance
    exact hover rfl id (by simp [hphase])
  next => cases hadvance

end Follows

/-! ## The queue and the worker -/

def WorkerPhase.isIdle : WorkerPhase → Bool
  | .submitting _ _ | .replying _ _ _ => false
  | _ => true

def WorkerPhase.isGone : WorkerPhase → Bool
  | .leaving | .exited => true
  | _ => false

inductive Dispatcher.Works (dispatcher : Dispatcher) : Dispatcher → Prop
  | idled {worker : WorkerPhase} (hidle : dispatcher.worker.isIdle = true)
      (hstays : dispatcher.worker.isGone = false)
      (hnext : worker.isIdle = true) (hexited : worker ≠ .exited)
      (hgone : worker.isGone = true → dispatcher.queue = []) :
      dispatcher.Works { dispatcher with worker := worker }
  | took {request : QueuedRequest} {rest : List QueuedRequest}
      (draining : Bool) (hidle : dispatcher.worker.isIdle = true)
      (hstays : dispatcher.worker.isGone = false) (hqueue : dispatcher.queue = request :: rest) :
      dispatcher.Works { dispatcher with
        queue := rest, worker := .submitting request draining }
  | answered {request : QueuedRequest} {draining : Bool} (response : VerdictResponse)
      (hworker : dispatcher.worker = .submitting request draining) :
      dispatcher.Works { dispatcher with
        worker := .replying request response draining
        answered := dispatcher.answered ++ [(request, response)] }
  | dropped (hworker : dispatcher.worker = .leaving) :
      dispatcher.Works { dispatcher with queue := [], worker := .exited }

section Dispatcher

variable {config : ServerConfig} {dispatcher next : Dispatcher}

theorem Dispatcher.work_works {stop connected : Bool} {event : WorkerEvent}
    (hwork : dispatcher.work stop connected event = some next) : dispatcher.Works next := by
  unfold Dispatcher.work at hwork
  split at hwork
  next hworker =>
    cases hwork
    refine .idled ?_ ?_ ?_ ?_ ?_
    · rw [hworker]
      rfl
    · rw [hworker]
      rfl
    all_goals
      cases stop <;> simp [WorkerPhase.isIdle, WorkerPhase.isGone]
  next hworker =>
    have hidle : dispatcher.worker.isIdle = true := by rw [hworker]; rfl
    have hstays : dispatcher.worker.isGone = false := by rw [hworker]; rfl
    split at hwork
    next hqueue =>
      cases hwork
      exact .took false hidle hstays hqueue
    next hqueue =>
      split_ifs at hwork
      cases hwork
      exact .idled hidle hstays rfl (by simp) fun _ => hqueue
  next hworker =>
    split_ifs at hwork with hempty
    cases hwork
    exact .idled (by rw [hworker]; rfl) (by rw [hworker]; rfl) rfl (by simp) fun _ => hempty.1
  next hworker =>
    cases hwork
    exact .answered _ hworker
  next hworker =>
    have hidle : dispatcher.worker.isIdle = true := by rw [hworker]; rfl
    have hstays : dispatcher.worker.isGone = false := by rw [hworker]; rfl
    split at hwork
    next hqueue =>
      cases hwork
      exact .took true hidle hstays hqueue
    next hqueue =>
      cases hwork
      exact .idled hidle hstays rfl (by simp) fun _ => hqueue
  next hworker =>
    cases hwork
    exact .dropped hworker
  next => cases hwork

inductive Dispatcher.Accepts (config : ServerConfig)
    (request : QueuedRequest) (dispatcher : Dispatcher) : Dispatcher → Prop
  | queued (hworker : dispatcher.worker ≠ .exited)
      (hspace : dispatcher.queue.length < config.capacity) :
      dispatcher.Accepts config request { dispatcher with
        queue := dispatcher.queue ++ [request]
        enqueued := dispatcher.enqueued ++ [request] }
  | handed (hcapacity : config.capacity = 0) (hworker : dispatcher.worker = .receiving) :
      dispatcher.Accepts config request { dispatcher with
        worker := .submitting request false
        enqueued := dispatcher.enqueued ++ [request] }

theorem Dispatcher.trySubmit_accepts {parked : Bool} {request : QueuedRequest}
    (hsubmit : dispatcher.trySubmit config parked request = some next) :
    dispatcher.Accepts config request next := by
  unfold Dispatcher.trySubmit at hsubmit
  split_ifs at hsubmit with hexited hcapacity hparked hspace
  · cases hsubmit
    exact .handed hcapacity hparked.2
  · cases hsubmit
    exact .queued hexited hspace

end Dispatcher

/-! ## The host -/

section Effects

variable {config : ServerConfig} {state next : HostState} {id : ℕ} {conn : Connection}
  {after : Connection} {event : ListenerEvent} {listener : ℕ} {label : HostLabel}

inductive HostState.Effect (config : ServerConfig) (state next : HostState) : Prop
  | idle (hconnections : next.connections = state.connections)
      (hnextId : next.nextId = state.nextId) (hcounter : next.counter = state.counter)
      (hdispatcher : next.dispatcher = state.dispatcher)
  | accepted (kind : ListenerKind) (stream : Reader)
      (hconnections : next.connections = Function.update state.connections
        state.nextId (some (.accepted kind stream))) (hnextId : next.nextId = state.nextId + 1)
      (hcounter : next.counter = state.counter) (hdispatcher : next.dispatcher = state.dispatcher)
  | moved {id : ℕ} {conn after : Connection} (hfound : state.connections id = some conn)
      (hfollows : conn.Follows config (state.dispatcher.ownsReply id) after)
      (hconnections : next.connections = Function.update state.connections id (some after))
      (hnextId : next.nextId = state.nextId)
      (hcounter : next.counter = state.counter + after.phase.slots - conn.phase.slots)
      (hcap : next.counter ≤ state.counter ∨ next.counter ≤ config.slotCap)
      (hdispatcher : next.dispatcher = state.dispatcher)
  | enqueued {id : ℕ} {conn : Connection} {payload : Bytes}
      (hfound : state.connections id = some conn) (hphase : conn.phase = .submitting payload)
      (hconnections : next.connections = Function.update state.connections id
        (some (conn.goTo .waiting))) (hnextId : next.nextId = state.nextId)
      (hcounter : next.counter = state.counter)
      (hdispatcher : state.dispatcher.Accepts config ⟨payload, id⟩
        next.dispatcher)
  | worked (hconnections : next.connections = state.connections)
      (hnextId : next.nextId = state.nextId) (hcounter : next.counter = state.counter)
      (hdispatcher : state.dispatcher.Works next.dispatcher)
  | replied {request : QueuedRequest} {response : VerdictResponse} {draining : Bool}
      (hworker : state.dispatcher.worker = .replying request response draining)
      (hconnections : next.connections = (state.sendReply request.reply response).connections)
      (hnextId : next.nextId = state.nextId) (hcounter : next.counter = state.counter)
      (hdispatcher : next.dispatcher = { state.dispatcher with worker := .back draining })

theorem HostState.Effect.of_moved (hfound : state.connections id = some conn)
    (hfollows : conn.Follows config (state.dispatcher.ownsReply id) after)
    (hslots : after.phase.slots = conn.phase.slots) :
    state.Effect config (state.setConnection id after) := by
  refine .moved hfound hfollows rfl rfl ?_ (.inl (Nat.le_refl _)) rfl
  rw [hslots, Nat.add_sub_cancel]
  rfl

theorem Connection.advance_slots {pending : Bool} {event : HandlerEvent}
    (hadvance : conn.advance config pending event = some after) :
    after.phase.slots = conn.phase.slots := by
  unfold Connection.advance at hadvance
  split at hadvance
  next hphase =>
    split_ifs at hadvance
    cases hadvance
    rw [hphase]
    rfl
  next hphase =>
    cases hadvance
    rw [hphase, Connection.readRequest]
    split <;> rfl
  next hphase =>
    split at hadvance
    next =>
      cases hadvance
      rw [hphase]
      rfl
    next =>
      split_ifs at hadvance
      cases hadvance
      rw [hphase]
      rfl
  next hphase =>
    split_ifs at hadvance
    cases hadvance
    rw [hphase]
    rfl
  iterate 6 next hphase =>
      cases hadvance
      rw [hphase]
      rfl
  next => cases hadvance

theorem HostState.handlerStep_effect {event : HandlerEvent}
    (hfound : state.connections id = some conn)
    (hstep : state.handlerStep config id event conn = some next) : state.Effect config next := by
  unfold HostState.handlerStep at hstep
  split at hstep
  next payload parked hphase =>
    split at hstep
    next dispatcher hsubmit =>
      cases hstep
      exact .enqueued hfound hphase rfl rfl rfl (Dispatcher.trySubmit_accepts hsubmit)
    next =>
      cases hstep
      refine .of_moved hfound (.of_goTo ?_ ?_ (by simp) (by simp) ?_) ?_
      · rw [hphase]
        rfl
      · rw [hphase]
        rfl
      · intro response hresponse
        cases hresponse
        simp [busyResponse, VerdictResponse.fromVerdict]
      · rw [hphase]
        rfl
  next hphase =>
    cases hstep
    have hfollows : conn.Follows config (state.dispatcher.ownsReply id) (conn.goTo .releasing) :=
      .of_over rfl rfl rfl rfl (fun h => h) (by simp [hphase]) (.inl rfl)
    refine .moved hfound hfollows rfl rfl ?_ (.inl (Nat.sub_le _ _)) rfl
    rw [hphase]
    rfl
  next =>
    obtain ⟨after, hadvance, rfl⟩ := Option.map_eq_some_iff.mp hstep
    exact .of_moved hfound (Connection.advance_follows hadvance) (Connection.advance_slots hadvance)

theorem HostState.serveStep_effect (hfound : state.connections id = some conn)
    (hstep : state.serveStep config listener id event conn =
      some next) : state.Effect config next := by
  have hearly : ∀ {phase : Phase}, conn.phase.isLate = false →
      conn.phase.response? = none → phase ≠ .waiting → (∀ payload, phase ≠ .submitting payload) →
      (∀ response, phase.response? = some response → response.verdict ≠ .ok) →
      conn.Follows config (state.dispatcher.ownsReply id) (conn.goTo phase) :=
    fun hlate hundecided hwaiting hsubmitting hresponse =>
      .of_goTo hlate hundecided hwaiting
        (fun payload heq => absurd heq (hsubmitting payload)) hresponse
  unfold HostState.serveStep at hstep
  split at hstep
  next hphase =>
    cases hstep
    refine .of_moved hfound (hearly ?_ ?_ (by simp) (by simp)
      (by simp [Phase.response?])) ?_ <;> rw [hphase] <;> rfl
  next current hphase =>
    have hlate : conn.phase.isLate = false := by rw [hphase]; rfl
    have hundecided : conn.phase.response? = none := by rw [hphase]; rfl
    split_ifs at hstep with hcap hsame
    · cases hstep
      refine .of_moved hfound (hearly hlate hundecided (by simp) (by simp) ?_) ?_
      · intro response hresponse
        cases hresponse
        simp [busyResponse, VerdictResponse.fromVerdict]
      · rw [hphase]
        rfl
    · cases hstep
      refine .moved hfound (hearly hlate hundecided (by simp) (by simp)
        (by simp [Phase.response?])) rfl rfl ?_ (.inr ?_) rfl
      · rw [hphase]
        rfl
      · rw [hsame]
        exact Nat.lt_of_not_le hcap
    · cases hstep
      refine .of_moved hfound (hearly hlate hundecided (by simp) (by simp)
        (by simp [Phase.response?])) ?_
      rw [hphase]
      rfl
  next current hphase =>
    split_ifs at hstep
    cases hstep
    refine .of_moved hfound (hearly ?_ ?_ (by simp) (by simp)
      (by simp [Phase.response?])) ?_ <;> rw [hphase] <;> rfl
  next hphase =>
    cases hstep
    refine .moved hfound (hearly ?_ ?_ (by simp) (by simp)
      (by simp [Phase.response?])) rfl rfl ?_ (.inl (Nat.le_refl _)) rfl
    · rw [hphase]
      rfl
    · rw [hphase]
      rfl
    · rw [hphase]
      exact (Nat.add_sub_cancel _ _).symm
  next hphase =>
    cases hstep
    refine .moved hfound (hearly ?_ ?_ (by simp) (by simp)
      (by simp [Phase.response?])) rfl rfl ?_ (.inl (Nat.sub_le _ _)) rfl <;>
      rw [hphase] <;> rfl
  next count hphase =>
    cases hstep
    have hfollows : conn.Follows config (state.dispatcher.ownsReply id)
        { conn with
          phase := .ended
          sent := if conn.kind = .tls then []
            else busyResponse.encode.take count } := by
      refine .of_over rfl rfl rfl rfl (fun h => h) (by simp [hphase])
        (.inr ⟨busyResponse, if conn.kind = .tls then 0 else count, by rw [hphase]; rfl, ?_⟩)
      split_ifs <;> rfl
    refine .moved hfound hfollows rfl rfl ?_ (.inl (Nat.le_refl _)) rfl
    rw [hphase]
    rfl
  next => cases hstep

theorem HostState.listenerStep_effect {kind : ListenerKind}
    (hstep : state.listenerStep config listener event kind = some next) :
    state.Effect config next := by
  unfold HostState.listenerStep at hstep
  split at hstep
  next =>
    by_cases hproceed : event = .proceed
    · rw [if_pos hproceed] at hstep
      cases hstep
      exact .idle rfl rfl rfl rfl
    · rw [if_neg hproceed] at hstep
      cases hstep
  next =>
    split at hstep
    next stream =>
      cases hstep
      exact .accepted kind stream rfl rfl rfl rfl
    next =>
      cases hstep
      exact .idle rfl rfl rfl rfl
    next => cases hstep
  next =>
    obtain ⟨conn, hfound, hserve⟩ := Option.bind_eq_some_iff.mp hstep
    exact HostState.serveStep_effect hfound hserve
  next => cases hstep

theorem HostState.workerStep_effect {event : WorkerEvent}
    (hstep : state.workerStep config event = some next) : state.Effect config next := by
  unfold HostState.workerStep at hstep
  split at hstep
  next hworker =>
    cases hstep
    refine .replied hworker rfl ?_ ?_ rfl
    all_goals
      unfold HostState.sendReply
      split
      · rfl
      · split_ifs <;> rfl
  next =>
    obtain ⟨dispatcher, hwork, rfl⟩ := Option.map_eq_some_iff.mp hstep
    exact .worked rfl rfl rfl (Dispatcher.work_works hwork)

theorem HostState.mainStep_effect {timeout : Bool}
    (hstep : state.mainStep config timeout = some next) : state.Effect config next := by
  unfold HostState.mainStep at hstep
  split at hstep
  iterate 3 next =>
      split_ifs at hstep
      cases hstep
      exact .idle rfl rfl rfl rfl
  next => cases hstep

theorem HostState.next_effect (hstep : state.next config label = some next) :
    state.Effect config next := by
  cases label with
  | stop =>
    cases hstep
    exact .idle rfl rfl rfl rfl
  | main => exact HostState.mainStep_effect hstep
  | listener =>
    obtain ⟨kind, _, hlistener⟩ := Option.bind_eq_some_iff.mp hstep
    exact HostState.listenerStep_effect hlistener
  | handler =>
    obtain ⟨conn, hfound, hhandler⟩ := Option.bind_eq_some_iff.mp hstep
    exact HostState.handlerStep_effect hfound hhandler
  | worker => exact HostState.workerStep_effect hstep

theorem hostStep_ok (hstep : hostStep config state label = .ok next) :
    state.next config label = some next := by
  unfold hostStep at hstep
  cases hnext : state.next config label with
  | none =>
    rw [hnext] at hstep
    cases hstep
  | some =>
    rw [hnext] at hstep
    cases hstep
    rfl

theorem hostStep_of_next (hnext : state.next config label = some next) :
    hostStep config state label = .ok next := by
  rw [hostStep, hnext]
  rfl

theorem HostState.reachable_invariant {invariant : HostState → Prop}
    (heffect : ∀ state next, invariant state → state.Effect config next → invariant next)
    {start final : HostState} (hreachable : Reachable (hostStep config) start final)
    (hstart : invariant start) : invariant final :=
  hreachable.invariant (fun before _ after hstep hbefore =>
    heffect before after hbefore (HostState.next_effect (hostStep_ok hstep)))
    hstart

/-- The state after a schedule; a step that is blocked is left out. -/
def HostState.afterLabels (config : ServerConfig) (labels : List HostLabel) :
    HostState :=
  labels.foldl (fun state label => (state.next config label).getD state) .initial

theorem HostState.afterLabels_reached (config : ServerConfig) (labels : List HostLabel) :
    (HostState.afterLabels config labels).Reached config := by
  induction labels using List.reverseRecOn with
  | nil => exact .refl _
  | append_singleton labels label ih =>
    rw [HostState.afterLabels, List.foldl_concat]
    change HostState.Reached config (((HostState.afterLabels config
      labels).next config label).getD (HostState.afterLabels config labels))
    cases hnext : (HostState.afterLabels config labels).next config label with
    | none => exact ih
    | some => exact ih.tail (hostStep_of_next hnext)

theorem exists_found {α : Type} {found : Option α} {fact : α → Prop} [DecidablePred fact]
    (hany : found.any (fun result => fact result) = true) :
    ∃ result, found = some result ∧ fact result := by
  cases found with
  | none => cases hany
  | some result => exact ⟨result, rfl, of_decide_eq_true hany⟩

end Effects

end Host
end Canon
