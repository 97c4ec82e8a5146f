import Canon.HostFrames
import Canon.TransitionRuns

/-!
# The threads of the host

`canon-host` runs listener threads, one thread per accepted connection, and one
worker.  A connection thread reads its frame, puts the request into a bounded queue
and waits for the reply of the worker.  Every request has a reply channel of its own,
named here by the number of its connection.

Time is left to the environment: a wait with a timeout ends at any moment at which
its channel has nothing to offer, and the kernel answers whenever it likes.  A panic
of a connection thread is modelled as in a build that unwinds.
-/

namespace Canon
namespace Host

/-! ## Configuration -/

def hardMaxQueueDepth : ℕ := 65536
def hardMaxConcurrentConnections : ℕ := 65536

inductive ListenerKind where
  | tcp
  | tls
  | unix
  deriving DecidableEq, Repr

structure HandlerConfig where
  maxFrameSize : ℕ
  maxConcurrentConnections : ℕ

structure ServerConfig where
  maxQueueDepth : ℕ
  handler : HandlerConfig
  listeners : List ListenerKind

/-- The capacity `BoundedQueue::new` gives to its channel. -/
def ServerConfig.capacity (config : ServerConfig) : ℕ := min config.maxQueueDepth hardMaxQueueDepth

/-- The cap `ConnectionSlot::try_acquire` compares the counter with. -/
def ServerConfig.slotCap (config : ServerConfig) : ℕ :=
  min config.handler.maxConcurrentConnections hardMaxConcurrentConnections

/-! ## The queue and the worker -/

/-- A request; `reply` names its reply channel. -/
structure QueuedRequest where
  payload : Bytes
  reply : ℕ
  deriving DecidableEq, Repr

/-- What `kernel.submit` does. -/
inductive KernelAnswer where
  | returned (response : VerdictResponse)
  | panicked (detail : String)
  deriving DecidableEq, Repr

def catchUnwindingSubmit : KernelAnswer → VerdictResponse
  | .returned response => response
  | .panicked detail =>
    .withReason .notAdmissible ("kernel panicked: " ++ detail)

/-- Where the worker is.  A request in its hands comes from the loop, or from the
draining after the stop flag was seen. -/
inductive WorkerPhase where
  | checking
  | receiving
  | submitting (request : QueuedRequest) (draining : Bool)
  | replying (request : QueuedRequest) (response : VerdictResponse) (draining : Bool)
  | draining
  | leaving
  | exited
  deriving DecidableEq, Repr

def WorkerPhase.current : WorkerPhase → Option QueuedRequest
  | .submitting request _ | .replying request _ _ => some request
  | _ => none

def WorkerPhase.inKernel : WorkerPhase → Option QueuedRequest
  | .submitting request _ => some request
  | _ => none

def WorkerPhase.outgoing : WorkerPhase → Option (QueuedRequest × VerdictResponse)
  | .replying request response _ => some (request, response)
  | _ => none

def WorkerPhase.back (draining : Bool) : WorkerPhase :=
  if draining then .draining else .checking

/-- The channel with the worker behind it.  `enqueued` and `answered` are the
requests accepted so far, and those which the kernel has answered. -/
structure Dispatcher where
  queue : List QueuedRequest
  worker : WorkerPhase
  enqueued : List QueuedRequest
  answered : List (QueuedRequest × VerdictResponse)

def Dispatcher.initial : Dispatcher := ⟨[], .checking, [], []⟩

def Dispatcher.dispatched (dispatcher : Dispatcher) : List QueuedRequest :=
  dispatcher.answered.map Prod.fst ++ dispatcher.worker.inKernel.toList

def Dispatcher.admitted (dispatcher : Dispatcher) : List QueuedRequest :=
  (dispatcher.answered.filter fun call => call.2.verdict = .ok).map Prod.fst

/-- The sending half of a reply channel exists as long as its request. -/
def Dispatcher.ownsReply (dispatcher : Dispatcher) (id : ℕ) : Bool :=
  (dispatcher.queue ++ dispatcher.worker.current.toList).any fun request =>
    request.reply = id

/-- `try_send` of `BoundedQueue::try_submit`.  A channel without capacity hands the
request over to a worker which is parked in `recv_timeout`, as `parked` says. -/
def Dispatcher.trySubmit (config : ServerConfig) (parked : Bool)
    (request : QueuedRequest) (dispatcher : Dispatcher) : Option Dispatcher :=
  if dispatcher.worker = .exited then none
  else if config.capacity = 0 then
    if parked = true ∧ dispatcher.worker = .receiving then
      some { dispatcher with
        worker := .submitting request false
        enqueued := dispatcher.enqueued ++ [request] }
    else none
  else if dispatcher.queue.length < config.capacity then
    some { dispatcher with
      queue := dispatcher.queue ++ [request]
      enqueued := dispatcher.enqueued ++ [request] }
  else none

/-- What happens to the worker: it goes on, its wait times out, or the kernel
answers. -/
inductive WorkerEvent where
  | proceed
  | timeout
  | answer (answer : KernelAnswer)
  deriving DecidableEq, Repr

/-- A step of `worker_loop`, the sending of a reply apart.  `connected` says whether
a sender of the queue is left. -/
def Dispatcher.work (stop connected : Bool) (event : WorkerEvent)
    (dispatcher : Dispatcher) : Option Dispatcher :=
  match dispatcher.worker, event with
  | .checking, .proceed =>
    some { dispatcher with
      worker := if stop then .draining else .receiving }
  | .receiving, .proceed =>
    match dispatcher.queue with
    | request :: rest =>
      some { dispatcher with
        queue := rest, worker := .submitting request false }
    | [] =>
      if connected then none
      else some { dispatcher with worker := .leaving }
  | .receiving, .timeout =>
    if dispatcher.queue = [] ∧ connected = true then
      some { dispatcher with worker := .checking }
    else none
  | .submitting request draining, .answer answer =>
    let response := catchUnwindingSubmit answer
    some { dispatcher with
      worker := .replying request response draining
      answered := dispatcher.answered ++ [(request, response)] }
  | .draining, .proceed =>
    match dispatcher.queue with
    | request :: rest =>
      some { dispatcher with
        queue := rest, worker := .submitting request true }
    | [] => some { dispatcher with worker := .leaving }
  | .leaving, .proceed =>
    some { dispatcher with queue := [], worker := .exited }
  | _, _ => none

/-! ## Connections -/

/-- Where a connection is: with its listener, in its own thread, or over.  A thread
gives its slot back before its handle of the queue. -/
inductive Phase where
  | loading
  | acquiring (current : ℕ)
  | refused
  | spawning
  | reading
  | submitting (payload : Bytes)
  | waiting
  | responding (response : VerdictResponse)
  | closing
  | releasing
  | ended
  deriving DecidableEq, Repr

def Phase.hasSlot : Phase → Bool
  | .spawning | .reading | .submitting _ | .waiting | .responding _
  | .closing => true
  | _ => false

def Phase.hasQueue : Phase → Bool
  | .releasing => true
  | phase => phase.hasSlot

def Phase.hasReceiver : Phase → Bool
  | .waiting | .responding _ => true
  | _ => false

def Phase.isLate : Phase → Bool
  | .waiting | .responding _ | .closing | .releasing | .ended => true
  | _ => false

def busyResponse : VerdictResponse := .fromVerdict .busy

def kernelTimeout : VerdictResponse :=
  .withReason .notAdmissible "kernel timeout"

def Phase.response? : Phase → Option VerdictResponse
  | .responding response => some response
  | .refused => some busyResponse
  | _ => none

/-- A connection: what its client sends, the content of its reply channel, and the
bytes sent to the client.  `received` is the reply taken from the channel, and
`gaveUp` says that the thread stopped waiting for it. -/
structure Connection where
  kind : ListenerKind
  stream : Reader
  phase : Phase
  reply : Option VerdictResponse
  sent : Bytes
  received : Option VerdictResponse
  gaveUp : Bool

def Connection.accepted (kind : ListenerKind) (stream : Reader) :
    Connection :=
  ⟨kind, stream, .loading, none, [], none, false⟩

def Connection.goTo (conn : Connection) (phase : Phase) : Connection := { conn with phase := phase }

inductive HandlerEvent where
  | setupFailure
  | read
  | submit (parked : Bool)
  | receive
  | expire
  | write (count : ℕ)
  | panic
  | release
  | finish
  deriving DecidableEq, Repr

def Connection.readRequest (config : ServerConfig) (conn : Connection) :
    Connection :=
  match (readFrame config.handler.maxFrameSize conn.stream).1 with
  | .ok payload => conn.goTo (.submitting payload)
  | .error .eofBeforeHeader => conn.goTo .closing
  | .error error =>
    conn.goTo (.responding
      (.withReason .parseError ("frame read: " ++ error.display)))

/-- The steps of `handle_connection` which do not touch the queue or the counter.
`pending` says that the other half of the reply channel exists. -/
def Connection.advance (config : ServerConfig) (pending : Bool)
    (event : HandlerEvent) (conn : Connection) : Option Connection :=
  match conn.phase, event with
  | .reading, .setupFailure =>
    if conn.kind = .tls then some (conn.goTo .closing) else none
  | .reading, .read => some (conn.readRequest config)
  | .waiting, .receive =>
    match conn.reply with
    | some response =>
      some { conn with
        phase := .responding response, reply := none
        received := some response }
    | none =>
      if pending then none
      else some (conn.goTo (.responding kernelTimeout))
  | .waiting, .expire =>
    if conn.reply = none ∧ pending = true then
      some { conn with
        phase := .responding kernelTimeout, gaveUp := true }
    else none
  | .responding response, .write count =>
    some { conn with
      phase := .closing, sent := response.encode.take count }
  | .reading, .panic | .submitting _, .panic | .waiting, .panic
  | .responding _, .panic =>
    some { conn with phase := .closing, gaveUp := true }
  | .releasing, .finish => some (conn.goTo .ended)
  | _, _ => none

/-! ## The host -/

inductive ListenerPhase where
  | checking
  | accepting
  | serving (id : ℕ)
  | exited
  deriving DecidableEq, Repr

/-- What happens to a listener: it goes on, a client connects or does not, the
weak exchange fails without a reason, the system has no thread for it, or some bytes
are written to a refused client. -/
inductive ListenerEvent where
  | proceed
  | connect (stream : Reader)
  | nothing
  | spuriousFailure
  | spawnFailure
  | write (count : ℕ)
  deriving DecidableEq, Repr

/-- `Server::run`: it joins the listeners, waits for the connections, drops its
handle of the queue, and joins the worker. -/
inductive MainPhase where
  | joiningListeners
  | draining
  | joiningWorker
  | returned
  deriving DecidableEq, Repr

structure HostState where
  stop : Bool
  counter : ℕ
  nextId : ℕ
  connections : ℕ → Option Connection
  listeners : ℕ → ListenerPhase
  main : MainPhase
  dispatcher : Dispatcher

def HostState.initial : HostState where
  stop := false
  counter := 0
  nextId := 0
  connections := fun _ => none
  listeners := fun _ => .checking
  main := .joiningListeners
  dispatcher := .initial

def HostState.setConnection (state : HostState) (id : ℕ) (conn : Connection) : HostState :=
  { state with
    connections := Function.update state.connections id (some conn) }

theorem HostState.setConnection_self (state : HostState) (id : ℕ) (conn : Connection) :
    (state.setConnection id conn).connections id = some conn := Function.update_self _ _ _

def HostState.setListener (state : HostState) (listener : ℕ) (phase : ListenerPhase) : HostState :=
  { state with listeners := Function.update state.listeners listener phase }

def HostState.connected (config : ServerConfig) (state : HostState) : Bool :=
  state.main = .joiningListeners || state.main = .draining ||
    (List.range config.listeners.length).any (fun listener =>
      state.listeners listener ≠ .exited) ||
    (List.range state.nextId).any (fun id =>
      (state.connections id).any fun conn => conn.phase.hasQueue)

/-- A step of `accept_loop` for a connection: the slot is acquired by comparing and
exchanging the counter, and the thread is spawned or the client is refused. -/
def HostState.serveStep (config : ServerConfig) (state : HostState)
    (listener id : ℕ) (event : ListenerEvent) (conn : Connection) : Option HostState :=
  match conn.phase, event with
  | .loading, .proceed =>
    some (state.setConnection id (conn.goTo (.acquiring state.counter)))
  | .acquiring current, .proceed =>
    if config.slotCap ≤ current then
      some (state.setConnection id (conn.goTo .refused))
    else if state.counter = current then
      some { state.setConnection id (conn.goTo .spawning) with
        counter := state.counter + 1 }
    else
      some (state.setConnection id (conn.goTo (.acquiring state.counter)))
  | .acquiring current, .spuriousFailure =>
    if config.slotCap ≤ current then none
    else some (state.setConnection id (conn.goTo (.acquiring state.counter)))
  | .spawning, .proceed =>
    some ((state.setConnection id (conn.goTo .reading)).setListener listener .checking)
  | .spawning, .spawnFailure =>
    some { (state.setConnection id (conn.goTo .ended)).setListener
      listener .exited with counter := state.counter - 1 }
  | .refused, .write count =>
    some ((state.setConnection id { conn with
      phase := .ended
      sent := if conn.kind = .tls then []
        else busyResponse.encode.take count }).setListener listener .checking)
  | _, _ => none

def HostState.listenerStep (config : ServerConfig) (state : HostState)
    (listener : ℕ) (event : ListenerEvent) (kind : ListenerKind) : Option HostState :=
  match state.listeners listener with
  | .checking =>
    if event = .proceed then
      some (state.setListener listener (if state.stop then .exited else .accepting))
    else none
  | .accepting =>
    match event with
    | .connect stream =>
      some { (state.setConnection state.nextId (.accepted kind stream)).setListener listener
          (.serving state.nextId) with nextId := state.nextId + 1 }
    | .nothing => some (state.setListener listener .checking)
    | _ => none
  | .serving id =>
    (state.connections id).bind (state.serveStep config listener id event)
  | .exited => none

def HostState.handlerStep (config : ServerConfig) (state : HostState)
    (id : ℕ) (event : HandlerEvent) (conn : Connection) : Option HostState :=
  match conn.phase, event with
  | .submitting payload, .submit parked =>
    match state.dispatcher.trySubmit config parked ⟨payload, id⟩ with
    | some dispatcher =>
      some { state.setConnection id (conn.goTo .waiting) with
        dispatcher := dispatcher }
    | none =>
      some (state.setConnection id (conn.goTo (.responding busyResponse)))
  | .closing, .release =>
    some { state.setConnection id (conn.goTo .releasing) with
      counter := state.counter - 1 }
  | _, _ =>
    (conn.advance config (state.dispatcher.ownsReply id) event).map
      fun next => state.setConnection id next

/-- `reply.try_send`: the reply is dropped with the receiving half. -/
def HostState.sendReply (state : HostState) (id : ℕ) (response : VerdictResponse) : HostState :=
  match state.connections id with
  | none => state
  | some conn =>
    if conn.phase.hasReceiver ∧ conn.reply = none then
      state.setConnection id { conn with reply := some response }
    else state

def HostState.workerStep (config : ServerConfig) (state : HostState)
    (event : WorkerEvent) : Option HostState :=
  match state.dispatcher.worker, event with
  | .replying request response draining, .proceed =>
    some { state.sendReply request.reply response with
      dispatcher := { state.dispatcher with worker := .back draining } }
  | _, _ =>
    (state.dispatcher.work state.stop (state.connected config) event).map
      fun dispatcher => { state with dispatcher := dispatcher }

/-- A step of `Server::run`; `timeout` says that the deadline for the connections
has passed. -/
def HostState.mainStep (config : ServerConfig) (state : HostState)
    (timeout : Bool) : Option HostState :=
  match state.main with
  | .joiningListeners =>
    if (List.range config.listeners.length).all (fun listener =>
        state.listeners listener = .exited) then
      some { state with main := .draining }
    else none
  | .draining =>
    if state.counter = 0 ∨ timeout = true then
      some { state with main := .joiningWorker }
    else none
  | .joiningWorker =>
    if state.dispatcher.worker = .exited then
      some { state with main := .returned }
    else none
  | .returned => none

inductive HostLabel where
  | stop
  | main (timeout : Bool)
  | listener (listener : ℕ) (event : ListenerEvent)
  | handler (id : ℕ) (event : HandlerEvent)
  | worker (event : WorkerEvent)
  deriving DecidableEq, Repr

inductive Blocked where
  | blocked

def HostState.next (config : ServerConfig) (state : HostState) : HostLabel → Option HostState
  | .stop => some { state with stop := true }
  | .main timeout => state.mainStep config timeout
  | .listener listener event =>
    config.listeners[listener]?.bind (state.listenerStep config listener event)
  | .handler id event =>
    (state.connections id).bind (state.handlerStep config id event)
  | .worker event => state.workerStep config event

def hostStep (config : ServerConfig) (state : HostState)
    (label : HostLabel) : Except Blocked HostState :=
  (state.next config label).elim (.error .blocked) .ok

def HostState.Reached (config : ServerConfig) (state : HostState) : Prop :=
  Reachable (hostStep config) .initial state

end Host
end Canon
