import Canon.EventCache
import Canon.TransitionRuns

/-!
# The event server

One extractor thread reads the frames of the log, pushes the events of a frame
to the cache and offers them to the subscribers of a snapshot of the registry,
all under the lock of the cache.  Every connection has a thread of its own, which
writes the backfill and then what arrives in its bounded queue.  The main thread
waits for the stop flag and then asks all subscribers to shut down.

A step of the model is one access to something that another thread can see: a
load or store of a flag, one operation on a queue, on the registry or on the
locked cache, one write to the socket.  What the operating system decides is part
of a step's label.  The log is a parameter, so that a server which is started again
reads the same frames from the first one on.  The history of a connection is not
read by any step.
-/

namespace Canon
namespace EventStream

open Sequenced

/-! ## Data -/

inductive DeliveryEvent (α : Type) where
  | live (event : CachedEvent α)
  | shutdown
  deriving DecidableEq

inductive OutboundFrame (α : Type) where
  | event (event : CachedEvent α)
  | lagExceeded (lastDeliveredSeq : ℕ)
  | truncated (oldestAvailableSeq : ℕ)
  | serverShutdown (lastDeliveredSeq : ℕ)
  | invalidRequest
  deriving DecidableEq

structure ServerConfig where
  keepHistory : ℕ
  sendQueueDepth : ℕ
  maxSubscriberLag : ℕ
  maxSubscribers : ℕ
  keepHistory_pos : 0 < keepHistory

def ServerConfig.queueDepth (config : ServerConfig) : ℕ := max 1 (min config.sendQueueDepth 65536)

def ServerConfig.lagLimit (config : ServerConfig) : ℕ := min config.maxSubscriberLag 1000000

/-- What is left to do of a call of `try_enqueue`. -/
inductive EnqueueOp (α : Type) where
  | check (event : CachedEvent α)
  | send (event : CachedEvent α)
  | evict
  deriving DecidableEq

/-- What is left to do of a call of `request_shutdown`. -/
inductive ShutdownOp where
  | check
  | flag
  | send
  | evict
  deriving DecidableEq

inductive Phase (α : Type) where
  | registered
  | truncating (oldestAvailableSeq : ℕ)
  | backfilling (rest : List (CachedEvent α))
  | backfilled
  | requesting (op : ShutdownOp)
  | entering
  | draining (maxBackfilled : ℕ) (pending : List (DeliveryEvent α))
  | looping (pending : List (DeliveryEvent α))
  | checking (pending : List (DeliveryEvent α))
  | pulling (pending : List (DeliveryEvent α))
  | handling (next : DeliveryEvent α) (pending : List (DeliveryEvent α))
  | closing (frame : OutboundFrame α)
  | unregistering
  | closed
  deriving DecidableEq

inductive EnqueueOutcome where
  | enqueued
  | lagging (lag : ℕ)
  | lagExceeded
  | disconnected
  deriving DecidableEq

def EnqueueOutcome.overflowed : EnqueueOutcome → Bool
  | .lagging _ => true
  | .lagExceeded => true
  | _ => false

abbrev Offer (α : Type) := CachedEvent α × EnqueueOutcome

structure History (α : Type) where
  /-- The frames whose snapshot was taken before the registration. -/
  since : ℕ
  /-- The frames read before the registration. -/
  registeredAt : ℕ
  /-- The frames read when the cache answered with what it holds. -/
  joinedAt : Option ℕ
  before : List (Offer α)
  after : List (Offer α)
  taken : List (CachedEvent α)

structure Connection (α : Type) where
  resumeFrom : ℕ
  phase : Phase α
  queue : List (DeliveryEvent α)
  lag : ℕ
  lastDeliveredSeq : ℕ
  disconnected : Bool
  shutdownRequested : Bool
  written : List (OutboundFrame α)
  history : History α

inductive Extractor (α : Type) where
  | checking
  | reading
  | pushed (events : List (CachedEvent α))
  | broadcasting (todo : List (ℕ × EnqueueOp α))
  | failing
  | halting (todo : List (ℕ × ShutdownOp))
  | returned

inductive MainThread where
  | accepting
  | stopping
  | broadcasting (todo : List (ℕ × ShutdownOp))
  | finished

structure ServerState (α : Type) where
  cache : EventCache α
  read : ℕ
  extractor : Extractor α
  main : MainThread
  stop : Bool
  registry : List ℕ
  nextId : ℕ
  connections : ℕ → Option (Connection α)

section Subscriber

variable {α : Type}

def DeliveryEvent.event? : DeliveryEvent α → Option (CachedEvent α)
  | .live event => some event
  | .shutdown => none

def liveEvents (queue : List (DeliveryEvent α)) : List (CachedEvent α) :=
  queue.filterMap DeliveryEvent.event?

def OutboundFrame.event? : OutboundFrame α → Option (CachedEvent α)
  | .event cached => some cached
  | _ => none

def Connection.delivered (conn : Connection α) : List (CachedEvent α) :=
  conn.written.filterMap OutboundFrame.event?

def History.offer (history : History α) (event : CachedEvent α)
    (outcome : EnqueueOutcome) : History α :=
  match history.joinedAt with
  | none => { history with before := history.before ++ [(event, outcome)] }
  | some _ => { history with after := history.after ++ [(event, outcome)] }

def Connection.offer (conn : Connection α) (event : CachedEvent α)
    (outcome : EnqueueOutcome) : Connection α :=
  { conn with history := conn.history.offer event outcome }

/-- The receiver of the queue is gone once the thread has returned. -/
def Connection.receiverDropped (conn : Connection α) : Bool :=
  match conn.phase with
  | .closed => true
  | _ => false

/-- One access of `try_enqueue`, and what is left to do of the call. -/
def Connection.tryEnqueue (config : ServerConfig) (conn : Connection α) :
    EnqueueOp α → Connection α × Option (EnqueueOp α)
  | .check event =>
    if conn.disconnected then
      (conn.offer event .disconnected, none)
    else (conn, some (.send event))
  | .send event =>
    if conn.receiverDropped then
      (conn.offer event .disconnected, some .evict)
    else if conn.queue.length < config.queueDepth then
      ({ conn.offer event .enqueued with
          queue := conn.queue ++ [.live event], lag := 0 }, none)
    else if config.lagLimit < conn.lag + 1 then
      ({ conn.offer event .lagExceeded with
          lag := conn.lag + 1 }, some .evict)
    else
      ({ conn.offer event (.lagging (conn.lag + 1)) with
          lag := conn.lag + 1 }, none)
  | .evict => ({ conn with disconnected := true }, none)

/-- One access of `request_shutdown`, and what is left to do of the call.  A
full queue loses the sentinel; the flag stays. -/
def Connection.requestShutdown (config : ServerConfig) (conn : Connection α) :
    ShutdownOp → Connection α × Option ShutdownOp
  | .check =>
    (conn, if conn.disconnected then none else some .flag)
  | .flag => ({ conn with shutdownRequested := true }, some .send)
  | .send =>
    if conn.receiverDropped then (conn, some .evict)
    else if conn.queue.length < config.queueDepth then
      ({ conn with queue := conn.queue ++ [.shutdown] }, none)
    else (conn, none)
  | .evict => ({ conn with disconnected := true }, none)

/-! ## The thread of a connection -/

def Connection.write (conn : Connection α) (frame : OutboundFrame α) : Connection α :=
  { conn with written := conn.written ++ [frame] }

def Connection.deliver (conn : Connection α) (event : CachedEvent α) : Connection α :=
  { conn with
    written := conn.written ++ [.event event]
    lastDeliveredSeq := event.seq }

def Connection.goTo (conn : Connection α) (phase : Phase α) : Connection α :=
  { conn with phase := phase }

def Connection.fail (conn : Connection α) : Connection α :=
  { conn with disconnected := true, phase := .unregistering }

def Connection.pop (conn : Connection α) (item : DeliveryEvent α)
    (rest : List (DeliveryEvent α)) : Connection α :=
  { conn with
    queue := rest
    history := { conn.history with
      taken := conn.history.taken ++ item.event?.toList } }

/-- What the cache answers to the number the client resumes from, with `read`
frames in the cache. -/
def Connection.backfill (conn : Connection α) (read : ℕ) : RangeOutcome α → Connection α
  | .outOfWindow oldest => conn.goTo (.truncating oldest)
  | .inWindow events =>
    { conn with
      phase := .backfilling events
      history := { conn.history with joinedAt := some read } }
  | .atLiveTail =>
    { conn with
      phase := .backfilled
      history := { conn.history with joinedAt := some read } }

def drained (maxBackfilled : ℕ) : DeliveryEvent α → List (DeliveryEvent α)
  | .live event => if maxBackfilled < event.seq then [.live event] else []
  | .shutdown => [.shutdown]

/-- One step of `handle_connection` and `dispatch_live` that needs neither the
cache nor the registry. -/
def Connection.advance (config : ServerConfig) (stop io : Bool)
    (conn : Connection α) : Option (Connection α) :=
  match conn.phase with
  | .registered => none
  | .truncating oldest =>
    if io then
      some ((conn.write (.truncated oldest)).goTo .unregistering)
    else some (conn.goTo .closed)
  | .backfilling [] => some (conn.goTo .backfilled)
  | .backfilling (event :: rest) =>
    if io then some ((conn.deliver event).goTo (.backfilling rest))
    else some conn.fail
  | .backfilled =>
    if stop ∧ ¬conn.shutdownRequested then
      some (conn.goTo (.requesting .check))
    else some (conn.goTo .entering)
  | .requesting op =>
    let (next, more) := conn.requestShutdown config op
    match more with
    | none => some (next.goTo .entering)
    | some op => some (next.goTo (.requesting op))
  | .entering =>
    if 0 < conn.lastDeliveredSeq then
      some (conn.goTo (.draining conn.lastDeliveredSeq []))
    else some (conn.goTo (.looping []))
  | .draining maxBackfilled pending =>
    match conn.queue with
    | [] => some (conn.goTo (.looping pending))
    | item :: rest =>
      some ((conn.pop item rest).goTo
        (.draining maxBackfilled (pending ++ drained maxBackfilled item)))
  | .looping pending =>
    if conn.shutdownRequested then
      some (conn.goTo (.closing (.serverShutdown conn.lastDeliveredSeq)))
    else some (conn.goTo (.checking pending))
  | .checking pending =>
    if conn.disconnected then
      some (conn.goTo (.closing (.lagExceeded conn.lastDeliveredSeq)))
    else some (conn.goTo (.pulling pending))
  | .pulling (item :: pending) =>
    some (conn.goTo (.handling item pending))
  | .pulling [] =>
    match conn.queue with
    | item :: rest =>
      some ((conn.pop item rest).goTo (.handling item []))
    | [] =>
      if io then some (conn.goTo (.looping []))
      else some conn.fail
  | .handling (.live event) pending =>
    if io then some ((conn.deliver event).goTo (.looping pending))
    else some conn.fail
  | .handling .shutdown _ =>
    some (conn.goTo (.closing (.serverShutdown conn.lastDeliveredSeq)))
  | .closing frame =>
    if io then some ((conn.write frame).goTo .unregistering)
    else some (conn.goTo .unregistering)
  | .unregistering => none
  | .closed => none

end Subscriber

/-! ## The server -/

/-- What a poll of the log and the extraction of the frame return. -/
inductive ReadOutcome where
  | frame
  | nothing
  | failure
  deriving DecidableEq

inductive ServerLabel where
  | extractor (outcome : ReadOutcome)
  | main
  | stop
  | subscribe (handshake : Option ℕ) (io : Bool)
  | connection (id : ℕ) (io : Bool)
  | restart
  deriving DecidableEq

inductive Blocked where
  | blocked
  deriving DecidableEq

section Server

variable {α : Type}

def ServerState.initial (config : ServerConfig) : ServerState α where
  cache := .new config.keepHistory config.keepHistory_pos
  read := 0
  extractor := .checking
  main := .accepting
  stop := false
  registry := []
  nextId := 0
  connections := fun _ => none

def ServerState.locked (state : ServerState α) : Bool :=
  match state.extractor with
  | .pushed _ => true
  | .broadcasting _ => true
  | _ => false

def ServerState.snapshots (state : ServerState α) : ℕ :=
  match state.extractor with
  | .pushed _ => state.read - 1
  | _ => state.read

def ServerState.setConnection (state : ServerState α) (id : ℕ)
    (conn : Connection α) : ServerState α :=
  { state with
    connections := Function.update state.connections id (some conn) }

def ServerState.enqueue (config : ServerConfig) (state : ServerState α)
    (id : ℕ) (op : EnqueueOp α) : ServerState α × List (ℕ × EnqueueOp α) :=
  match state.connections id with
  | none => (state, [])
  | some conn =>
    let (next, more) := conn.tryEnqueue config op
    (state.setConnection id next, more.toList.map fun op => (id, op))

def ServerState.shutDown (config : ServerConfig) (state : ServerState α)
    (id : ℕ) (op : ShutdownOp) : ServerState α × List (ℕ × ShutdownOp) :=
  match state.connections id with
  | none => (state, [])
  | some conn =>
    let (next, more) := conn.requestShutdown config op
    (state.setConnection id next, more.toList.map fun op => (id, op))

variable {config : ServerConfig} {state : ServerState α} {id : ℕ} {op : EnqueueOp α}
  {conn : Connection α}

theorem ServerState.enqueue_none (hfound : state.connections id = none) :
    state.enqueue config id op = (state, []) := by
  rw [ServerState.enqueue, hfound]

theorem ServerState.enqueue_some (hfound : state.connections id = some conn) :
    state.enqueue config id op =
      (state.setConnection id (conn.tryEnqueue config op).1,
        (conn.tryEnqueue config op).2.toList.map fun op => (id, op)) := by
  rw [ServerState.enqueue, hfound]

theorem ServerState.shutDown_some {op : ShutdownOp} (hfound : state.connections id = some conn) :
    state.shutDown config id op =
      (state.setConnection id (conn.requestShutdown config op).1,
        (conn.requestShutdown config op).2.toList.map fun op => (id, op)) := by
  rw [ServerState.shutDown, hfound]

/-- The calls of `broadcast_to_snapshot` for the events of a batch. -/
def broadcastCalls (snapshot : List ℕ) (events : List (CachedEvent α)) : List (ℕ × EnqueueOp α) :=
  events.flatMap fun event => snapshot.map fun id => (id, .check event)

/-- The calls of `broadcast_shutdown`. -/
def shutdownCalls (snapshot : List ℕ) : List (ℕ × ShutdownOp) := snapshot.map fun id => (id, .check)

def ServerState.extract (log : ℕ → List α) (state : ServerState α) : ServerState α :=
  let events := batch log (state.read + 1)
  match state.cache.pushAll events with
  | (cache, none) =>
    { state with
      cache := cache, read := state.read + 1, extractor := .pushed events }
  | (cache, some _) =>
    { state with
      cache := cache, read := state.read + 1, extractor := .failing }

def ServerState.extractorStep (config : ServerConfig) (log : ℕ → List α)
    (outcome : ReadOutcome) (state : ServerState α) : Option (ServerState α) :=
  match state.extractor with
  | .checking =>
    some { state with
      extractor := if state.stop then .returned else .reading }
  | .reading =>
    match outcome with
    | .nothing => some { state with extractor := .checking }
    | .failure => some { state with extractor := .failing }
    | .frame => some (state.extract log)
  | .pushed events =>
    some { state with
      extractor := .broadcasting (broadcastCalls state.registry events) }
  | .broadcasting [] => some { state with extractor := .checking }
  | .broadcasting ((id, op) :: todo) =>
    let (next, more) := state.enqueue config id op
    some { next with extractor := .broadcasting (more ++ todo) }
  | .failing =>
    some { state with extractor := .halting (shutdownCalls state.registry) }
  | .halting [] => some { state with extractor := .returned, stop := true }
  | .halting ((id, op) :: todo) =>
    let (next, more) := state.shutDown config id op
    some { next with extractor := .halting (more ++ todo) }
  | .returned => none

def ServerState.mainStep (config : ServerConfig) (state : ServerState α) : Option (ServerState α) :=
  match state.main with
  | .accepting => if state.stop then some { state with main := .stopping }
      else none
  | .stopping =>
    some { state with main := .broadcasting (shutdownCalls state.registry) }
  | .broadcasting [] => some { state with main := .finished }
  | .broadcasting ((id, op) :: todo) =>
    let (next, more) := state.shutDown config id op
    some { next with main := .broadcasting (more ++ todo) }
  | .finished => none

def Connection.new (resumeFrom : ℕ) (phase : Phase α)
    (written : List (OutboundFrame α)) (state : ServerState α) : Connection α where
  resumeFrom := resumeFrom
  phase := phase
  queue := []
  lag := 0
  lastDeliveredSeq := 0
  disconnected := false
  shutdownRequested := false
  written := written
  history := {
    since := state.snapshots
    registeredAt := state.read
    joinedAt := none
    before := []
    after := []
    taken := [] }

def ServerState.addConnection (state : ServerState α) (conn : Connection α) : ServerState α :=
  { state with
    nextId := state.nextId + 1
    connections := Function.update state.connections state.nextId (some conn) }

/-- The handshake of a connection: it is refused, or it becomes a subscriber. -/
def ServerState.subscribe (config : ServerConfig) (state : ServerState α)
    (handshake : Option ℕ) (io : Bool) : ServerState α :=
  match handshake with
  | none =>
    state.addConnection (.new 0 .closed (if io then [.invalidRequest] else []) state)
  | some resumeFrom =>
    if config.maxSubscribers ≠ 0 ∧ config.maxSubscribers ≤ state.registry.length then
      state.addConnection (.new resumeFrom .closed (if io then [.lagExceeded 0] else []) state)
    else
      { state.addConnection (.new resumeFrom .registered [] state) with
        registry := state.registry ++ [state.nextId] }

def ServerState.connectionStep (config : ServerConfig) (state : ServerState α) (id : ℕ) (io : Bool)
    (conn : Connection α) : Option (ServerState α) :=
  match conn.phase with
  | .registered =>
    if state.locked then none
    else some (state.setConnection id (conn.backfill state.read
      (state.cache.range conn.resumeFrom)))
  | .unregistering =>
    some { state.setConnection id (conn.goTo .closed) with
      registry := state.registry.erase id }
  | _ =>
    (conn.advance config state.stop io).map fun next =>
      state.setConnection id next

/-- One step of one thread, of the environment, or of the operator. -/
def serverStep (config : ServerConfig) (log : ℕ → List α) (state : ServerState α) :
    ServerLabel → Except Blocked (ServerState α)
  | .extractor outcome =>
    (state.extractorStep config log outcome).elim (.error .blocked) .ok
  | .main => (state.mainStep config).elim (.error .blocked) .ok
  | .stop => .ok { state with stop := true }
  | .subscribe handshake io => .ok (state.subscribe config handshake io)
  | .connection id io =>
    ((state.connections id).bind (state.connectionStep config id io)).elim (.error .blocked) .ok
  | .restart => .ok (.initial config)

def ServerState.Reached (config : ServerConfig) (log : ℕ → List α) (state : ServerState α) : Prop :=
  Reachable (serverStep config log) (.initial config) state

end Server

end EventStream
end Canon
