import Canon.FallibleState
import Canon.IngestState
import Canon.KeccakSponge
import Canon.ReorgWindow

/-!
# The watcher of the first layer

The ingestor reads the confirmed blocks of the first layer one by one.  It feeds each
header to the re-org window, decodes the logs of the two contracts in the order of
their log indices, and translates, signs and submits one action for each new
registration.  A record is written after each event and after each block.

The source, the submitter, the disk and the life of the process are the environment's.
The process may die before or after each call.  An error leaves what has been changed so
far.
-/

namespace Canon
namespace Ingest

structure WatcherConfig where
  bridgeContract : Address
  identityRegistryContract : Address
  confirmationDepth : UInt32
  reorgWindowCapacity : ℕ
  deploymentId : Bytes
  blocksPerIteration : UInt32

inductive SourceError where
  | transport (message : String)
  | malformed (message : String)
  | blockNotFound (number : UInt64)
  deriving DecidableEq

inductive KeyError where
  | invalidLength (got expected : ℕ)
  | invalidScalar
  | io (path error : String)
  deriving DecidableEq

inductive Verdict where
  | ok
  | notAdmissible
  | parseError
  | busy
  deriving DecidableEq

inductive SubmitError where
  | encode (error : EncodeError)
  | unknownVerdict (byte : UInt8)
  | notAdmissible
  | parseError
  | transport (message : String)
  deriving DecidableEq

inductive WatcherError where
  | source (error : SourceError)
  | reorg (error : ReorgError)
  | decode (error : LogError)
  | state (error : StateError)
  | encode (error : EncodeError)
  | key (error : KeyError)
  | submit (error : SubmitError)
  | config (message : String)
  deriving DecidableEq

/-! ## Signing -/

structure Signature where
  toBytes : Bytes
  length_toBytes : toBytes.length = 64
  deriving DecidableEq

structure BridgeActorKey where
  signPrehash : Bytes32 → Except KeyError Signature

structure SignedActionForSubmit where
  unsigned : UnsignedAction
  signature : Signature
  deriving DecidableEq

def sign (config : WatcherConfig) (key : BridgeActorKey) (unsigned : UnsignedAction) :
    Except WatcherError SignedActionForSubmit := do
  let signingBytes ← (signingInput unsigned.action unsigned.signer
    unsigned.nonce config.deploymentId).mapError .encode
  let signature ← (key.signPrehash (keccak256 signingBytes)).mapError .key
  return ⟨unsigned, signature⟩

/-! ## The environment -/

structure L1Source where
  latestBlockNumber : Except SourceError UInt64
  blockHeaderByNumber : UInt64 → Except SourceError BlockHeader
  logsInBlockByHash : Bytes32 → Address → Except SourceError (List RawLog)

/-- A call of the submitter: the event it was made for, what was sent and what came
back. -/
structure Submission where
  origin : ForwardedKey
  signed : SignedActionForSubmit
  answer : Except SubmitError Verdict

/-- How an append ends.  A failed one may still leave its record behind. -/
inductive AppendAnswer where
  | written
  | failed (error : String) (stored : Bool)
  deriving DecidableEq

inductive Fate where
  | goesOn
  | diesBefore
  | diesAfter
  deriving DecidableEq

/-- The environment at each time.  The submitter knows all it was sent before. -/
structure Environment where
  source : ℕ → L1Source
  submitter : ℕ → List Submission → SignedActionForSubmit → Except SubmitError Verdict
  disk : ℕ → AppendAnswer
  fate : ℕ → Fate

/-! ## The state of a run -/

structure Watcher extends WatcherState where
  reorgWindow : ReorgWindow

/-- The process, its file, all submissions so far, and the time. -/
structure World where
  watcher : Watcher
  file : List StateRecord
  submissions : List Submission
  clock : ℕ

inductive CrashSite where
  | atSource
  | beforeSubmit
  | afterSubmit (answer : Except SubmitError Verdict)
  | beforeAppend (record : StateRecord)
  | afterAppend (record : StateRecord)
  deriving DecidableEq

inductive Ending where
  | failed (error : WatcherError)
  | crashed (site : CrashSite)
  deriving DecidableEq

abbrev Watching (α : Type) := Fallible Ending World α

def World.tick (world : World) : World := { world with clock := world.clock + 1 }

def World.mapWatcher (world : World) (change : Watcher → Watcher) : World :=
  { world with watcher := change world.watcher }

def World.addRecord (world : World) (record : StateRecord) : World :=
  { world with file := world.file ++ [record] }

def World.addSubmission (world : World) (submission : Submission) : World :=
  { world with submissions := world.submissions ++ [submission] }

section Calls

variable (env : Environment)

def callSource {α : Type} (ask : L1Source → Except SourceError α) : Watching α := fun world =>
  match env.fate world.clock with
  | .goesOn =>
    match ask (env.source world.clock) with
    | .ok answer => (.ok answer, world.tick)
    | .error error => (.error (.failed (.source error)), world.tick)
  | _ => (.error (.crashed .atSource), world.tick)

def callSubmit (origin : ForwardedKey) (signed : SignedActionForSubmit) :
    Watching (Except SubmitError Verdict) := fun world =>
  let answer := env.submitter world.clock world.submissions signed
  let after := world.tick.addSubmission ⟨origin, signed, answer⟩
  match env.fate world.clock with
  | .diesBefore => (.error (.crashed .beforeSubmit), world.tick)
  | .diesAfter => (.error (.crashed (.afterSubmit answer)), after)
  | .goesOn => (.ok answer, after)

/-- `StateStore::append`. -/
def append (record : StateRecord) : Watching Unit := fun world =>
  match env.fate world.clock with
  | .diesBefore => (.error (.crashed (.beforeAppend record)), world.tick)
  | .diesAfter =>
    (.error (.crashed (.afterAppend record)), world.tick.addRecord record)
  | .goesOn =>
    match env.disk world.clock with
    | .written => (.ok (), world.tick.addRecord record)
    | .failed error stored =>
      (.error (.failed (.state (.io error))),
        if stored then world.tick.addRecord record else world.tick)

end Calls

/-! ## Events -/

def forwardedKey (blockHash : Bytes32) (event : IngestedEvent) :
    ForwardedKey :=
  ⟨blockHash, event.origin.txHash, event.origin.logIndex⟩

def CommitError.display : CommitError → String
  | .overflow => "address-book counter overflow"
  | .expectedIdMismatch expected actual =>
    "commit_assignment: book changed between preview and commit " ++
      "(expected actor_id " ++ toString expected ++ ", got " ++
        toString actual ++ ")"

def maxRetries : ℕ := 16

/-- What follows a call of the submitter, with the continuation for a busy one. -/
def afterVerdict (busy : Watching Unit) : Except SubmitError Verdict → Watching Unit
  | .ok .ok => pure ()
  | .ok .busy => busy
  | .ok .notAdmissible => throw (.failed (.submit .notAdmissible))
  | .ok .parseError => throw (.failed (.submit .parseError))
  | .error error => throw (.failed (.submit error))

def saturatingSucc (nonce : Nonce) : Nonce :=
  if nonce = BitVec.allOnes 128 then nonce else nonce + 1

def Watcher.insertForwarded (watcher : Watcher) (origin : ForwardedKey) :
    Watcher :=
  { watcher with forwarded := insert origin watcher.forwarded }

def Watcher.setNonce (watcher : Watcher) (nextNonce : Nonce) : Watcher :=
  { watcher with nextNonce := nextNonce }

def commit (assigned : Option (Address × ActorId)) : Watching Unit := fun world =>
    match assigned with
    | none => (.ok (), world)
    | some (address, newActorId) =>
      match commitAssignment world.watcher.addressBook address newActorId with
      | .error error =>
        (.error (.failed (.config
          ("address-book commit failed: " ++ error.display))), world)
      | .ok (_, book) =>
        (.ok (), world.mapWatcher fun watcher =>
          { watcher with addressBook := book })

section Watching

variable (env : Environment) (config : WatcherConfig) (key : BridgeActorKey)

def submitLoop (origin : ForwardedKey) (signed : SignedActionForSubmit) : ℕ → Watching Unit
  | 0 => do
      let answer ← callSubmit env origin signed
      afterVerdict (throw (.failed (.submit
        (.transport "exceeded retry budget on Busy verdict")))) answer
  | retriesLeft + 1 => do
      let answer ← callSubmit env origin signed
      afterVerdict (submitLoop origin signed retriesLeft) answer

/-- The part of `process_event` after the acceptance. -/
def recordSubmission (origin : ForwardedKey)
    (assigned : Option (Address × ActorId)) : Watching Unit := do
  let world ← get
  let newNextNonce := saturatingSucc world.watcher.nextNonce
  append env (submittedRecord origin newNextNonce assigned)
  commit assigned
  modify fun world => world.mapWatcher fun watcher =>
    (watcher.setNonce newNextNonce).insertForwarded origin

/-- The part of `process_event` from the signature on. -/
def forward (origin : ForwardedKey) (unsigned : UnsignedAction)
    (assigned : Option (Address × ActorId)) : Watching Unit := do
  let signed ← Fallible.ofExcept ((sign config key unsigned).mapError .failed)
  submitLoop env origin signed maxRetries
  recordSubmission env origin assigned

def processEvent (event : IngestedEvent) (blockHash : Bytes32) : Watching Unit := do
  let origin := forwardedKey blockHash event
  let world ← get
  if origin ∈ world.watcher.forwarded then return ()
  else
    match previewIngest world.watcher.addressBook event world.watcher.nextNonce with
    | .noAction => do
        modify fun world => world.mapWatcher (·.insertForwarded origin)
        append env (forwardedRecord origin)
    | .emit unsigned => forward env config key origin unsigned none
    | .emitWithAssignment unsigned address newActorId =>
      forward env config key origin unsigned (some (address, newActorId))

/-! ## Blocks -/

def advanceWindow (header : BlockHeader) : Watching Unit := fun world =>
  let window := world.watcher.reorgWindow
  if window.buffer = [] then
    (.ok (), world.mapWatcher fun watcher =>
      { watcher with reorgWindow := window.seed [header] })
  else
    match window.advance header with
    | .error error => (.error (.failed (.reorg error)), world)
    | .ok (_, next) =>
      (.ok (), world.mapWatcher fun watcher =>
        { watcher with reorgWindow := next })

def processLog (blockHash : Bytes32) (log : RawLog) : Watching Unit :=
  match decodeEvent log with
  | .ok (some event) => processEvent env config key event blockHash
  | .ok none => pure ()
  | .error error => throw (.failed (.decode error))

/-- The logs of both contracts; one request is enough when they are the same. -/
def fetchLogs (blockHash : Bytes32) : Watching (List RawLog) := do
  let bridgeLogs ← callSource env (·.logsInBlockByHash blockHash config.bridgeContract)
  if config.bridgeContract ≠ config.identityRegistryContract then do
    let registryLogs ← callSource env
      (·.logsInBlockByHash blockHash config.identityRegistryContract)
    return bridgeLogs ++ registryLogs
  else return bridgeLogs

def sortLogs (logs : List RawLog) : List RawLog :=
  logs.mergeSort fun log other => log.origin.logIndex ≤ other.origin.logIndex

def processBlock (blockNumber : UInt64) : Watching Unit := do
  let header ← callSource env (·.blockHeaderByNumber blockNumber)
  advanceWindow header
  let allLogs ← fetchLogs env config header.hash
  (sortLogs allLogs).forM (processLog env config key header.hash)

/-! ## Iterations -/

def startBlock : Option UInt64 → UInt64
  | none => 0
  | some last => if last = UInt64.ofNat (2 ^ 64 - 1) then last else last + 1

def availableBlocks (start confirmedHead : UInt64) : UInt64 :=
  let distance := confirmedHead - start
  if distance = UInt64.ofNat (2 ^ 64 - 1) then distance else distance + 1

def confirmBlock (blockNumber : UInt64) : Watching Unit := do
  processBlock env config key blockNumber
  append env (.confirmed blockNumber)
  modify fun world => world.mapWatcher fun watcher =>
    { watcher with lastConfirmedBlock := some blockNumber }

/-- The part of `run_iteration` after the depth is known to be reached. -/
def confirmUpTo (confirmedHead : UInt64) : Watching UInt64 := do
  let world ← get
  let start := startBlock world.watcher.lastConfirmedBlock
  if confirmedHead < start then return 0
  else
    let configuredBatch := config.blocksPerIteration.toUInt64
    if configuredBatch = 0 then return 0
    else
      let blocksToProcess := min (availableBlocks start confirmedHead) configuredBatch
      (List.range blocksToProcess.toNat).forM fun i =>
        confirmBlock env config key (start + UInt64.ofNat i)
      return blocksToProcess

def runIteration : Watching UInt64 := do
  let head ← callSource env (·.latestBlockNumber)
  let confirmationDepth := config.confirmationDepth.toUInt64
  if head < confirmationDepth then return 0
  else confirmUpTo env config key (head - confirmationDepth)

end Watching

/-- `WatcherLoop::new` on a file with these records. -/
def Watcher.new (config : WatcherConfig) (file : List StateRecord) : Except WatcherError Watcher :=
  if hcapacity : config.reorgWindowCapacity = 0 then
    .error (.config "reorg_window_capacity must be > 0")
  else do
    let state ← (replayRecords file).mapError .state
    return { state with
      reorgWindow := .new config.reorgWindowCapacity (Nat.pos_of_ne_zero hcapacity) }

end Ingest
end Canon
