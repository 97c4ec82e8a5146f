import Canon.IngestStream

/-!
# The watcher in a working environment

The source answers from the chain, the submitter accepts, the appends succeed and the
process lives.  What the watcher then does to its memory is the program below, which has
the same steps without the calls.
-/

namespace Canon
namespace Ingest

/-! ## The memory by itself -/

abbrev Absorbing (α : Type) := Fallible Ending Watcher α

def absorbAssignment (assigned : Option (Address × ActorId)) : Absorbing Unit := fun watcher =>
  match assigned with
  | none => (.ok (), watcher)
  | some (address, newActorId) =>
    match commitAssignment watcher.addressBook address newActorId with
    | .error error =>
      (.error (.failed (.config
        ("address-book commit failed: " ++ error.display))), watcher)
    | .ok (_, book) => (.ok (), { watcher with addressBook := book })

def absorbHeader (header : BlockHeader) : Absorbing Unit := fun watcher =>
  if watcher.reorgWindow.buffer = [] then
    (.ok (), { watcher with reorgWindow := watcher.reorgWindow.seed [header] })
  else
    match watcher.reorgWindow.advance header with
    | .error error => (.error (.failed (.reorg error)), watcher)
    | .ok (_, next) => (.ok (), { watcher with reorgWindow := next })

section Absorbing

variable (config : WatcherConfig) (key : BridgeActorKey)

def absorbAction (origin : ForwardedKey) (unsigned : UnsignedAction)
    (assigned : Option (Address × ActorId)) : Absorbing Unit := do
  let _ ← Fallible.ofExcept ((sign config key unsigned).mapError .failed)
  let watcher ← get
  absorbAssignment assigned
  modify fun later =>
    (later.setNonce (saturatingSucc watcher.nextNonce)).insertForwarded origin

def absorbEvent (event : IngestedEvent) (blockHash : Bytes32) : Absorbing Unit := do
  let origin := forwardedKey blockHash event
  let watcher ← get
  if origin ∈ watcher.forwarded then return ()
  else
    match previewIngest watcher.addressBook event watcher.nextNonce with
    | .noAction => modify (·.insertForwarded origin)
    | .emit unsigned => absorbAction config key origin unsigned none
    | .emitWithAssignment unsigned address newActorId =>
      absorbAction config key origin unsigned (some (address, newActorId))

def absorbLog (blockHash : Bytes32) (log : RawLog) : Absorbing Unit :=
  match decodeEvent log with
  | .ok (some event) => absorbEvent config key event blockHash
  | .ok none => pure ()
  | .error error => throw (.failed (.decode error))

variable (chain : Chain)

def absorbLogs (n : ℕ) : Absorbing Unit :=
  (chain.contractLogs config n).forM (absorbLog config key (chain.hash n))

def absorbBlock (number : UInt64) : Absorbing Unit := do
  absorbHeader (chain.header number.toNat)
  absorbLogs config key chain number.toNat
  modify fun watcher => { watcher with lastConfirmedBlock := some number }

def absorbUpTo (confirmedHead : UInt64) : Absorbing UInt64 := do
  let watcher ← get
  let start := startBlock watcher.lastConfirmedBlock
  if confirmedHead < start then return 0
  else
    let configuredBatch := config.blocksPerIteration.toUInt64
    if configuredBatch = 0 then return 0
    else
      let blocksToProcess := min (availableBlocks start confirmedHead) configuredBatch
      (List.range blocksToProcess.toNat).forM fun i =>
        absorbBlock config key chain (start + UInt64.ofNat i)
      return blocksToProcess

end Absorbing

/-! ## Working environments -/

/-- From this time on everything works, and the source knows the chain up to its
head. -/
structure Environment.WorksFrom (env : Environment) (chain : Chain)
    (head : ℕ → UInt64) (start : ℕ) : Prop where
  lives : ∀ time ≥ start, env.fate time = .goesOn
  writes : ∀ time ≥ start, env.disk time = .written
  accepts : ∀ time ≥ start, ∀ submissions signed, env.submitter time submissions signed = .ok .ok
  latest : ∀ time ≥ start, (env.source time).latestBlockNumber = .ok (head time)
  headers : ∀ time ≥ start, ∀ number ≤ head time, (env.source time).blockHeaderByNumber number =
      .ok (chain.header number.toNat)
  logs : ∀ time ≥ start, ∀ n ≤ (head time).toNat, ∀ address, ∃ logs,
    (env.source time).logsInBlockByHash (chain.hash n) address = .ok logs ∧
      logs.Perm ((chain.logs n).filter fun log => log.address = address)
  grows : ∀ time ≥ start, head start ≤ head time

section Working

variable {env : Environment} {chain : Chain} {head : ℕ → UInt64} {start : ℕ}
  (hworks : env.WorksFrom chain head start)

def World.Since (start : ℕ) (world : World) : Prop := start ≤ world.clock

theorem World.Since.tick {world : World} (hsince : world.Since start) : world.tick.Since start :=
  Nat.le_succ_of_le hsince

include hworks

theorem callSource_works {α : Type} {ask : L1Source → Except SourceError α} {good : α → Prop}
    (hask : ∀ time ≥ start, ∃ answer, ask (env.source time) = .ok answer ∧ good answer) :
    Fallible.Answers (World.Since start) World.watcher (callSource env ask)
      good := by
  intro world hsince
  obtain ⟨answer, hanswer, hgood⟩ := hask world.clock hsince
  refine ⟨answer, world.tick, ?_, hgood, hsince.tick, rfl⟩
  simp only [callSource, hworks.lives _ hsince, hanswer]

theorem append_works (record : StateRecord) :
    Fallible.Answers (World.Since start) World.watcher (append env record) fun _ => True := by
  intro world hsince
  refine ⟨(), world.tick.addRecord record, ?_, trivial, hsince.tick, rfl⟩
  simp only [append, hworks.lives _ hsince, hworks.writes _ hsince]

theorem submitLoop_works (origin : ForwardedKey)
    (signed : SignedActionForSubmit) (retriesLeft : ℕ) :
    Fallible.Answers (World.Since start) World.watcher
      (submitLoop env origin signed retriesLeft) fun _ => True := by
  intro world hsince
  have hcall : callSubmit env origin signed world =
      (.ok (.ok .ok), world.tick.addSubmission ⟨origin, signed, .ok .ok⟩) := by
    simp only [callSubmit, hworks.lives _ hsince, hworks.accepts _ hsince]
  refine ⟨(), world.tick.addSubmission ⟨origin, signed, .ok .ok⟩, ?_, trivial, hsince.tick, rfl⟩
  cases retriesLeft with
  | zero | succ =>
    rw [submitLoop, Fallible.run_bind_ok hcall]
    rfl

omit hworks in
theorem mirrors_commit (assigned : Option (Address × ActorId)) :
    Fallible.Mirrors (World.Since start) World.watcher (commit assigned)
      (absorbAssignment assigned) := by
  intro world hsince
  cases assigned with
  | none => exact ⟨hsince, rfl⟩
  | some entry =>
    obtain ⟨address, newActorId⟩ := entry
    simp only [commit, absorbAssignment]
    cases commitAssignment world.watcher.addressBook address newActorId with
    | error | ok => exact ⟨hsince, rfl⟩

omit hworks in
theorem mirrors_advanceWindow (header : BlockHeader) :
    Fallible.Mirrors (World.Since start) World.watcher (advanceWindow header)
      (absorbHeader header) := by
  intro world hsince
  by_cases hempty : world.watcher.reorgWindow.buffer = []
  · simp only [advanceWindow, absorbHeader, if_pos hempty]
    exact ⟨hsince, rfl⟩
  · simp only [advanceWindow, absorbHeader, if_neg hempty]
    cases world.watcher.reorgWindow.advance header with
    | error | ok => exact ⟨hsince, rfl⟩

section Events

variable (config : WatcherConfig) (key : BridgeActorKey)

theorem mirrors_forward (origin : ForwardedKey) (unsigned : UnsignedAction)
    (assigned : Option (Address × ActorId)) :
    Fallible.Mirrors (World.Since start) World.watcher
      (forward env config key origin unsigned assigned)
      (absorbAction config key origin unsigned assigned) := by
  refine .bind (.ofExcept _) fun signed => ?_
  refine .answers_bind (submitLoop_works hworks origin signed maxRetries) fun _ _ => ?_
  refine .get_bind fun now => ?_
  refine .answers_bind (append_works hworks _) fun _ _ => ?_
  refine .bind (mirrors_commit assigned) fun _ => ?_
  exact fun later hlater => ⟨hlater, rfl⟩

theorem mirrors_processEvent (event : IngestedEvent) (blockHash : Bytes32) :
    Fallible.Mirrors (World.Since start) World.watcher (processEvent env config key event blockHash)
      (absorbEvent config key event blockHash) := by
  refine .get_bind fun now => ?_
  by_cases hknown : forwardedKey blockHash event ∈ now.watcher.forwarded
  · rw [if_pos hknown, if_pos hknown]
    exact .pure ()
  · rw [if_neg hknown, if_neg hknown]
    cases previewIngest now.watcher.addressBook event now.watcher.nextNonce with
    | noAction =>
      intro world hsince
      obtain ⟨_, after, hrun, _, hafter, hpart⟩ :=
        append_works hworks (forwardedRecord (forwardedKey blockHash event))
          (world.mapWatcher (·.insertForwarded (forwardedKey blockHash event))) hsince
      simp only
      rw [Fallible.run_bind_ok (Fallible.run_modify _ _), hrun]
      refine ⟨hafter, ?_⟩
      rw [hpart]
      rfl
    | emit unsigned =>
      exact mirrors_forward hworks config key _ unsigned none
    | emitWithAssignment unsigned =>
      exact mirrors_forward hworks config key _ unsigned _

theorem mirrors_processLog (blockHash : Bytes32) (log : RawLog) :
    Fallible.Mirrors (World.Since start) World.watcher (processLog env config key blockHash log)
      (absorbLog config key blockHash log) := by
  unfold processLog absorbLog
  cases decodeEvent log with
  | error => exact .throw _
  | ok found =>
    cases found with
    | none => exact .pure _
    | some event => exact mirrors_processEvent hworks config key event blockHash

/-! ## Blocks and iterations -/

variable {number : UInt64} (hnumber : number ≤ head start)
include hnumber

omit hworks in
theorem le_head (hgrows : ∀ time ≥ start, head start ≤ head time) {time : ℕ}
    (htime : time ≥ start) : number.toNat ≤ (head time).toNat :=
  UInt64.le_iff_toNat_le.mp (UInt64.le_trans hnumber (hgrows time htime))

theorem fetchLogs_works : Fallible.Answers (World.Since start) World.watcher
      (fetchLogs env config (chain.hash number.toNat))
      fun logs => sortLogs logs = chain.contractLogs config number.toNat := by
  have hask : ∀ address, Fallible.Answers (World.Since start) World.watcher
      (callSource env (·.logsInBlockByHash (chain.hash number.toNat) address))
      fun logs => logs.Perm ((chain.logs number.toNat).filter fun log => log.address = address) :=
    fun address => callSource_works hworks fun time htime =>
      hworks.logs time htime number.toNat (le_head hnumber hworks.grows htime) address
  intro world hsince
  obtain ⟨bridgeLogs, middle, hbridge, hbridgePerm, hmiddle, hpart⟩ :=
    hask config.bridgeContract world hsince
  rw [fetchLogs, Fallible.run_bind_ok hbridge]
  by_cases hsame : config.bridgeContract ≠ config.identityRegistryContract
  · obtain ⟨registryLogs, after, hregistry, hregistryPerm, hafter, hkept⟩ :=
      hask config.identityRegistryContract middle hmiddle
    rw [if_pos hsame, Fallible.run_bind_ok hregistry]
    refine ⟨_, after, rfl, chain.sortLogs_of_perm config ?_, hafter, hkept.trans hpart⟩
    exact (hbridgePerm.append hregistryPerm).trans (chain.contractLogs_perm config _ hsame)
  · rw [if_neg hsame]
    refine ⟨_, middle, rfl, chain.sortLogs_of_perm config ?_, hmiddle, hpart⟩
    rw [ne_eq, not_not] at hsame
    simpa [Chain.contractLogs, ← hsame] using hbridgePerm

theorem mirrors_processBlock :
    Fallible.Mirrors (World.Since start) World.watcher (processBlock env config key number) (do
        absorbHeader (chain.header number.toNat)
        absorbLogs config key chain number.toNat) := by
  have hheader : ∀ time ≥ start, ∃ header,
      (env.source time).blockHeaderByNumber number = .ok header ∧
        header = chain.header number.toNat := fun time htime => ⟨_, hworks.headers time htime number
      (UInt64.le_trans hnumber (hworks.grows time htime)), rfl⟩
  refine .answers_bind (callSource_works hworks hheader) fun header hknown => ?_
  subst hknown
  refine .bind (mirrors_advanceWindow _) fun _ => ?_
  refine .answers_bind (fetchLogs_works hworks config hnumber) fun logs hsorted => ?_
  rw [hsorted]
  exact .forM fun log _ => mirrors_processLog hworks config key _ log

theorem mirrors_confirmBlock :
    Fallible.Mirrors (World.Since start) World.watcher (confirmBlock env config key number)
      (absorbBlock config key chain number) := by
  have hblock := mirrors_processBlock hworks config key hnumber
  have hconfirm : Fallible.Mirrors (World.Since start) World.watcher
      (confirmBlock env config key number)
      ((do
        absorbHeader (chain.header number.toNat)
        absorbLogs config key chain number.toNat) >>= fun _ =>
          modify fun watcher =>
            { watcher with lastConfirmedBlock := some number }) := by
    refine .bind hblock fun _ => ?_
    refine .answers_bind (append_works hworks _) fun _ _ => ?_
    exact fun later hlater => ⟨hlater, rfl⟩
  rw [bind_assoc] at hconfirm
  exact hconfirm

omit hnumber in
theorem mirrors_confirmUpTo {confirmedHead : UInt64} (hhead : confirmedHead ≤ head start) :
    Fallible.Mirrors (World.Since start) World.watcher (confirmUpTo env config key confirmedHead)
      (absorbUpTo config key chain confirmedHead) := by
  refine .get_bind fun now => ?_
  by_cases hbehind : confirmedHead < startBlock now.watcher.lastConfirmedBlock
  · simp only [if_pos hbehind]
    exact .pure 0
  · by_cases hbatch : config.blocksPerIteration.toUInt64 = 0
    · simp only [if_neg hbehind, if_pos hbatch]
      exact .pure 0
    · simp only [if_neg hbehind, if_neg hbatch]
      refine .bind (.forM fun i hi => ?_) fun _ => .pure _
      refine mirrors_confirmBlock hworks config key
        (UInt64.le_trans (add_le_of_batch hbehind (List.mem_range.mp hi)) hhead)

omit hnumber in
theorem mirrors_runIteration {world : World} (hclock : world.clock = start)
    (hdepth : ¬head start < config.confirmationDepth.toUInt64) :
    world.clock ≤ (runIteration env config key world).2.clock ∧
    absorbUpTo config key chain (head start - config.confirmationDepth.toUInt64) world.watcher =
      ((runIteration env config key world).1, (runIteration env config key world).2.watcher) := by
  have hsince : world.Since start := hclock.ge
  have hlatest : callSource env (·.latestBlockNumber) world = (.ok (head start), world.tick) := by
    subst hclock
    simp only [callSource, hworks.lives _ hsince, hworks.latest _ hsince]
  rw [runIteration, Fallible.run_bind_ok hlatest, if_neg hdepth, hclock]
  exact mirrors_confirmUpTo hworks config key
    (UInt64.sub_le (UInt64.not_lt.mp hdepth)) world.tick hsince.tick

end Events

end Working

/-! ## A chain with given logs -/

def slotHash (fork n : ℕ) : Bytes32 := abiSlot (if n < fork then n else 2 ^ 64 + n)

def slotNumber (hash : Bytes32) : ℕ := beValue hash.toBytes % 2 ^ 64

theorem slotNumber_slotHash (fork : ℕ) {n : ℕ} (hn : n < 2 ^ 64) :
    slotNumber (slotHash fork n) = n := by
  have hvalue : beValue (slotHash fork n).toBytes =
      if n < fork then n else 2 ^ 64 + n :=
    (abiSlot_toBytes 0 (Nat.zero_add 32) (by split <;> omega)).2
  rw [slotNumber, hvalue]
  split <;> omega

def chainOf (fork : ℕ) (logs : ℕ → List RawLog)
    (hsorted : ∀ n, (logs n).Pairwise fun log later =>
      log.origin.logIndex < later.origin.logIndex) : Chain where
  header n := ⟨UInt64.ofNat n, slotHash fork n, slotHash fork (n - 1)⟩
  number_header _ := rfl
  parentHash_header n := congrArg (slotHash fork) (Nat.add_sub_cancel n 1)
  logs := logs
  hash_injective m n hm hn heq := by
    have hnumber := congrArg slotNumber heq
    rwa [slotNumber_slotHash fork hm, slotNumber_slotHash fork hn] at hnumber
  logs_sorted := hsorted

def Chain.source (chain : Chain) (head : UInt64) : L1Source where
  latestBlockNumber := .ok head
  blockHeaderByNumber number := .ok (chain.header number.toNat)
  logsInBlockByHash hash address :=
    .ok ((chain.logs (slotNumber hash)).filter fun log => log.address = address)

def Environment.ideal (chain : Chain) (head : ℕ → UInt64) : Environment where
  source time := chain.source (head time)
  submitter _ _ _ := .ok .ok
  disk _ := .written
  fate _ := .goesOn

section Sample

variable {fork : ℕ} {logs : ℕ → List RawLog} {hsorted : ∀ n, (logs n).Pairwise fun log later =>
    log.origin.logIndex < later.origin.logIndex} {head : ℕ → UInt64}

theorem logs_source (head : UInt64) {n : ℕ} (hn : n < 2 ^ 64) (address : Address) :
    ((chainOf fork logs hsorted).source head).logsInBlockByHash
        ((chainOf fork logs hsorted).hash n) address =
      .ok (((chainOf fork logs hsorted).logs n).filter fun log => log.address = address) := by
  have hnumber : slotNumber ((chainOf fork logs hsorted).hash n) = n := slotNumber_slotHash fork hn
  simp only [Chain.source, hnumber]

theorem works_ideal {start : ℕ} (hgrows : ∀ time ≥ start, head start ≤ head time) :
    (Environment.ideal (chainOf fork logs hsorted) head).WorksFrom
      (chainOf fork logs hsorted) head start where
  lives _ _ := rfl
  writes _ _ := rfl
  accepts _ _ _ _ := rfl
  latest _ _ := rfl
  headers _ _ _ _ := rfl
  logs time _ n hn address := ⟨_, logs_source (head time)
    (hn.trans_lt (head time).toNat_lt) address, .refl _⟩
  grows := hgrows

theorem serves_of_source {env : Environment}
    (hsource : ∀ time, env.source time = (chainOf fork logs hsorted).source (head time)) :
    env.Serves (chainOf fork logs hsorted) head where
  latest time number hlatest := by
    rw [hsource] at hlatest
    exact (Except.ok.inj hlatest).symm
  headers time number header hheader := by
    rw [hsource] at hheader
    exact (Except.ok.inj hheader).symm
  logs time n address found hn hfound := by
    rw [hsource, logs_source _ hn] at hfound
    rw [Except.ok.inj hfound]

end Sample

end Ingest
end Canon
