import Canon.IngestRecovery
import Canon.WatcherCounting
import Canon.WatcherRetry

/-!
# One log in several blocks

An event is known by its block, its transaction and its place in the block.  A log which
a re-org has put into another block is another event, and its action is accepted once
more.
-/

namespace Canon
namespace Ingest

open List

/-! ## What the source has shown -/

def Environment.Presents (env : Environment) (clock : ℕ) (blockHash : Bytes32) :
    Prop :=
  ∃ time < clock, ∃ number header, (env.source time).blockHeaderByNumber number = .ok header ∧
      header.hash = blockHash

/-- The source has given this log in a block which it has presented. -/
def Environment.Lists (env : Environment) (clock : ℕ) (blockHash : Bytes32) (log : RawLog) : Prop :=
  env.Presents clock blockHash ∧ ∃ time < clock, ∃ address logs,
    (env.source time).logsInBlockByHash blockHash address = .ok logs ∧ log ∈ logs

def Environment.Shows (env : Environment) (clock : ℕ) (origin : ForwardedKey) :
    Prop :=
  ∃ log event, env.Lists clock origin.blockHash log ∧
    decodeEvent log = .ok (some event) ∧ event.registration.isSome ∧
    forwardedKey origin.blockHash event = origin

structure Shown (env : Environment) (world : World) : Prop where
  counted : Counted world
  shown : ∀ entry ∈ acceptedOf world.submissions, env.Shows world.clock entry.origin

section Showing

variable {env : Environment} {config : WatcherConfig} {key : BridgeActorKey} {start : ℕ}

variable {clock later : ℕ} {blockHash : Bytes32} {log : RawLog}

theorem Environment.Presents.mono (hpresents : env.Presents clock blockHash) (hle : clock ≤ later) :
    env.Presents later blockHash := by
  obtain ⟨time, htime, hheader⟩ := hpresents
  exact ⟨time, htime.trans_le hle, hheader⟩

theorem Environment.Lists.mono (hlists : env.Lists clock blockHash log) (hle : clock ≤ later) :
    env.Lists later blockHash log := by
  obtain ⟨hpresents, time, htime, hlogs⟩ := hlists
  exact ⟨hpresents.mono hle, time, htime.trans_le hle, hlogs⟩

theorem Environment.Shows.mono {origin : ForwardedKey}
    (hshows : env.Shows clock origin) (hle : clock ≤ later) : env.Shows later origin := by
  obtain ⟨log, event, hlists, hevent⟩ := hshows
  exact ⟨log, event, hlists.mono hle, hevent⟩

theorem Shown.tick {world : World} (hshown : Shown env world) : Shown env world.tick where
  counted := hshown.counted.tick
  shown entry hentry := (hshown.shown entry hentry).mono (Nat.le_succ _)

theorem keeps_processLog_shown (hhosted : env.Hosted) (hlists : env.Lists start blockHash log) :
    Fallible.Keeps (fun world => Shown env world ∧ world.Since start)
      (processLog env config key blockHash log) := by
  rintro world ⟨hshown, hsince⟩
  have hclock : world.clock ≤ (processLog env config key blockHash log world).2.clock :=
    keeps_processLog routine_since blockHash log world (le_refl world.clock)
  refine ⟨?_, hsince.trans hclock⟩
  revert hclock
  unfold processLog
  rcases hdecode : decodeEvent log with error | _ | event
  · exact fun _ => hshown
  · exact fun _ => hshown
  · intro hclock
    obtain ⟨hcounted, hentries⟩ :=
      (processEvent_effect env config key event blockHash world).counted hhosted hshown.counted
    refine ⟨hcounted, fun entry hentry => ?_⟩
    rcases hentries entry hentry with hold | ⟨horigin, hsome⟩
    · exact (hshown.shown entry hold).mono hclock
    · rw [horigin]
      exact ⟨log, event, hlists.mono (hsince.trans hclock), hdecode, hsome, rfl⟩

theorem ensures_callLogs_lists (blockHash : Bytes32) (address : Address) (front : List RawLog) :
    Fallible.Ensures
      (fun world => Shown env world ∧ env.Presents world.clock blockHash ∧
        ∀ log ∈ front, env.Lists world.clock blockHash log)
      (callSource env (·.logsInBlockByHash blockHash address))
      (fun logs world => Shown env world ∧ env.Presents world.clock blockHash ∧
        ∀ log ∈ front ++ logs, env.Lists world.clock blockHash log) (fun _ => Shown env) := by
  rintro world ⟨hshown, hpresents, hfront⟩
  have hlater := hpresents.mono (Nat.le_succ world.clock)
  rcases callSource_cases env (·.logsInBlockByHash blockHash address) world with
    ⟨logs, hlogs, hrun⟩ | ⟨ending, _, hrun⟩
  · rw [hrun]
    refine ⟨hshown.tick, hlater, fun log hlog => ?_⟩
    rcases mem_append.mp hlog with hold | hnew
    · exact (hfront log hold).mono (Nat.le_succ _)
    · exact ⟨hlater, world.clock, Nat.lt_succ_self _, address, logs, hlogs, hnew⟩
  · rw [hrun]
    exact hshown.tick

theorem ensures_fetchLogs_lists (blockHash : Bytes32) :
    Fallible.Ensures (fun world => Shown env world ∧ env.Presents world.clock blockHash)
      (fetchLogs env config blockHash)
      (fun logs world => Shown env world ∧ ∀ log ∈ logs, env.Lists world.clock blockHash log)
      (fun _ => Shown env) := by
  have hbridge : Fallible.Ensures
      (fun world => Shown env world ∧ env.Presents world.clock blockHash)
      (callSource env (·.logsInBlockByHash blockHash config.bridgeContract))
      (fun logs world => Shown env world ∧ env.Presents world.clock blockHash ∧
        ∀ log ∈ logs, env.Lists world.clock blockHash log) (fun _ => Shown env) :=
    (ensures_callLogs_lists blockHash config.bridgeContract []).weaken
      (fun _ h => ⟨h.1, h.2, fun _ hlog => absurd hlog not_mem_nil⟩)
      (fun _ _ h => h) (fun _ _ h => h)
  refine .bind hbridge fun bridgeLogs => ?_
  split
  · exact (ensures_callLogs_lists blockHash _ bridgeLogs).bind
      fun _ => .pure fun _ h => ⟨h.1, h.2.2⟩
  · exact .pure fun _ h => ⟨h.1, h.2.2⟩

theorem keeps_callSource_shown {α : Type} (ask : L1Source → Except SourceError α) :
    Fallible.Keeps (Shown env) (callSource env ask) := by
  intro world hshown
  rcases callSource_cases env ask world with ⟨_, _, hrun⟩ | ⟨_, _, hrun⟩
  all_goals
    rw [hrun]
    exact hshown.tick

theorem ensures_callHeader_presents (number : UInt64) :
    Fallible.Ensures (Shown env) (callSource env (·.blockHeaderByNumber number))
      (fun header world => Shown env world ∧ env.Presents world.clock header.hash)
      (fun _ => Shown env) := by
  intro world hshown
  rcases callSource_cases env (·.blockHeaderByNumber number) world with
    ⟨header, hheader, hrun⟩ | ⟨ending, _, hrun⟩
  · rw [hrun]
    exact ⟨hshown.tick, world.clock, Nat.lt_succ_self _, number, header, hheader, rfl⟩
  · rw [hrun]
    exact hshown.tick

theorem ensures_advanceWindow_presents (header : BlockHeader) :
    Fallible.Ensures (fun world => Shown env world ∧ env.Presents world.clock header.hash)
      (advanceWindow header) (fun _ world => Shown env world ∧ env.Presents world.clock header.hash)
      (fun _ => Shown env) := by
  refine @ensures_advanceWindow env _ _ header ?_ (fun _ _ h _ => h.1)
  rintro world window ⟨hshown, hpresents⟩
  exact ⟨⟨⟨hshown.counted.nodup, hshown.counted.bound,
    hshown.counted.memory.of_forwarded rfl (Finset.Subset.refl _),
    hshown.counted.file⟩, hshown.shown⟩, hpresents⟩

theorem ensures_processLogs_shown (hhosted : env.Hosted) (logs : List RawLog) : Fallible.Ensures
      (fun world => Shown env world ∧ ∀ log ∈ logs, env.Lists world.clock blockHash log)
      ((sortLogs logs).forM (processLog env config key blockHash))
      (fun _ => Shown env) (fun _ => Shown env) := by
  rintro world ⟨hshown, hlists⟩
  have hloop : Fallible.Keeps (fun later => Shown env later ∧ later.Since world.clock)
      ((sortLogs logs).forM (processLog env config key blockHash)) := by
    apply Fallible.Keeps.forM
    intro log hlog
    exact keeps_processLog_shown hhosted (hlists log ((mergeSort_perm _ _).mem_iff.mp hlog))
  have hafter := (hloop world ⟨hshown, le_refl _⟩).1
  rcases hrun : (sortLogs logs).forM (processLog env config key blockHash) world with ⟨_ | _, after⟩
  all_goals rwa [hrun] at hafter

theorem ensures_processBlock_shown (hhosted : env.Hosted) (number : UInt64) :
    Fallible.Ensures (Shown env) (processBlock env config key number)
      (fun _ => Shown env) (fun _ => Shown env) := by
  refine (ensures_callHeader_presents number).bind fun header => ?_
  refine (ensures_advanceWindow_presents header).bind fun _ => ?_
  refine (ensures_fetchLogs_lists header.hash).bind fun logs => ?_
  exact ensures_processLogs_shown hhosted logs

theorem keeps_confirmBlock_shown (hhosted : env.Hosted) (number : UInt64) :
    Fallible.Keeps (Shown env) (confirmBlock env config key number) := by
  have hblock : Fallible.Keeps (Shown env) (processBlock env config key number) := by
    intro world hshown
    have hafter := @ensures_processBlock_shown env config key hhosted number world hshown
    rcases hrun : processBlock env config key number world with ⟨_ | _, after⟩
    all_goals rwa [hrun] at hafter
  refine .bind hblock fun _ => .bind ?_ fun _ => .modify ?_
  · intro world hshown
    have htick := hshown.tick
    have hrecord : Shown env (world.tick.addRecord (.confirmed number)) :=
      ⟨htick.counted.addConfirmed number, htick.shown⟩
    rcases append_cases env (.confirmed number) world with
      hrun | ⟨ending, _, hrun⟩ | ⟨ending, _, hrun⟩
    · rw [hrun]
      exact hrecord
    · rw [hrun]
      exact htick
    · rw [hrun]
      exact hrecord
  · intro world hshown
    exact ⟨⟨hshown.counted.nodup, hshown.counted.bound,
      hshown.counted.memory.of_forwarded rfl (Finset.Subset.refl _),
      hshown.counted.file⟩, hshown.shown⟩

theorem keeps_runIteration_shown (hhosted : env.Hosted) :
    Fallible.Keeps (Shown env) (runIteration env config key) := by
  refine .bind (keeps_callSource_shown _) fun head => ?_
  dsimp only
  split
  · exact .pure 0
  · refine .bind .get fun now => ?_
    dsimp only
    split
    · exact .pure 0
    · split
      · exact .pure 0
      · exact .bind (.forM _ fun i _ => keeps_confirmBlock_shown hhosted _) fun _ => .pure _

/-! ## Sessions -/

variable {watcher : Watcher} {world : World}
  {admits : Ending → Resumption → Prop} {status : Option Ending}

theorem applyAll_of_replayRecords {records : List StateRecord}
    {state : WatcherState} (hreplays : replayRecords records = .ok state) :
    ∃ replay, Replay.start.applyAll 1 records = .ok replay ∧
      state.forwarded = replay.state.forwarded ∧ state.nextNonce = replay.state.nextNonce := by
  rw [replayRecords, bind_eq_ok] at hreplays
  obtain ⟨replay, hreplay, hfinish⟩ := hreplays
  rw [Replay.finish, bind_eq_ok] at hfinish
  obtain ⟨book, _, hstate⟩ := hfinish
  cases hstate
  exact ⟨replay, hreplay, rfl, rfl⟩

theorem shown_fresh (hnew : Watcher.new config [] = .ok watcher) : Shown env (.fresh watcher) := by
  obtain ⟨_, hreplays, _⟩ := Watcher.new_eq_ok.mp hnew
  rw [Restores.start.replays] at hreplays
  have hnonce : watcher.nextNonce = 0 :=
    congrArg WatcherState.nextNonce (Except.ok.inj hreplays).symm
  have hzero : watcher.nextNonce.toNat = 0 := by
    rw [hnonce]
    rfl
  refine ⟨⟨nodup_nil, Nat.zero_le _, ⟨hzero.le, ?_⟩, ?_⟩, ?_⟩
  · exact fun entry hentry => absurd (mem_of_mem_take hentry) not_mem_nil
  · intro replay hreplay
    cases hreplay
    refine ⟨⟨Nat.zero_le _, fun entry hentry => ?_⟩, hzero.le⟩
    exact absurd (mem_of_mem_take hentry) not_mem_nil
  · exact fun entry hentry => absurd hentry not_mem_nil

theorem Shown.restart (hshown : Shown env world)
    (hnew : Watcher.new config world.file = .ok watcher) :
    Shown env { world with watcher := watcher } := by
  obtain ⟨_, hreplays, _⟩ := Watcher.new_eq_ok.mp hnew
  obtain ⟨replay, hreplay, hforwarded, hnonce⟩ := applyAll_of_replayRecords hreplays
  obtain ⟨hcovers, _⟩ := hshown.counted.file replay hreplay
  refine ⟨⟨hshown.counted.nodup, hshown.counted.bound,
    hcovers.of_forwarded hnonce hforwarded.ge, ?_⟩, hshown.shown⟩
  intro other hother
  have hsame : other = replay := Except.ok.inj (hother.symm.trans hreplay)
  rw [hsame]
  exact ⟨hcovers, (congrArg BitVec.toNat hnonce).le⟩

theorem Reached.shown (hhosted : env.Hosted) (hnew : Watcher.new config [] = .ok watcher)
    (hreached : Reached env config key admits (.fresh watcher) status world) : Shown env world := by
  induction hreached with
  | start => exact shown_fresh hnew
  | @iterate before after _ _ hrun ih | @halt before after _ _ hrun ih =>
    have hafter := @keeps_runIteration_shown env config key hhosted before ih
    rwa [hrun] at hafter
  | retry _ _ ih => exact ih
  | restart _ _ hrestart ih => exact ih.restart hrestart

def acceptedFor (txHash : Bytes32) (logIndex : UInt64)
    (submissions : List Submission) : List Submission :=
  (acceptedOf submissions).filter fun entry =>
    decide (entry.origin.txHash = txHash ∧ entry.origin.logIndex = logIndex)

theorem acceptedFor_le_one_of_single_block (hhosted : env.Hosted)
    (hnew : Watcher.new config [] = .ok watcher)
    (hreached : Reached env config key admits (.fresh watcher) status world)
    {txHash : Bytes32} {logIndex : UInt64}
    (hsingle : ∀ blockHash otherHash, env.Shows world.clock ⟨blockHash, txHash, logIndex⟩ →
        env.Shows world.clock ⟨otherHash, txHash, logIndex⟩ → blockHash = otherHash) :
    (acceptedFor txHash logIndex world.submissions).length ≤ 1 := by
  have hshown := hreached.shown hhosted hnew
  have hnodup : ((acceptedFor txHash logIndex world.submissions).map
      fun entry => entry.origin).Nodup := hshown.counted.nodup.sublist (filter_sublist.map _)
  have hshows : ∀ entry ∈ acceptedFor txHash logIndex world.submissions,
      env.Shows world.clock ⟨entry.origin.blockHash, txHash, logIndex⟩ ∧
        entry.origin = ⟨entry.origin.blockHash, txHash, logIndex⟩ := by
    intro entry hentry
    obtain ⟨haccepted, hlog⟩ := mem_filter.mp hentry
    obtain ⟨rfl, rfl⟩ := of_decide_eq_true hlog
    exact ⟨hshown.shown entry haccepted, rfl⟩
  rcases hlist : acceptedFor txHash logIndex world.submissions with
    _ | ⟨first, _ | ⟨second, rest⟩⟩
  · exact Nat.zero_le 1
  · exact le_refl 1
  · rw [hlist] at hnodup hshows
    obtain ⟨hfirst, hfirstKey⟩ := hshows first mem_cons_self
    obtain ⟨hsecond, hsecondKey⟩ := hshows second (mem_cons_of_mem _ mem_cons_self)
    have hsame : second.origin = first.origin := by
      rw [hfirstKey, hsecondKey, hsingle _ _ hfirst hsecond]
    exact absurd (mem_map.mpr ⟨second, mem_cons_self, hsame⟩) (nodup_cons.mp hnodup).1

end Showing

/-! ## A registration which moves to the next block -/

def movedChain (fork block : ℕ) : Chain :=
  chainOf fork (fun n => if n = block then [enrolledLog 0] else []) fun n => by
    split
    · exact pairwise_singleton _ _
    · exact .nil

/-- The first block registers the address; later it is replaced, and the second block
does. -/
def movingEnv : Environment where
  source time :=
    if time < 7 then (movedChain 1 0).source 0 else (movedChain 0 1).source 1
  submitter _ := countingHost
  disk _ := .written
  fate _ := .goesOn

theorem hosted_moving : movingEnv.Hosted := hosted_of_counting fun _ => rfl

def movedOnce : World :=
  (runIteration movingEnv plainConfig constantKey (.fresh quietWatcher)).2

theorem runIteration_fresh_moving :
    runIteration movingEnv plainConfig constantKey (.fresh quietWatcher) = (.ok 1, movedOnce) := by
  exact Prod.ext (by decide +kernel) rfl

theorem blockHash_of_shows {origin : ForwardedKey} (hshows : movingEnv.Shows 7 origin) :
    origin.blockHash = (movedChain 1 0).hash 0 := by
  obtain ⟨log, _, ⟨⟨earlier, hearlier, number, header, hheader, hhash⟩, time,
    htime, address, logs, hlogs, hmem⟩, _⟩ := hshows
  have hsource : ∀ before < 7, movingEnv.source before =
      (movedChain 1 0).source 0 := fun before hlt => if_pos hlt
  rw [hsource earlier hearlier] at hheader
  have hnumber : origin.blockHash = slotHash 1 number.toNat := by
    rw [← hhash, ← Except.ok.inj hheader]
    rfl
  rw [hsource time htime, hnumber] at hlogs
  by_cases hzero : number.toNat = 0
  · rw [hnumber, hzero]
    rfl
  · have hempty : (movedChain 1 0).logs number.toNat = [] := if_neg hzero
    have hanswer : ((movedChain 1 0).source 0).logsInBlockByHash
        (slotHash 1 number.toNat) address = .ok [] := by
      have hslot := slotNumber_slotHash 1 number.toNat_lt
      simp only [Chain.source, hslot, hempty, filter_nil]
    rw [hanswer] at hlogs
    cases hlogs
    cases hmem

theorem acceptedFor_first_block : (acceptedFor (abiSlot 0) 0 movedOnce.submissions).length ≤ 1 := by
  have hclock : movedOnce.clock = 7 := by decide +kernel
  refine acceptedFor_le_one_of_single_block hosted_moving new_plain
    (.iterate (@Reached.start _ _ _ restarting _) runIteration_fresh_moving) ?_
  intro blockHash otherHash hshows hother
  rw [hclock] at hshows hother
  exact (blockHash_of_shows hshows).trans (blockHash_of_shows hother).symm

def refusedWorld : World := (runIteration movingEnv plainConfig constantKey movedOnce).2

def restartedWatcher : Watcher :=
  match Watcher.new plainConfig refusedWorld.file with
  | .ok watcher => watcher
  | .error _ => quietWatcher

theorem reached_restarted :
    Reached movingEnv plainConfig constantKey restarting (.fresh quietWatcher)
      none { refusedWorld with watcher := restartedWatcher } := by
  have hrefused : (runIteration movingEnv plainConfig constantKey movedOnce).1 =
      .error (.failed (.reorg (.orphanedParent 1))) := by decide +kernel
  have hnew : Watcher.new plainConfig refusedWorld.file = .ok restartedWatcher := by
    have hopens : (Watcher.new plainConfig refusedWorld.file).isOk = true := by decide +kernel
    unfold restartedWatcher
    split
    · assumption
    · next hfails => simp [hfails, Except.isOk, Except.toBool] at hopens
  exact .restart (.halt (.iterate .start runIteration_fresh_moving)
    (Prod.ext hrefused rfl)) rfl hnew

def movedTwice : World :=
  (runIteration movingEnv plainConfig constantKey
    { refusedWorld with watcher := restartedWatcher }).2

theorem runIteration_restarted : runIteration movingEnv plainConfig constantKey
        { refusedWorld with watcher := restartedWatcher } = (.ok 1, movedTwice) := by
  exact Prod.ext (by decide +kernel) rfl

/-- The registration has been accepted once in each of the two blocks. -/
theorem acceptedFor_two_blocks :
    ∃ world, movingEnv.Hosted ∧
      Reached movingEnv plainConfig constantKey restarting (.fresh quietWatcher) none world ∧
      (acceptedFor (abiSlot 0) 0 world.submissions).length = 2 := by
  refine ⟨movedTwice, hosted_moving, .iterate reached_restarted runIteration_restarted, ?_⟩
  decide +kernel

end Ingest
end Canon
