import Canon.WatcherWindow

/-!
# Calling the watcher again

A header goes into the window before the logs of its block are fetched, so a watcher which
is called again after an error feeds the newest header to the window once more.  A window
with two headers takes it for a re-org of depth one.  A window with one header refuses it.
-/

namespace Canon
namespace Ingest

/-! ## The first block of an iteration -/

section Retry

variable {env : Environment} {chain : Chain} {config : WatcherConfig} {key : BridgeActorKey}
  {watcher : Watcher} {number : UInt64}

variable (config key) in
theorem keeps_absorbAction_last (last : Option UInt64) (origin : ForwardedKey)
    (unsigned : UnsignedAction) (assigned : Option (Address × ActorId)) :
    Fallible.Keeps (fun watcher => watcher.lastConfirmedBlock = last)
      (absorbAction config key origin unsigned assigned) := by
  refine .bind (.ofExcept _) fun _ => .bind .get fun _ => .bind ?_ fun _ =>
    .modify fun _ hlast => hlast
  intro watcher hlast
  cases assigned with
  | none => exact hlast
  | some entry =>
    simp only [absorbAssignment]
    cases commitAssignment watcher.addressBook entry.1 entry.2 with
    | error | ok => exact hlast

variable (config key) in
theorem keeps_absorbEvent_last (last : Option UInt64) (event : IngestedEvent)
    (blockHash : Bytes32) :
    Fallible.Keeps (fun watcher => watcher.lastConfirmedBlock = last)
      (absorbEvent config key event blockHash) := by
  intro watcher hlast
  rw [absorbEvent, Fallible.run_get_bind]
  by_cases hknown : forwardedKey blockHash event ∈ watcher.forwarded
  · rw [if_pos hknown]
    exact hlast
  · rw [if_neg hknown]
    cases previewIngest watcher.addressBook event watcher.nextNonce with
    | noAction => exact hlast
    | emit | emitWithAssignment =>
      exact keeps_absorbAction_last config key last _ _ _ watcher hlast

variable (chain config key) in
theorem absorbLogs_last (n : ℕ) (watcher : Watcher) :
    (absorbLogs config key chain n watcher).2.lastConfirmedBlock = watcher.lastConfirmedBlock := by
  have hkeeps : Fallible.Keeps (fun later => later.lastConfirmedBlock = watcher.lastConfirmedBlock)
      (absorbLogs config key chain n) := by
    apply Fallible.Keeps.forM
    intro log _
    unfold absorbLog
    cases decodeEvent log with
    | error => exact .throw _
    | ok found =>
      cases found with
      | none => exact .pure _
      | some event => exact keeps_absorbEvent_last config key _ event _
  exact hkeeps watcher rfl

theorem absorbHeader_newest {newest : ℕ} (hbound : newest < 2 ^ 64)
    (htracks : chain.Tracks watcher.reorgWindow newest) :
    if 2 ≤ watcher.reorgWindow.buffer.length then
      absorbHeader (chain.header newest) watcher = (.ok (), watcher)
    else
      ∃ ending, absorbHeader (chain.header newest) watcher = (.error ending, watcher) := by
  have hadvance := advance_newest hbound htracks
  have hne : watcher.reorgWindow.buffer ≠ [] := htracks.ne_nil
  by_cases htwo : 2 ≤ watcher.reorgWindow.buffer.length
  · rw [if_pos htwo] at hadvance ⊢
    obtain ⟨outcome, hadvance⟩ := hadvance
    simp only [absorbHeader, if_neg hne, hadvance]
  · rw [if_neg htwo] at hadvance ⊢
    simp only [absorbHeader, if_neg hne, hadvance]
    exact ⟨_, rfl⟩

theorem keeps_absorbBlock_finished {n : ℕ} (hle : n ≤ number.toNat) :
    Fallible.Keeps (fun watcher => n < finished watcher.lastConfirmedBlock)
      (absorbBlock config key chain number) := by
  refine .bind ?_ fun _ => .bind ?_ fun _ => .modify ?_
  · intro watcher hn
    unfold absorbHeader
    split
    · exact hn
    · cases watcher.reorgWindow.advance (chain.header number.toNat) with
      | error | ok => exact hn
  · intro watcher hn
    rw [absorbLogs_last]
    exact hn
  · exact fun watcher _ => Nat.lt_succ_of_le hle

theorem absorbBlock_entered (htracks : chain.Tracks watcher.reorgWindow number.toNat)
    (hnext : finished watcher.lastConfirmedBlock = number.toNat) :
    number.toNat < finished (absorbBlock config key chain number watcher).2.lastConfirmedBlock ↔
      2 ≤ watcher.reorgWindow.buffer.length ∧
        (absorbLogs config key chain number.toNat watcher).1 = .ok () := by
  have hheader := absorbHeader_newest number.toNat_lt htracks
  by_cases htwo : 2 ≤ watcher.reorgWindow.buffer.length
  · rw [if_pos htwo] at hheader
    rw [absorbBlock, Fallible.run_bind_ok hheader, Fallible.run_bind]
    have hkept := absorbLogs_last chain config key number.toNat watcher
    rcases hlogs : absorbLogs config key chain number.toNat watcher with
      ⟨ending | _, after⟩
    · rw [hlogs] at hkept
      have hlast : finished after.lastConfirmedBlock = number.toNat := by
        rw [hkept, hnext]
      simp [hlast]
    · simp [finished, htwo]
  · rw [if_neg htwo] at hheader
    obtain ⟨ending, hheader⟩ := hheader
    rw [absorbBlock, Fallible.run_bind_error hheader]
    simp [hnext, htwo]

theorem batch_pos {start confirmedHead batch : UInt64}
    (hdue : start ≤ confirmedHead) (hbatch : batch ≠ 0) :
    0 < (min (availableBlocks start confirmedHead) batch).toNat := by
  have hsub := UInt64.toNat_sub_of_le _ _ hdue
  have hhead := confirmedHead.toNat_lt
  have havailable : 0 < (availableBlocks start confirmedHead).toNat := by
    by_cases hmax : confirmedHead - start = UInt64.ofNat (2 ^ 64 - 1)
    · rw [availableBlocks, if_pos hmax, hmax]
      decide
    · have hne : (confirmedHead - start).toNat ≠ 2 ^ 64 - 1 := fun heq =>
        hmax (UInt64.toNat_inj.mp (heq.trans rfl))
      rw [availableBlocks, if_neg hmax, UInt64.toNat_add, UInt64.toNat_one,
        Nat.mod_eq_of_lt (by omega)]
      exact Nat.succ_pos _
  change 0 < (if availableBlocks start confirmedHead ≤ batch then
    availableBlocks start confirmedHead else batch).toNat
  split
  · exact havailable
  · exact Nat.pos_of_ne_zero fun hzero => hbatch (UInt64.toNat_inj.mp hzero)

theorem absorbUpTo_first {watcher : Watcher} {number confirmedHead : UInt64}
    (hstart : startBlock watcher.lastConfirmedBlock = number) (hdue : number ≤ confirmedHead)
    (hbatch : config.blocksPerIteration.toUInt64 ≠ 0) :
    ∃ rest : Absorbing UInt64, absorbUpTo config key chain confirmedHead watcher =
        (absorbBlock config key chain number >>= fun _ => rest) watcher ∧
      Fallible.Keeps (fun later => number.toNat < finished later.lastConfirmedBlock)
        rest := by
  have hbehind : ¬confirmedHead < number := UInt64.not_lt.mpr hdue
  have hbound := batch_le config.blocksPerIteration.toUInt64 hbehind
  have hpos := batch_pos hdue hbatch
  have hhead := confirmedHead.toNat_lt
  simp only [absorbUpTo, Fallible.run_get_bind, hstart, if_neg hbehind, if_neg hbatch]
  generalize min (availableBlocks number confirmedHead)
    config.blocksPerIteration.toUInt64 = blocks at hbound hpos
  obtain ⟨count, hcount⟩ := Nat.exists_eq_succ_of_ne_zero hpos.ne'
  have hzero : number + UInt64.ofNat 0 = number := UInt64.add_zero number
  refine ⟨do
    ((List.range count).map Nat.succ).forM fun i =>
      absorbBlock config key chain (number + UInt64.ofNat i)
    return blocks, ?_, ?_⟩
  · have hloop : ((List.range blocks.toNat).forM fun i =>
        absorbBlock config key chain (number + UInt64.ofNat i)) =
        (absorbBlock config key chain number >>= fun _ =>
          ((List.range count).map Nat.succ).forM fun i =>
            absorbBlock config key chain (number + UInt64.ofNat i)) := by
      rw [hcount, List.range_succ_eq_map]
      exact congrArg (fun first => absorbBlock config key chain first >>= fun _ =>
        ((List.range count).map Nat.succ).forM fun i =>
          absorbBlock config key chain (number + UInt64.ofNat i)) hzero
    rw [hloop, bind_assoc]
  · refine .bind (.forM _ fun i hi => keeps_absorbBlock_finished ?_) fun _ => .pure _
    obtain ⟨j, hj, rfl⟩ := List.mem_map.mp hi
    have hlt := List.mem_range.mp hj
    rw [UInt64.toNat_add, UInt64.toNat_ofNat_of_lt'
      (show j.succ < 2 ^ 64 by omega), Nat.mod_eq_of_lt (by omega)]
    exact Nat.le_add_right _ _

theorem absorbBlock_last {after : Watcher}
    (hrun : absorbBlock config key chain number watcher = (.ok (), after)) :
    after.lastConfirmedBlock = some number := by
  obtain ⟨_, _, _, hrest⟩ := Fallible.ok_of_run_bind hrun
  obtain ⟨_, _, _, hmodify⟩ := Fallible.ok_of_run_bind hrest
  cases hmodify
  rfl

theorem absorbUpTo_confirms {watcher : Watcher} {number confirmedHead : UInt64}
    (hstart : startBlock watcher.lastConfirmedBlock = number) (hdue : number ≤ confirmedHead)
    (hbatch : config.blocksPerIteration.toUInt64 ≠ 0) :
    number.toNat < finished (absorbUpTo config key chain confirmedHead
        watcher).2.lastConfirmedBlock ↔
      number.toNat < finished (absorbBlock config key chain number
        watcher).2.lastConfirmedBlock := by
  obtain ⟨rest, heq, hrest⟩ := @absorbUpTo_first chain config key watcher number
    confirmedHead hstart hdue hbatch
  rw [heq, Fallible.run_bind]
  rcases hrun : absorbBlock config key chain number watcher with
    ⟨ending | _, after⟩
  · rfl
  · have hafter : number.toNat < finished after.lastConfirmedBlock := by
      rw [absorbBlock_last hrun]
      exact Nat.lt_succ_self _
    exact ⟨fun _ => hafter, fun _ => hrest after hafter⟩

/-! ## The interrupted block -/

variable {head : ℕ → UInt64} {world : World}

theorem startBlock_of_finished {last : Option UInt64} (hnext : finished last = number.toNat) :
    startBlock last = number := by
  apply UInt64.toNat_inj.mp
  have hbound := number.toNat_lt
  rw [startBlock_toNat, hnext]
  omega

theorem confirms_entered (hworks : env.WorksFrom chain head world.clock)
    (hdue : Due config (head world.clock) number.toNat)
    (hnext : finished world.watcher.lastConfirmedBlock = number.toNat)
    (htracks : chain.Tracks world.watcher.reorgWindow number.toNat) :
    number.toNat < finished (runIteration env config key world).2.watcher.lastConfirmedBlock ↔
      2 ≤ world.watcher.reorgWindow.buffer.length ∧
        (absorbLogs config key chain number.toNat world.watcher).1 = .ok () := by
  obtain ⟨hbatch, hconfirmed⟩ := hdue
  have hdepth : ¬head world.clock < config.confirmationDepth.toUInt64 := by
    intro hlt
    rw [confirmedBlocks, if_pos hlt] at hconfirmed
    exact Nat.not_lt_zero _ hconfirmed
  rw [confirmedBlocks, if_neg hdepth] at hconfirmed
  have hle : number ≤ head world.clock - config.confirmationDepth.toUInt64 :=
    UInt64.le_iff_toNat_le.mpr (Nat.le_of_lt_succ hconfirmed)
  obtain ⟨_, hrun⟩ := mirrors_runIteration hworks config key rfl hdepth
  have hconfirms := @absorbUpTo_confirms chain config key world.watcher number _
    (startBlock_of_finished hnext) hle hbatch
  rw [hrun] at hconfirms
  rw [hconfirms]
  exact absorbBlock_entered htracks hnext

/-- The next iteration after an error processes the block whose header had been fetched
exactly when the window holds another header too, provided the logs of the block decode
and its actions can be made. -/
theorem retry_confirms_iff {watcher : Watcher}
    {admits : Ending → Resumption → Prop} {error : WatcherError}
    (hserves : env.Serves chain head) (hgrows : Grows head)
    (hnew : Watcher.new config [] = .ok watcher)
    (hreached : Reached env config key admits (.fresh watcher)
      (some (.failed error)) world) {number : UInt64}
    (hnext : finished world.watcher.lastConfirmedBlock = number.toNat)
    (hfetched : world.watcher.reorgWindow.buffer.getLast? = some (chain.header number.toNat))
    (hworks : env.WorksFrom chain head world.clock) :
    number.toNat < finished (runIteration env config key world).2.watcher.lastConfirmedBlock ↔
      2 ≤ world.watcher.reorgWindow.buffer.length ∧
        (absorbLogs config key chain number.toNat world.watcher).1 = .ok () := by
  have hwindow := hreached.windowAt (fun time => Due config (head time)) hserves
    (fun time hbatch n hn => ⟨hbatch, hn⟩)
    (fun time later hle n hdue => ⟨hdue.1, hdue.2.trans_le
      (confirmedBlocks_mono (hgrows _ _ hle))⟩) hnew
  rcases hwindow with hempty | ⟨newest, hbound, htracks, hlast⟩
  · rw [hempty] at hfetched
    cases hfetched
  · have hheader : chain.header newest = chain.header number.toNat :=
      Option.some.inj (htracks.getLast?.symm.trans hfetched)
    have hsame : newest = number.toNat :=
      chain.hash_injective newest number.toNat hbound number.toNat_lt
        (congrArg BlockHeader.hash hheader)
    subst hsame
    rcases hlast with hlast | ⟨_, hdue⟩
    · omega
    · exact confirms_entered hworks hdue hnext htracks

end Retry

/-! ## Chains without logs -/

def quietChain (fork : ℕ) : Chain := chainOf fork (fun _ => []) fun _ => .nil

def quietConfig : WatcherConfig := { plainConfig with identityRegistryContract := 0 }

theorem new_quiet : Watcher.new quietConfig [] = .ok quietWatcher :=
  rfl

def interruptedEnv (fault : ℕ) : Environment :=
  { Environment.ideal (quietChain 2) fun _ => 1 with
    source := fun time =>
      if time = fault then
        { (quietChain 2).source 1 with
          logsInBlockByHash := fun _ _ => .error (.transport "timeout") }
      else (quietChain 2).source 1 }

theorem serves_interrupted (fault : ℕ) :
    (interruptedEnv fault).Serves (quietChain 2) fun _ => 1 where
  latest time number hlatest := by
    by_cases htime : time = fault
    · simp only [interruptedEnv, if_pos htime] at hlatest
      exact (Except.ok.inj hlatest).symm
    · simp only [interruptedEnv, if_neg htime] at hlatest
      exact (Except.ok.inj hlatest).symm
  headers time number header hheader := by
    by_cases htime : time = fault
    · simp only [interruptedEnv, if_pos htime] at hheader
      exact (Except.ok.inj hheader).symm
    · simp only [interruptedEnv, if_neg htime] at hheader
      exact (Except.ok.inj hheader).symm
  logs time n address found hn hfound := by
    by_cases htime : time = fault
    · simp only [interruptedEnv, if_pos htime] at hfound
      cases hfound
    · simp only [interruptedEnv, if_neg htime] at hfound
      have hideal : (Environment.ideal (quietChain 2) fun _ => 1).Serves
          (quietChain 2) fun _ => 1 := serves_of_source fun _ => rfl
      exact hideal.logs time n address found hn hfound

theorem works_interrupted {fault start : ℕ} (hstart : fault < start) :
    (interruptedEnv fault).WorksFrom (quietChain 2) (fun _ => 1) start := by
  have hsource : ∀ time ≥ start, (interruptedEnv fault).source time = (quietChain 2).source 1 :=
    fun time htime => if_neg (by omega)
  have hworks : (Environment.ideal (quietChain 2) fun _ => 1).WorksFrom
      (quietChain 2) (fun _ => 1) start := works_ideal fun _ _ => UInt64.le_refl 1
  refine ⟨hworks.lives, hworks.writes, hworks.accepts, ?_, ?_, ?_, hworks.grows⟩
  · intro time htime
    rw [hsource time htime]
    exact hworks.latest time htime
  · intro time htime
    rw [hsource time htime]
    exact hworks.headers time htime
  · intro time htime
    rw [hsource time htime]
    exact hworks.logs time htime

def interruptedWorld : World :=
  (runIteration (interruptedEnv 6) quietConfig constantKey
    (runIteration (interruptedEnv 6) quietConfig constantKey (.fresh quietWatcher)).2).2

theorem reached_interruptedWorld : Reached (interruptedEnv 6) quietConfig constantKey restarting
      (.fresh quietWatcher) (some (.failed (.source (.transport "timeout"))))
      interruptedWorld := by
  have hfirst : (runIteration (interruptedEnv 6) quietConfig constantKey
      (.fresh quietWatcher)).1 = .ok 1 := by
    with_unfolding_all rfl
  refine .halt (.iterate .start (Prod.ext hfirst rfl)) (Prod.ext ?_ rfl)
  with_unfolding_all rfl

theorem retry_confirms_second_block :
    1 < finished (runIteration (interruptedEnv 6) quietConfig constantKey
      interruptedWorld).2.watcher.lastConfirmedBlock := by
  have hclock : interruptedWorld.clock = 7 := by
    with_unfolding_all rfl
  have hlength : interruptedWorld.watcher.reorgWindow.buffer.length = 2 := by
    with_unfolding_all rfl
  refine (@retry_confirms_iff (interruptedEnv 6) (quietChain 2) quietConfig
    constantKey (fun _ => 1) interruptedWorld quietWatcher restarting _
    (serves_interrupted 6) (grows_const 1) new_quiet reached_interruptedWorld 1
    ?_ ?_ (works_interrupted ?_)).mpr ⟨hlength.ge, rfl⟩
  · with_unfolding_all rfl
  · with_unfolding_all rfl
  · rw [hclock]
    decide

/-- The first block is interrupted, and the next call fails at the window. -/
theorem not_retry_confirms_first_block :
    ∃ world, Reached (interruptedEnv 2) quietConfig constantKey restarting
        (.fresh quietWatcher) (some (.failed (.source (.transport "timeout"))))
        world ∧
      finished world.watcher.lastConfirmedBlock = 0 ∧
      world.watcher.reorgWindow.buffer.getLast? = some ((quietChain 2).header 0) ∧
      (interruptedEnv 2).WorksFrom (quietChain 2) (fun _ => 1) world.clock ∧
      ¬0 < finished (runIteration (interruptedEnv 2) quietConfig constantKey
        world).2.watcher.lastConfirmedBlock := by
  refine ⟨_, .halt .start rfl, rfl, rfl, works_interrupted ?_, ?_⟩
  · decide
  · exact Nat.lt_irrefl 0

/-! ## A failed submission -/

/-- A signature or a submission which failed, after any number of busy answers, has
left the memory and the file as they were.  So the next attempt at the event, in any
environment, previews the same and submits the same signed action. -/
theorem failed_submission_leaves_state {env : Environment}
    {config : WatcherConfig} {key : BridgeActorKey} {event : IngestedEvent}
    {blockHash : Bytes32} {before after : World} {error : WatcherError}
    (hfailed : processEvent env config key event blockHash before = (.error (.failed error), after))
    (hcause : error.OfSubmission) : after.watcher = before.watcher ∧ after.file = before.file ∧
    ∃ unsigned, (previewIngest before.watcher.addressBook event
        before.watcher.nextNonce).unsigned = some unsigned ∧
      previewIngest after.watcher.addressBook event after.watcher.nextNonce =
        previewIngest before.watcher.addressBook event before.watcher.nextNonce ∧
      (∃ sent, after.submissions = before.submissions ++ sent ∧
        ∀ submission ∈ sent, sign config key unsigned = .ok submission.signed) ∧
      ∀ later result retried, processEvent later config key event blockHash after =
          (result, retried) →
        ∃ sent, retried.submissions = after.submissions ++ sent ∧
          ∀ submission ∈ sent, sign config key unsigned = .ok submission.signed := by
  have heffect := processEvent_effect env config key event blockHash before
  rw [hfailed] at heffect
  have hkept : (after.watcher = before.watcher ∧ after.file = before.file) ∧
      ∃ unsigned, (previewIngest before.watcher.addressBook event
        before.watcher.nextNonce).unsigned = some unsigned := by
    cases heffect with
    | noted _ _ hnote =>
      cases hnote with
      | unwritten hunwritten => exact absurd hcause hunwritten.not_ofSubmission
      | interrupted hinterrupted => cases hinterrupted; exact hcause.elim
    | replaced _ hpreview hforward | registered _ hpreview hforward =>
      exact ⟨hforward.failed hcause, _, by rw [hpreview]; rfl⟩
  obtain ⟨⟨hwatcher, hfile⟩, unsigned, hunsigned⟩ := hkept
  have hsame : ∀ {sent : List Submission},
      (∀ submission ∈ sent, ∃ unsigned, (previewIngest before.watcher.addressBook event
          before.watcher.nextNonce).unsigned = some unsigned ∧
        sign config key unsigned = .ok submission.signed) →
      ∀ submission ∈ sent, sign config key unsigned = .ok submission.signed := by
    intro sent hsent submission hmem
    obtain ⟨other, hother, hsign⟩ := hsent submission hmem
    rw [hunsigned] at hother
    rw [Option.some.inj hother]
    exact hsign
  refine ⟨hwatcher, hfile, unsigned, hunsigned, by rw [hwatcher], ?_, ?_⟩
  · obtain ⟨sent, hsent, hsigned⟩ := heffect.submissions
    exact ⟨sent, hsent, hsame hsigned⟩
  · intro later result retried hretry
    have hagain := processEvent_effect later config key event blockHash after
    rw [hretry] at hagain
    obtain ⟨sent, hsent, hsigned⟩ := hagain.submissions
    rw [hwatcher] at hsigned
    exact ⟨sent, hsent, hsame hsigned⟩

def busyEnv : Environment :=
  { Environment.ideal (quietChain 0) fun _ => 1 with
    submitter := fun _ _ _ => .ok .busy }

def busyWorld : World := ⟨quietWatcher, [], [], 0⟩

def busyEvent : IngestedEvent := .registeredEcdsa 7 [1, 2, 3] sampleOrigin

theorem failed_submission_leaves_state_busy :
    ∃ after, (∃ error, processEvent busyEnv quietConfig constantKey busyEvent
        .zero busyWorld = (.error (.failed (.submit error)), after)) ∧
      after.submissions.length = 17 ∧ after.watcher = quietWatcher ∧ after.file = [] := by
  have hfirst : (processEvent busyEnv quietConfig constantKey busyEvent .zero busyWorld).1 =
      .error (.failed (.submit (.transport "exceeded retry budget on Busy verdict"))) := by
    decide +kernel
  have hfailed := Prod.fst_eq_iff.mp hfirst
  obtain ⟨hwatcher, hfile, _⟩ := failed_submission_leaves_state hfailed trivial
  exact ⟨_, ⟨_, hfailed⟩, by decide +kernel, hwatcher, hfile⟩

end Ingest
end Canon
