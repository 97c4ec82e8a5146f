import Canon.IngestProgress

/-!
# Sessions of the watcher

A session is a series of iterations.  After an error the watcher is called again, or it
is started again from its file, as it is after the death of the process.
-/

namespace Canon
namespace Ingest

inductive Resumption where
  | inPlace
  | fromFile
  deriving DecidableEq

def World.fresh (watcher : Watcher) : World := ⟨watcher, [], [], 0⟩

section Sessions

variable (env : Environment) (config : WatcherConfig) (key : BridgeActorKey)
  (admits : Ending → Resumption → Prop) (first : World)

/-- The worlds of a session, with the ending of the last call when it has not returned. -/
inductive Reached : Option Ending → World → Prop
  | start : Reached none first
  | iterate {before after : World} {count : UInt64} : Reached none before →
      runIteration env config key before = (.ok count, after) → Reached none after
  | halt {before after : World} {ending : Ending} : Reached none before →
      runIteration env config key before = (.error ending, after) → Reached (some ending) after
  | retry {before : World} {ending : Ending} :
      Reached (some ending) before → admits ending .inPlace → Reached none before
  | restart {before : World} {ending : Ending} {watcher : Watcher} :
      Reached (some ending) before → admits ending .fromFile →
      Watcher.new config before.file = .ok watcher → Reached none { before with watcher := watcher }

variable {env config key admits first} {file : List StateRecord} {watcher : Watcher}
  {ending : Ending} {done : KeyedEvents} {state : WatcherState} {before : World}

/-! ## What the events of a block keep -/

structure Routine (invariant : World → Prop) : Prop where
  tick : ∀ world, invariant world → invariant world.tick
  addRecord : ∀ world record, invariant world → invariant (world.addRecord record)
  addSubmission : ∀ world submission, invariant world → invariant (world.addSubmission submission)
  mapWatcher : ∀ world change, (∀ watcher : Watcher,
      (change watcher).reorgWindow = watcher.reorgWindow ∧
        (change watcher).lastConfirmedBlock = watcher.lastConfirmedBlock) →
    invariant world → invariant (world.mapWatcher change)

section Routine

variable {invariant : World → Prop} (hroutine : Routine invariant)
include hroutine

theorem keeps_callSource {α : Type} (ask : L1Source → Except SourceError α) :
    Fallible.Keeps invariant (callSource env ask) := by
  intro world hworld
  rcases callSource_cases env ask world with ⟨_, _, hrun⟩ | ⟨_, _, hrun⟩
  all_goals
    rw [hrun]
    exact hroutine.tick world hworld

theorem keeps_append (record : StateRecord) : Fallible.Keeps invariant (append env record) := by
  intro world hworld
  have htick := hroutine.tick world hworld
  rcases append_cases env record world with
    hrun | ⟨ending, _, hrun⟩ | ⟨ending, _, hrun⟩
  · rw [hrun]
    exact hroutine.addRecord _ record htick
  · rw [hrun]
    exact htick
  · rw [hrun]
    exact hroutine.addRecord _ record htick

theorem keeps_submitLoop (origin : ForwardedKey)
    (signed : SignedActionForSubmit) (retriesLeft : ℕ) :
    Fallible.Keeps invariant (submitLoop env origin signed retriesLeft) := by
  have hcall : Fallible.Keeps invariant (callSubmit env origin signed) := by
    intro world hworld
    have htick := hroutine.tick world hworld
    rcases callSubmit_cases env origin signed world with
      ⟨_, hrun⟩ | ⟨_, hrun⟩ | hrun
    · rw [hrun]
      exact htick
    all_goals
      rw [hrun]
      exact hroutine.addSubmission _ _ htick
  have hverdict : ∀ busy, Fallible.Keeps invariant busy →
      ∀ answer, Fallible.Keeps invariant (afterVerdict busy answer) := by
    intro busy hbusy answer
    rcases answer with error | verdict
    · exact .throw _
    · cases verdict with
      | ok => exact .pure ()
      | notAdmissible | parseError => exact .throw _
      | busy => exact hbusy
  induction retriesLeft with
  | zero => exact hcall.bind (hverdict _ (.throw _))
  | succ _ ih => exact hcall.bind (hverdict _ ih)

theorem keeps_commit (assigned : Option (Address × ActorId)) :
    Fallible.Keeps invariant (commit assigned) := by
  intro world hworld
  rcases commit_cases assigned world with
    ⟨book, _, hrun⟩ | ⟨_, _, _, _, _, hrun⟩
  · rw [hrun]
    exact hroutine.mapWatcher world ({ · with addressBook := book }) (fun _ => ⟨rfl, rfl⟩) hworld
  · rw [hrun]
    exact hworld

theorem keeps_forward (origin : ForwardedKey) (unsigned : UnsignedAction)
    (assigned : Option (Address × ActorId)) :
    Fallible.Keeps invariant (forward env config key origin unsigned assigned) := by
  refine .bind (.ofExcept _) fun signed => ?_
  refine .bind (keeps_submitLoop hroutine origin signed maxRetries) fun _ => ?_
  refine .bind .get fun now => ?_
  refine .bind (keeps_append hroutine _) fun _ => ?_
  refine .bind (keeps_commit hroutine assigned) fun _ => ?_
  exact .modify fun world =>
    hroutine.mapWatcher world _ fun _ => ⟨rfl, rfl⟩

theorem keeps_processLog (blockHash : Bytes32) (log : RawLog) :
    Fallible.Keeps invariant (processLog env config key blockHash log) := by
  unfold processLog
  cases decodeEvent log with
  | error => exact .throw _
  | ok found =>
    cases found with
    | none => exact .pure ()
    | some =>
      refine .bind .get fun now => ?_
      split
      · exact .pure ()
      · split
        · refine .bind (.modify fun world => ?_) fun _ =>
            keeps_append hroutine _
          exact hroutine.mapWatcher world _ fun _ => ⟨rfl, rfl⟩
        all_goals exact keeps_forward hroutine _ _ _

theorem keeps_fetchLogs (blockHash : Bytes32) :
    Fallible.Keeps invariant (fetchLogs env config blockHash) := by
  refine .bind (keeps_callSource hroutine _) fun bridgeLogs => ?_
  split
  · exact .bind (keeps_callSource hroutine _) fun _ => .pure _
  · exact .pure _

end Routine

/-! ## The time -/

section Time

variable {start : ℕ}

theorem routine_since : Routine (World.Since start) where
  tick _ hsince := hsince.tick
  addRecord _ _ hsince := hsince
  addSubmission _ _ hsince := hsince
  mapWatcher _ _ _ hsince := hsince

theorem keeps_runIteration : Fallible.Keeps (World.Since start) (runIteration env config key) := by
  have hcall : ∀ {α : Type} (ask : L1Source → Except SourceError α),
      Fallible.Keeps (World.Since start) (callSource env ask) := keeps_callSource routine_since
  have hblock : ∀ number, Fallible.Keeps (World.Since start)
      (confirmBlock env config key number) := by
    intro number
    refine .bind (.bind (hcall _) fun header => .bind
      (fun world hsince => (mirrors_advanceWindow header world hsince).1)
        fun _ => .bind (keeps_fetchLogs routine_since _) fun logs => .forM _
          fun log _ => keeps_processLog routine_since _ log) fun _ => ?_
    exact .bind (keeps_append routine_since _) fun _ => .modify fun _ h => h
  refine .bind (hcall _) fun head => ?_
  dsimp only
  split
  · exact .pure 0
  · refine .bind .get fun now => ?_
    dsimp only
    split
    · exact .pure 0
    · split
      · exact .pure 0
      · exact .bind (.forM _ fun i _ => hblock _) fun _ => .pure _

theorem clock_le_of_run {after : World} {result : Except Ending UInt64}
    (hrun : runIteration env config key before = (result, after)) : before.clock ≤ after.clock := by
  have hkept : (runIteration env config key before).2.Since before.clock :=
    keeps_runIteration before (le_refl before.clock)
  rwa [hrun] at hkept

end Time

/-! ## Restarts -/

theorem Watcher.new_eq_ok :
    Watcher.new config file = .ok watcher ↔
      ∃ hcapacity : 0 < config.reorgWindowCapacity,
        replayRecords file = .ok watcher.toWatcherState ∧
          watcher.reorgWindow = .new config.reorgWindowCapacity hcapacity := by
  unfold Watcher.new
  by_cases hcapacity : config.reorgWindowCapacity = 0
  · simp [hcapacity]
  · rw [dif_neg hcapacity]
    simp only [bind_eq_ok, mapError_eq_ok, pure_eq_ok]
    constructor
    · rintro ⟨state, hstate, rfl⟩
      exact ⟨Nat.pos_of_ne_zero hcapacity, hstate, rfl⟩
    · rintro ⟨_, hstate, hwindow⟩
      refine ⟨watcher.toWatcherState, hstate, ?_⟩
      rw [← hwindow]

variable {allowed : Option UInt64 → KeyedEvents → Prop}

variable (env config key allowed) in
/-- What is known between two calls, and after a call which did not return. -/
def Stands : Option Ending → World → Prop
  | none, world => ∃ done, Holds config key allowed done world
  | some ending, world => Halted env config key allowed ending world

theorem Stands.mono {larger : Option UInt64 → KeyedEvents → Prop}
    (hlarger : ∀ last done, allowed last done → larger last done)
    {status : Option Ending} {world : World}
    (hstands : Stands env config key allowed status world) :
    Stands env config key larger status world := by
  cases status with
  | none =>
    obtain ⟨done, hholds⟩ := hstands
    exact ⟨done, hholds.ingested, hlarger _ _ hholds.allowed⟩
  | some =>
    cases hstands with
    | consistent hholds hregular =>
      exact .consistent ⟨hholds.ingested, hlarger _ _ hholds.allowed⟩ hregular
    | behind hingested hallowed hrecorded hlives =>
      exact .behind hingested (hlarger _ _ hallowed) hrecorded hlives
    | exhausted hallowed hused hreplay hrecorded =>
      exact .exhausted (hlarger _ _ hallowed) hused hreplay hrecorded
    | lost hingested hallowed haccepted hexposed hlives =>
      exact .lost hingested (hlarger _ _ hallowed) haccepted hexposed hlives

theorem Ending.Exposed.suspect (hexposed : ending.Exposed) : ending.Suspect env := by
  unfold Ending.Exposed at hexposed
  split at hexposed
  · trivial
  · trivial
  · exact hexposed.elim

theorem Ingested.new {submissions : List Submission}
    (hingested : Ingested config key done state file submissions)
    (hnew : Watcher.new config file = .ok watcher) : watcher.toWatcherState = state := by
  obtain ⟨_, hreplay, _⟩ := Watcher.new_eq_ok.mp hnew
  exact Except.ok.inj (hreplay.symm.trans hingested.restores.replays)

theorem Ingested.restart (hingested : Ingested config key done state before.file before.submissions)
    (hallowed : allowed state.lastConfirmedBlock done)
    (hnew : Watcher.new config before.file = .ok watcher) :
    ∃ done, Holds config key allowed done { before with watcher := watcher } := by
  obtain rfl := hingested.new hnew
  exact ⟨done, hingested, hallowed⟩

theorem Halted.restart (hhalted : Halted env config key allowed ending before)
    (hrecorded : env.Lives ∨ ¬ending.Exposed)
    (hnew : Watcher.new config before.file = .ok watcher) :
    ∃ done, Holds config key allowed done { before with watcher := watcher } := by
  cases hhalted with
  | consistent hholds =>
    exact hholds.ingested.restart hholds.allowed hnew
  | behind hingested hallowed =>
    exact hingested.restart hallowed hnew
  | exhausted _ _ hreplay =>
    obtain ⟨_, hother, _⟩ := Watcher.new_eq_ok.mp hnew
    rw [hreplay] at hother
    cases hother
  | lost _ _ _ hexposed hlives =>
    rcases hrecorded with hlive | hrecorded
    · exact absurd hlive hlives
    · exact absurd hexposed hrecorded

/-- What each iteration keeps holds in all sessions whose restarts are not exposed; the
restriction may loosen with the time. -/
theorem Reached.stands {allowedAt : ℕ → Option UInt64 → KeyedEvents → Prop}
    (hmono : ∀ time later, time ≤ later → ∀ last done,
      allowedAt time last done → allowedAt later last done)
    (hstep : ∀ time, Fallible.Ensures
      (fun world => world.clock = time ∧ ∃ done, Holds config key (allowedAt time) done world)
      (runIteration env config key)
      (fun _ world => ∃ done, Holds config key (allowedAt time) done world)
      (Halted env config key (allowedAt time)))
    (hadmits : ∀ ending resumption, admits ending resumption →
      resumption = .fromFile ∧ (env.Lives ∨ ¬ending.Exposed))
    (hfirst : ∃ done, Holds config key (allowedAt first.clock) done first)
    {status : Option Ending} {world : World}
    (hreached : Reached env config key admits first status world) :
    Stands env config key (allowedAt world.clock) status world := by
  induction hreached with
  | start => exact hfirst
  | @iterate before after count _ hrun ih =>
    have hafter : Stands env config key (allowedAt before.clock) none after :=
      (hstep before.clock).of_ok ⟨rfl, ih⟩ hrun
    exact hafter.mono (hmono _ _ (clock_le_of_run hrun))
  | @halt before after ending _ hrun ih =>
    have hafter : Stands env config key (allowedAt before.clock) (some ending) after :=
      (hstep before.clock).of_error ⟨rfl, ih⟩ hrun
    exact hafter.mono (hmono _ _ (clock_le_of_run hrun))
  | retry _ hretry => cases (hadmits _ _ hretry).1
  | restart _ hrestart hnew ih => exact ih.restart (hadmits _ _ hrestart).2 hnew

end Sessions

end Ingest
end Canon
