import Canon.IngestInvariant

/-!
# How a call of the watcher ends

The source and the submitter say what they like, and the process may die at any call.
A call of the watcher ends in one of four situations: the memory, the file and the
accepted actions belong to one list of events; only the memory is behind; the last actor
id has been used up; or an action was accepted and its record is missing.
-/

namespace Canon
namespace Ingest

def Environment.Writes (env : Environment) : Prop := ∀ time, env.disk time = .written

def Environment.Lives (env : Environment) : Prop := ∀ time, env.fate time = .goesOn

/-- The process died between the acceptance of an action and its record. -/
def Ending.Exposed : Ending → Prop
  | .crashed (.afterSubmit (.ok .ok)) => True
  | .crashed (.beforeAppend (.submitted ..)) => True
  | _ => False

/-- The submitter speaks for a host which admits an action exactly when its nonce is the
next one. -/
structure Environment.Hosted (env : Environment) : Prop where
  accepted : ∀ time submissions signed, env.submitter time submissions signed = .ok .ok →
      signed.unsigned.nonce = BitVec.ofNat 128 (acceptedOf submissions).length
  refused : ∀ time submissions signed,
    Reports (env.submitter time submissions signed) .notAdmissible →
      signed.unsigned.nonce ≠ BitVec.ofNat 128 (acceptedOf submissions).length

/-- An ending after which the file and the host may disagree, or do. -/
def Ending.Suspect (env : Environment) : Ending → Prop
  | .crashed (.afterSubmit (.ok .ok)) => True
  | .crashed (.beforeAppend (.submitted ..)) => True
  | .failed (.submit .notAdmissible) => env.Hosted
  | _ => False

/-- An ending after which the file and the memory may disagree as well. -/
def Ending.Irregular (env : Environment) : Ending → Prop
  | .failed (.config _) => True
  | ending => ending.Suspect env

section Runs

variable (env : Environment) (config : WatcherConfig) (key : BridgeActorKey)
  (allowed : Option UInt64 → KeyedEvents → Prop)

/-- The memory, the file and the accepted actions belong to these events. -/
structure Holds (done : KeyedEvents) (world : World) : Prop where
  ingested : Ingested config key done world.watcher.toWatcherState world.file world.submissions
  allowed : allowed world.watcher.lastConfirmedBlock done

inductive Halted : Ending → World → Prop
  | consistent {done : KeyedEvents} {ending : Ending} {world : World} :
      Holds config key allowed done world → ¬ending.Irregular env → Halted ending world
  | behind {done : KeyedEvents} {state : WatcherState} {ending : Ending} {world : World} :
      Ingested config key done state world.file world.submissions →
      allowed state.lastConfirmedBlock done → ¬ending.Suspect env → ¬env.Lives → Halted ending world
  | exhausted {done : KeyedEvents} {last : Option UInt64} {error : StateError}
      {ending : Ending} {world : World} : allowed last done →
      (accountOfKeyed done).known.length + 1 = 2 ^ 64 →
      replayRecords world.file = .error error → ¬ending.Suspect env → Halted ending world
  | lost {done : KeyedEvents} {state : WatcherState}
      {before : List Submission} {submission : Submission} {ending : Ending} {world : World} :
      Ingested config key done state world.file before → allowed state.lastConfirmedBlock done →
      acceptedOf world.submissions = acceptedOf before ++ [submission] →
      ending.Exposed → ¬env.Lives → Halted ending world

variable {env config key allowed}

theorem Refusal.regular {origin : ForwardedKey}
    {signed : SignedActionForSubmit} {before : List Submission} {ending : Ending}
    (hnonce : signed.unsigned.nonce = BitVec.ofNat 128 (acceptedOf before).length)
    (hrefusal : Refusal env origin signed before ending) : ¬ending.Irregular env := by
  cases hrefusal with
  | @answered time submissions error htries hreports =>
    cases error with
    | notAdmissible =>
      intro hhosted
      have hother := Environment.Hosted.refused hhosted _ _ _ hreports
      rw [htries.acceptedOf_eq] at hother
      exact hother hnonce
    | encode | unknownVerdict | parseError | transport => exact fun h => h
  | diedBefore => exact fun h => h
  | @diedAfter time answer hdied hanswer =>
    rcases answer with error | verdict
    · exact fun h => h
    · cases verdict with
      | ok => exact absurd rfl hanswer
      | notAdmissible | parseError | busy => exact fun h => h

theorem regular_of_sign_error {unsigned : UnsignedAction} {error : WatcherError}
    (hsign : sign config key unsigned = .error error) : ¬(Ending.failed error).Irregular env := by
  rw [sign] at hsign
  cases hinput : signingInput unsigned.action unsigned.signer unsigned.nonce
    config.deploymentId with
  | error _ =>
    rw [hinput] at hsign
    cases hsign
    exact fun h => h
  | ok bytes =>
    rw [hinput] at hsign
    cases hkey : key.signPrehash (keccak256 bytes) with
    | error =>
      simp only [Except.mapError, hkey, ok_bind] at hsign
      cases hsign
      exact fun h => h
    | ok =>
      simp only [Except.mapError, hkey, ok_bind] at hsign
      cases hsign

theorem not_lives {time : ℕ} (hdied : env.fate time ≠ .goesOn) : ¬env.Lives :=
  fun hlives => hdied (hlives time)

section Writing

variable (hwrites : env.Writes) {record : StateRecord} {ending : Ending}
include hwrites

theorem Unwritten.eq_crashed (hunwritten : Unwritten env record ending) :
    ending = .crashed (.beforeAppend record) ∧ ¬env.Lives := by
  cases hunwritten with
  | died hdied => exact ⟨rfl, not_lives hdied⟩
  | failed _ hdisk => exact absurd (hwrites _) hdisk

theorem Interrupted.eq_crashed (hinterrupted : Interrupted env record ending) :
    ending = .crashed (.afterAppend record) ∧ ¬env.Lives := by
  cases hinterrupted with
  | died hdied => exact ⟨rfl, not_lives hdied⟩
  | failed _ hdisk => exact absurd (hwrites _) hdisk

theorem Unrecorded.exposed {origin : ForwardedKey} {nextNonce : Nonce}
    {assigned : Option (Address × ActorId)}
    (hunrecorded : Unrecorded env (submittedRecord origin nextNonce assigned)
      ending) : ending.Exposed ∧ ¬env.Lives := by
  cases hunrecorded with
  | died hdied => exact ⟨trivial, not_lives hdied⟩
  | unwritten hunwritten =>
    obtain ⟨rfl, hlives⟩ := hunwritten.eq_crashed hwrites
    exact ⟨trivial, hlives⟩

end Writing

/-! ## One event -/

section Event

variable (hwrites : env.Writes) {done : KeyedEvents}
  {entry : ForwardedKey × IngestedEvent} {before after : World} {result : Except Ending Unit}
  (hholds : Holds config key allowed done before) (hfresh : entry.1 ∉ done.map Prod.fst)
  (hallowed : allowed before.watcher.lastConfirmedBlock (done ++ [entry]))

variable (config key allowed) in
def Settles (env : Environment) (done : KeyedEvents) (last : Option UInt64) :
    Except Ending Unit → World → Prop
  | .ok _, after => Holds config key allowed done after ∧ after.watcher.lastConfirmedBlock = last
  | .error ending, after => Halted env config key allowed ending after

include hwrites hholds hfresh hallowed

theorem NoteEffect.settles (hnone : entry.2.registration = none)
    (heffect : NoteEffect env entry.1 before result after) :
    Settles config key allowed env (done ++ [entry])
      before.watcher.lastConfirmedBlock result after := by
  have hnoted := hholds.ingested.note hnone hfresh rfl
  cases heffect with
  | unwritten hunwritten =>
    obtain ⟨rfl, hlives⟩ := hunwritten.eq_crashed hwrites
    exact .behind hholds.ingested hholds.allowed (fun h => h) hlives
  | interrupted hinterrupted =>
    obtain ⟨rfl, hlives⟩ := hinterrupted.eq_crashed hwrites
    exact .behind hnoted hallowed (fun h => h) hlives
  | noted => exact ⟨⟨hnoted, hallowed⟩, rfl⟩

variable {address : Address} {pk : Bytes} {unsigned : UnsignedAction}

omit hfresh hallowed in
theorem ForwardEffect.settles {assigned : Option (Address × ActorId)}
    (hnonce : unsigned.nonce = before.watcher.nextNonce)
    (hrecorded : ∀ signed submissions clock, sign config key unsigned = .ok signed →
      acceptedOf submissions = acceptedOf before.submissions ++ [⟨entry.1, signed, .ok .ok⟩] →
      (∀ ending, Uncommitted env before.watcher.addressBook assigned
          (submittedRecord entry.1 (saturatingSucc before.watcher.nextNonce) assigned) ending →
        Halted env config key allowed ending
          ((before.sent submissions clock).addRecord (submittedRecord entry.1
            (saturatingSucc before.watcher.nextNonce) assigned))) ∧
      ∀ book, CommitsTo before.watcher.addressBook assigned book →
        Holds config key allowed (done ++ [entry])
          (((before.sent submissions clock).addRecord (submittedRecord entry.1
            (saturatingSucc before.watcher.nextNonce) assigned)).mapWatcher
              fun watcher => watcher.commitForwarded entry.1 book))
    (heffect : ForwardEffect env config key entry.1 unsigned assigned before result after) :
    Settles config key allowed env (done ++ [entry])
      before.watcher.lastConfirmedBlock result after := by
  cases heffect with
  | unsigned hsign => exact .consistent hholds (regular_of_sign_error hsign)
  | refused hsign htries hrefusal =>
    have hsame : unsigned.nonce = BitVec.ofNat 128 (acceptedOf before.submissions).length :=
      hnonce.trans hholds.ingested.nonce_eq
    rw [← (of_sign_ok hsign).1] at hsame
    exact .consistent ⟨hholds.ingested.of_acceptedOf_eq htries.acceptedOf_eq, hholds.allowed⟩
      (hrefusal.regular hsame)
  | unrecorded _ haccepts hunrecorded =>
    obtain ⟨hexposed, hlives⟩ := hunrecorded.exposed hwrites
    exact .lost hholds.ingested hholds.allowed haccepts.acceptedOf_eq hexposed hlives
  | uncommitted hsign haccepts huncommitted =>
    exact (hrecorded _ _ _ hsign haccepts.acceptedOf_eq).1 _ huncommitted
  | committed hsign haccepts hcommits =>
    exact ⟨(hrecorded _ _ _ hsign haccepts.acceptedOf_eq).2 _ hcommits, rfl⟩

theorem ForwardEffect.settles_replace (hevent : entry.2.registration = some (address, pk))
    (hmem : address ∈ (accountOfKeyed done).known)
    (heffect : ForwardEffect env config key entry.1 ⟨.replaceKey (UInt64.ofNat
      ((accountOfKeyed done).known.idxOf address + 1)) pk, bridgeActorId,
        before.watcher.nextNonce⟩ none before result after) :
    Settles config key allowed env (done ++ [entry])
      before.watcher.lastConfirmedBlock result after := by
  refine heffect.settles hwrites hholds rfl ?_
  intro signed submissions clock hsign haccepted
  have hreplaced := hholds.ingested.replace hevent hmem hsign hfresh haccepted
  constructor
  · intro ending huncommitted
    cases huncommitted with
    | interrupted hinterrupted =>
      obtain ⟨rfl, hlives⟩ := hinterrupted.eq_crashed hwrites
      exact .behind hreplaced hallowed (fun h => h) hlives
    | refused hassigned => cases hassigned
  · rintro book rfl
    exact ⟨hreplaced, hallowed⟩

theorem ForwardEffect.settles_register (hevent : entry.2.registration = some (address, pk))
    (hmem : address ∉ (accountOfKeyed done).known)
    (heffect : ForwardEffect env config key entry.1
      ⟨.registerIdentity (UInt64.ofNat ((accountOfKeyed done).known.length + 1)) pk, bridgeActorId,
          before.watcher.nextNonce⟩
      (some (address, UInt64.ofNat ((accountOfKeyed done).known.length + 1))) before result after) :
    Settles config key allowed env (done ++ [entry])
      before.watcher.lastConfirmedBlock result after := by
  refine heffect.settles hwrites hholds rfl ?_
  intro signed submissions clock hsign haccepted
  have hbook := hholds.ingested.restores.book
  have hbound := hholds.ingested.restores.room
  by_cases hroom : (accountOfKeyed done).known.length + 2 < 2 ^ 64
  · have hregistered := hholds.ingested.register hevent hmem hroom hsign hfresh haccepted
    have hcommit := commitAssignment_bookOf hmem hroom
    rw [← hbook] at hcommit
    constructor
    · intro ending huncommitted
      cases huncommitted with
      | interrupted hinterrupted =>
        obtain ⟨rfl, hlives⟩ := hinterrupted.eq_crashed hwrites
        exact .behind hregistered hallowed (fun h => h) hlives
      | refused hassigned herror =>
        cases hassigned
        rw [hcommit] at herror
        cases herror
    · intro book hcommits
      have hsame := hcommit.symm.trans hcommits
      cases hsame
      exact ⟨hregistered, hallowed⟩
  · have hfull : (accountOfKeyed done).known.length + 2 = 2 ^ 64 := by omega
    have hcommit := commitAssignment_bookOf_full hmem hfull
      (UInt64.ofNat ((accountOfKeyed done).known.length + 1))
    rw [← hbook] at hcommit
    obtain ⟨error, hreplay⟩ := hholds.ingested.restores.exhausted entry.1
      hholds.ingested.nonce_lt hmem hfull
    have hused : (accountOfKeyed (done ++ [entry])).known.length + 1 = 2 ^ 64 := by
      rw [accountOfKeyed_concat, Account.add_of_notMem hevent hmem, List.length_append]
      exact hfull
    constructor
    · intro ending huncommitted
      have hrecorded : ¬ending.Suspect env := by
        cases huncommitted with
        | interrupted hinterrupted =>
          obtain ⟨rfl, _⟩ := hinterrupted.eq_crashed hwrites
          exact fun h => h
        | refused => exact fun h => h
      exact .exhausted hallowed hused hreplay hrecorded
    · intro book hcommits
      have hsame := hcommit.symm.trans hcommits
      cases hsame

theorem EventEffect.settles {blockHash : Bytes32}
    (horigin : entry.1 = forwardedKey blockHash entry.2)
    (heffect : EventEffect env config key entry.2 blockHash before result after) :
    Settles config key allowed env (done ++ [entry])
      before.watcher.lastConfirmedBlock result after := by
  have hbook := hholds.ingested.restores.book
  have hunknown : forwardedKey blockHash entry.2 ∉ before.watcher.forwarded := by
    rw [← horigin, hholds.ingested.forwarded, List.mem_toFinset]
    exact hfresh
  cases hevent : entry.2.registration with
  | none =>
    have hpreview := previewIngest_of_none before.watcher.addressBook
      before.watcher.nextNonce hevent
    cases heffect with
    | skipped hknown => exact absurd hknown hunknown
    | noted _ _ hnote =>
      rw [← horigin] at hnote
      exact hnote.settles hwrites hholds hfresh hallowed hevent
    | replaced _ hother | registered _ hother => rw [hpreview] at hother; cases hother
  | some registration =>
    obtain ⟨address, pk⟩ := registration
    by_cases hmem : address ∈ (accountOfKeyed done).known
    · have hpreview := previewIngest_of_mem before.watcher.nextNonce hevent hmem
      rw [← hbook] at hpreview
      cases heffect with
      | skipped hknown => exact absurd hknown hunknown
      | noted _ hother | registered _ hother => rw [hpreview] at hother; cases hother
      | replaced _ hother hforward =>
        rw [hpreview] at hother
        cases hother
        rw [← horigin] at hforward
        exact hforward.settles_replace hwrites hholds hfresh hallowed hevent hmem
    · have hpreview := previewIngest_of_notMem before.watcher.nextNonce hevent hmem
      rw [← hbook] at hpreview
      cases heffect with
      | skipped hknown => exact absurd hknown hunknown
      | noted _ hother | replaced _ hother => rw [hpreview] at hother; cases hother
      | registered _ hother hforward =>
        rw [hpreview] at hother
        cases hother
        rw [← horigin] at hforward
        exact hforward.settles_register hwrites hholds hfresh hallowed hevent hmem

end Event

/-! ## Requests -/

section Requests

variable {α : Type} {pre : World → Prop} {halt : Ending → World → Prop}

theorem callSource_cases (env : Environment)
    (ask : L1Source → Except SourceError α) (before : World) :
    (∃ answer, ask (env.source before.clock) = .ok answer ∧
      callSource env ask before = (.ok answer, before.tick)) ∨
    ∃ ending, ¬ending.Irregular env ∧ callSource env ask before = (.error ending, before.tick) := by
  cases hfate : env.fate before.clock with
  | goesOn =>
    cases hask : ask (env.source before.clock) with
    | ok answer =>
      refine .inl ⟨answer, rfl, ?_⟩
      simp only [callSource, hfate, hask]
    | error error =>
      refine .inr ⟨.failed (.source error), fun h => h, ?_⟩
      simp only [callSource, hfate, hask]
  | diesBefore | diesAfter =>
    refine .inr ⟨.crashed .atSource, fun h => h, ?_⟩
    simp only [callSource, hfate]

theorem ensures_callSource (ask : L1Source → Except SourceError α)
    (htick : ∀ world, pre world → pre world.tick)
    (hhalt : ∀ ending world, pre world → ¬ending.Irregular env → halt ending world) :
    Fallible.Ensures pre (callSource env ask)
      (fun answer world => pre world ∧ ∃ time, ask (env.source time) = .ok answer) halt := by
  intro world hpre
  rcases callSource_cases env ask world with
    ⟨answer, hask, hrun⟩ | ⟨ending, hregular, hrun⟩
  · rw [hrun]
    exact ⟨htick world hpre, world.clock, hask⟩
  · rw [hrun]
    exact hhalt ending _ (htick world hpre) hregular

theorem ensures_append {record : StateRecord} {post : Unit → World → Prop} (hwrites : env.Writes)
    (hwritten : ∀ world, pre world → post () (world.tick.addRecord record))
    (hdied : ¬env.Lives → ∀ world, pre world →
      halt (.crashed (.beforeAppend record)) world.tick ∧
        halt (.crashed (.afterAppend record)) (world.tick.addRecord record)) :
    Fallible.Ensures pre (append env record) post halt := by
  intro world hpre
  rcases append_cases env record world with
    hrun | ⟨ending, hunwritten, hrun⟩ | ⟨ending, hinterrupted, hrun⟩
  · rw [hrun]
    exact hwritten world hpre
  · rw [hrun]
    obtain ⟨rfl, hlives⟩ := hunwritten.eq_crashed hwrites
    exact (hdied hlives world hpre).1
  · rw [hrun]
    obtain ⟨rfl, hlives⟩ := hinterrupted.eq_crashed hwrites
    exact (hdied hlives world hpre).2

theorem ensures_advanceWindow {pre : World → Prop}
    {halt : Ending → World → Prop} (header : BlockHeader)
    (hchange : ∀ world window, pre world →
      pre (world.mapWatcher ({ · with reorgWindow := window })))
    (hhalt : ∀ ending world, pre world → ¬ending.Irregular env → halt ending world) :
    Fallible.Ensures pre (advanceWindow header) (fun _ => pre) halt := by
  intro world hpre
  by_cases hempty : world.watcher.reorgWindow.buffer = []
  · simp only [advanceWindow, if_pos hempty]
    exact hchange world _ hpre
  · cases hadvance : world.watcher.reorgWindow.advance header with
    | error =>
      simp only [advanceWindow, if_neg hempty, hadvance]
      exact hhalt _ _ hpre (fun h => h)
    | ok =>
      simp only [advanceWindow, if_neg hempty, hadvance]
      exact hchange world _ hpre

end Requests

/-! ## Any source -/

variable (config key) in
def Sound (world : World) : Prop := ∃ done, Holds config key (fun _ _ => True) done world

section AnySource

variable (hwrites : env.Writes) {world : World}

theorem Sound.tick (hsound : Sound config key world) : Sound config key world.tick := by
  obtain ⟨done, hholds⟩ := hsound
  exact ⟨done, hholds.ingested, trivial⟩

theorem Sound.window (hsound : Sound config key world) (window : ReorgWindow) :
    Sound config key (world.mapWatcher ({ · with reorgWindow := window })) := by
  obtain ⟨done, hholds⟩ := hsound
  exact ⟨done, hholds.ingested, trivial⟩

theorem Sound.halted {ending : Ending} (hsound : Sound config key world)
    (hregular : ¬ending.Irregular env) : Halted env config key (fun _ _ => True) ending world := by
  obtain ⟨done, hholds⟩ := hsound
  exact .consistent hholds hregular

include hwrites

theorem ensures_processEvent (event : IngestedEvent) (blockHash : Bytes32) :
    Fallible.Ensures (Sound config key) (processEvent env config key event blockHash)
      (fun _ => Sound config key) (Halted env config key fun _ _ => True) := by
  rintro world ⟨done, hholds⟩
  by_cases hknown : forwardedKey blockHash event ∈ world.watcher.forwarded
  · rw [processEvent_skip env config key hknown]
    exact ⟨done, hholds⟩
  · have hfresh : (forwardedKey blockHash event, event).1 ∉ done.map Prod.fst := by
      rwa [hholds.ingested.forwarded, List.mem_toFinset] at hknown
    have hsettles := (processEvent_effect env config key event blockHash
      world).settles hwrites hholds hfresh trivial rfl
    rcases hrun : processEvent env config key event blockHash world with
      ⟨ending | _, after⟩
    · rw [hrun] at hsettles
      exact hsettles
    · rw [hrun] at hsettles
      exact ⟨_, hsettles.1⟩

theorem ensures_processLogs (blockHash : Bytes32) (logs : List RawLog) :
    Fallible.Ensures (Sound config key) (logs.forM (processLog env config key blockHash))
      (fun _ => Sound config key) (Halted env config key fun _ _ => True) := by
  apply @Fallible.Ensures.forM _ _ _ _ _ _ (fun _ => Sound config key)
  intro front log rest _
  unfold processLog
  cases decodeEvent log with
  | error => exact .throw fun world hsound => hsound.halted (fun h => h)
  | ok found =>
    cases found with
    | none => exact .pure fun _ hsound => hsound
    | some event => exact ensures_processEvent hwrites event blockHash

theorem ensures_confirmBlock_any (number : UInt64) :
    Fallible.Ensures (Sound config key) (confirmBlock env config key number)
      (fun _ => Sound config key) (Halted env config key fun _ _ => True) := by
  have hhalt : ∀ ending world, Sound config key world → ¬ending.Irregular env →
      Halted env config key (fun _ _ => True) ending world :=
    fun _ _ hsound hregular => hsound.halted hregular
  have hfetch : ∀ {α : Type} (ask : L1Source → Except SourceError α),
      Fallible.Ensures (Sound config key) (callSource env ask) (fun _ => Sound config key)
        (Halted env config key fun _ _ => True) :=
    fun ask => (ensures_callSource ask (fun _ h => h.tick) hhalt).weaken
      (fun _ h => h) (fun _ _ h => h.1) (fun _ _ h => h)
  have hlogs : ∀ hash, Fallible.Ensures (Sound config key)
      (fetchLogs env config hash) (fun _ => Sound config key)
      (Halted env config key fun _ _ => True) := by
    intro hash
    refine .bind (hfetch _) fun bridgeLogs => ?_
    split
    · exact .bind (hfetch _) fun _ => .pure fun _ h => h
    · exact .pure fun _ h => h
  refine .bind (.bind (hfetch _) fun header => .bind (ensures_advanceWindow
    header (fun _ window h => h.window window) hhalt) fun _ => .bind (hlogs _) fun logs =>
      ensures_processLogs hwrites _ _) fun _ => ?_
  have hconfirmed : Fallible.Ensures (Sound config key) (append env (.confirmed number))
      (fun _ world => Sound config key (world.mapWatcher fun watcher =>
        { watcher with lastConfirmedBlock := some number }))
      (Halted env config key fun _ _ => True) := by
    apply ensures_append hwrites
    · rintro world ⟨done, hholds⟩
      exact ⟨done, hholds.ingested.confirm number, trivial⟩
    · rintro hlives world ⟨done, hholds⟩
      exact ⟨.behind hholds.ingested trivial (fun h => h) hlives,
        .behind (hholds.ingested.confirm number) trivial (fun h => h) hlives⟩
  exact hconfirmed.bind fun _ => .modify fun _ h => h

theorem ensures_runIteration_any :
    Fallible.Ensures (Sound config key) (runIteration env config key) (fun _ => Sound config key)
      (Halted env config key fun _ _ => True) := by
  have hhalt : ∀ ending world, Sound config key world → ¬ending.Irregular env →
      Halted env config key (fun _ _ => True) ending world :=
    fun _ _ hsound hregular => hsound.halted hregular
  refine .bind ((ensures_callSource _ (fun _ h => h.tick) hhalt).weaken
    (fun _ h => h) (fun _ _ h => h.1) (fun _ _ h => h)) fun head => ?_
  dsimp only
  split
  · exact .pure fun _ h => h
  · refine .get_bind fun now => ?_
    refine Fallible.Ensures.weaken ?_ (fun _ h => h.2) (fun _ _ h => h) (fun _ _ h => h)
    dsimp only
    split
    · exact .pure fun _ h => h
    · split
      · exact .pure fun _ h => h
      · refine .bind (@Fallible.Ensures.forM _ _ _ _ _ _
          (fun _ => Sound config key) ?_) fun _ => .pure fun _ h => h
        intro front i rest _
        exact ensures_confirmBlock_any hwrites _

end AnySource

end Runs

end Ingest
end Canon
