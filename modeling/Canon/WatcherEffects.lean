import Canon.Watcher

/-!
# What one event can do

All ways in which the watcher can leave an event, with the state they leave.  The record
comes after the acceptance and before the memory, so that there are two states in between:
an accepted action without its record, and a record which the memory does not know.
-/

namespace Canon
namespace Ingest

open List

def World.sent (world : World) (submissions : List Submission) (clock : ℕ) :
    World :=
  { world with submissions := submissions, clock := clock }

def Submission.Accepted (submission : Submission) : Prop := submission.answer = .ok .ok

instance (submission : Submission) : Decidable submission.Accepted :=
  inferInstanceAs (Decidable (_ = _))

def acceptedOf (submissions : List Submission) : List Submission :=
  submissions.filter fun submission => decide submission.Accepted

section Effects

variable (env : Environment)

/-- Calls of the submitter for one action, none of which is accepted. -/
inductive Tries (origin : ForwardedKey) (signed : SignedActionForSubmit)
    (before : List Submission) : List Submission → Prop
  | none : Tries origin signed before before
  | refused {submissions : List Submission} {time : ℕ} : Tries origin signed before submissions →
      env.submitter time submissions signed ≠ .ok .ok →
      Tries origin signed before (submissions ++
        [⟨origin, signed, env.submitter time submissions signed⟩])

variable {env} {origin : ForwardedKey} {signed : SignedActionForSubmit}
  {before middle : List Submission}

theorem Tries.trans {after : List Submission} (hfirst : Tries env origin signed before middle)
    (hsecond : Tries env origin signed middle after) : Tries env origin signed before after := by
  induction hsecond with
  | none => exact hfirst
  | refused _ hanswer ih => exact ih.refused hanswer

theorem Tries.acceptedOf_eq {after : List Submission}
    (htries : Tries env origin signed before after) : acceptedOf after = acceptedOf before := by
  induction htries with
  | none => rfl
  | refused _ hanswer ih =>
    rw [← ih, acceptedOf, filter_append]
    simp [acceptedOf, Submission.Accepted, hanswer]

variable (env)

inductive Reports : Except SubmitError Verdict → SubmitError → Prop
  | notAdmissible : Reports (.ok .notAdmissible) .notAdmissible
  | parseError : Reports (.ok .parseError) .parseError
  | busy (message : String) : Reports (.ok .busy) (.transport message)
  | error (error : SubmitError) : Reports (.error error) error

theorem Reports.not_accepted {answer : Except SubmitError Verdict}
    {error : SubmitError} (hreports : Reports answer error) : answer ≠ .ok .ok := by
  cases hreports <;> simp

inductive Refusal (origin : ForwardedKey) (signed : SignedActionForSubmit)
    (before : List Submission) : Ending → Prop
  | answered {time : ℕ} {submissions : List Submission} {error : SubmitError} :
      Tries env origin signed before submissions →
      Reports (env.submitter time submissions signed) error →
      Refusal origin signed before (.failed (.submit error))
  | diedBefore {time : ℕ} : env.fate time ≠ .goesOn →
      Refusal origin signed before (.crashed .beforeSubmit)
  | diedAfter {time : ℕ} {answer : Except SubmitError Verdict} :
      env.fate time ≠ .goesOn → answer ≠ .ok .ok →
      Refusal origin signed before (.crashed (.afterSubmit answer))

variable {env} in
theorem Refusal.after {ending : Ending} (htries : Tries env origin signed before middle)
    (hrefusal : Refusal env origin signed middle ending) :
    Refusal env origin signed before ending := by
  cases hrefusal with
  | answered hlater hreports => exact .answered (htries.trans hlater) hreports
  | diedBefore hdied => exact .diedBefore hdied
  | diedAfter hdied hanswer => exact .diedAfter hdied hanswer

inductive SubmitEffect (origin : ForwardedKey) (signed : SignedActionForSubmit) (before : World) :
    Except Ending Unit → World → Prop
  | refused {submissions : List Submission} {clock : ℕ} {ending : Ending} :
      Tries env origin signed before.submissions submissions →
      Refusal env origin signed before.submissions ending →
      SubmitEffect origin signed before (.error ending) (before.sent submissions clock)
  | accepted {submissions : List Submission} {clock time : ℕ} :
      Tries env origin signed before.submissions submissions →
      env.submitter time submissions signed = .ok .ok →
      SubmitEffect origin signed before (.ok ())
        (before.sent (submissions ++ [⟨origin, signed, .ok .ok⟩]) clock)
  | diedAccepted {submissions : List Submission} {clock time : ℕ} :
      Tries env origin signed before.submissions submissions →
      env.submitter time submissions signed = .ok .ok → env.fate time ≠ .goesOn →
      SubmitEffect origin signed before (.error (.crashed (.afterSubmit (.ok .ok))))
        (before.sent (submissions ++ [⟨origin, signed, .ok .ok⟩]) clock)

inductive Unwritten (record : StateRecord) : Ending → Prop
  | died {time : ℕ} : env.fate time ≠ .goesOn → Unwritten record (.crashed (.beforeAppend record))
  | failed {time : ℕ} (error : String) :
      env.disk time ≠ .written → Unwritten record (.failed (.state (.io error)))

inductive Interrupted (record : StateRecord) : Ending → Prop
  | died {time : ℕ} : env.fate time ≠ .goesOn → Interrupted record (.crashed (.afterAppend record))
  | failed {time : ℕ} (error : String) : env.disk time ≠ .written →
      Interrupted record (.failed (.state (.io error)))

theorem append_cases (record : StateRecord) (before : World) :
    append env record before = (.ok (), before.tick.addRecord record) ∨
    (∃ ending, Unwritten env record ending ∧
      append env record before = (.error ending, before.tick)) ∨
    (∃ ending, Interrupted env record ending ∧
      append env record before = (.error ending, before.tick.addRecord record)) := by
  cases hfate : env.fate before.clock with
  | diesBefore =>
    have hdied : env.fate before.clock ≠ .goesOn := by simp [hfate]
    refine .inr (.inl ⟨_, .died hdied, ?_⟩)
    simp only [append, hfate]
  | diesAfter =>
    have hdied : env.fate before.clock ≠ .goesOn := by simp [hfate]
    refine .inr (.inr ⟨_, .died hdied, ?_⟩)
    simp only [append, hfate]
  | goesOn =>
    cases hdisk : env.disk before.clock with
    | written =>
      left
      simp only [append, hfate, hdisk]
    | failed error stored =>
      have hfailed : env.disk before.clock ≠ .written := by simp [hdisk]
      cases stored with
      | false =>
        refine .inr (.inl ⟨_, .failed error hfailed, ?_⟩)
        simp only [append, hfate, hdisk]
        rfl
      | true =>
        refine .inr (.inr ⟨_, .failed error hfailed, ?_⟩)
        simp only [append, hfate, hdisk]
        rfl

section Submitting

variable {env} {origin : ForwardedKey} {signed : SignedActionForSubmit} {before : World}
  {time clock : ℕ}

theorem SubmitEffect.of_died (hdied : env.fate time ≠ .goesOn) :
    SubmitEffect env origin signed before
      (.error (.crashed (.afterSubmit (env.submitter time before.submissions signed))))
      (before.sent (before.submissions ++
        [⟨origin, signed, env.submitter time before.submissions signed⟩]) clock) := by
  by_cases haccepted : env.submitter time before.submissions signed = .ok .ok
  · rw [haccepted]
    exact .diedAccepted .none haccepted hdied
  · exact .refused (Tries.none.refused haccepted) (.diedAfter hdied haccepted)

theorem SubmitEffect.after {submissions : List Submission} {result : Except Ending Unit}
    {after : World} (htries : Tries env origin signed before.submissions submissions)
    (heffect : SubmitEffect env origin signed (before.sent submissions clock) result after) :
    SubmitEffect env origin signed before result after := by
  cases heffect with
  | refused hlater hrefusal =>
    exact .refused (htries.trans hlater) (hrefusal.after htries)
  | accepted hlater haccepted => exact .accepted (htries.trans hlater) haccepted
  | diedAccepted hlater haccepted hdied =>
    exact .diedAccepted (htries.trans hlater) haccepted hdied

theorem SubmitEffect.of_answer {busy : Watching Unit}
    (hbusy : env.submitter time before.submissions signed = .ok .busy →
      SubmitEffect env origin signed before
        (busy (before.sent (before.submissions ++
          [⟨origin, signed, env.submitter time before.submissions signed⟩]) clock)).1
        (busy (before.sent (before.submissions ++
          [⟨origin, signed, env.submitter time before.submissions signed⟩]) clock)).2) :
    SubmitEffect env origin signed before
      (afterVerdict busy (env.submitter time before.submissions signed)
        (before.sent (before.submissions ++
          [⟨origin, signed, env.submitter time before.submissions signed⟩]) clock)).1
      (afterVerdict busy (env.submitter time before.submissions signed)
        (before.sent (before.submissions ++
          [⟨origin, signed, env.submitter time before.submissions signed⟩]) clock)).2 := by
  have hgiveUp : ∀ error : SubmitError,
      Reports (env.submitter time before.submissions signed) error →
      SubmitEffect env origin signed before (.error (.failed (.submit error)))
        (before.sent (before.submissions ++
          [⟨origin, signed, env.submitter time before.submissions signed⟩]) clock) := by
    intro error hreports
    exact .refused (Tries.none.refused hreports.not_accepted) (.answered .none hreports)
  rcases hanswer : env.submitter time before.submissions signed with
    error | verdict
  · rw [hanswer] at hgiveUp
    exact hgiveUp error (.error error)
  · rw [hanswer] at hgiveUp hbusy
    cases verdict with
    | ok => exact .accepted .none hanswer
    | notAdmissible => exact hgiveUp .notAdmissible .notAdmissible
    | parseError => exact hgiveUp .parseError .parseError
    | busy => exact hbusy rfl

end Submitting

theorem callSubmit_cases (origin : ForwardedKey) (signed : SignedActionForSubmit) (before : World) :
    (env.fate before.clock ≠ .goesOn ∧ callSubmit env origin signed before =
      (.error (.crashed .beforeSubmit), before.sent before.submissions (before.clock + 1))) ∨
    (env.fate before.clock ≠ .goesOn ∧ callSubmit env origin signed before =
      (.error (.crashed (.afterSubmit (env.submitter before.clock before.submissions signed))),
        before.sent (before.submissions ++ [⟨origin, signed,
          env.submitter before.clock before.submissions signed⟩]) (before.clock + 1))) ∨
    callSubmit env origin signed before =
      (.ok (env.submitter before.clock before.submissions signed),
        before.sent (before.submissions ++ [⟨origin, signed,
          env.submitter before.clock before.submissions signed⟩]) (before.clock + 1)) := by
  cases hfate : env.fate before.clock with
  | diesBefore =>
    refine .inl ⟨by simp, ?_⟩
    simp only [callSubmit, hfate]
    rfl
  | diesAfter =>
    refine .inr (.inl ⟨by simp, ?_⟩)
    simp only [callSubmit, hfate]
    rfl
  | goesOn =>
    refine .inr (.inr ?_)
    simp only [callSubmit, hfate]
    rfl

theorem submitLoop_effect (origin : ForwardedKey)
    (signed : SignedActionForSubmit) (retriesLeft : ℕ) (before : World) :
    SubmitEffect env origin signed before (submitLoop env origin signed retriesLeft before).1
      (submitLoop env origin signed retriesLeft before).2 := by
  induction retriesLeft generalizing before with
  | zero =>
    rw [submitLoop, Fallible.run_bind]
    rcases callSubmit_cases env origin signed before with
      ⟨hdied, hrun⟩ | ⟨hdied, hrun⟩ | hrun
    · rw [hrun]
      exact .refused .none (.diedBefore hdied)
    · rw [hrun]
      exact .of_died hdied
    · rw [hrun]
      apply SubmitEffect.of_answer
      intro hbusy
      have hreports := Reports.busy "exceeded retry budget on Busy verdict"
      rw [← hbusy] at hreports
      exact .refused (Tries.none.refused hreports.not_accepted) (.answered .none hreports)
  | succ _ ih =>
    rw [submitLoop, Fallible.run_bind]
    rcases callSubmit_cases env origin signed before with
      ⟨hdied, hrun⟩ | ⟨hdied, hrun⟩ | hrun
    · rw [hrun]
      exact .refused .none (.diedBefore hdied)
    · rw [hrun]
      exact .of_died hdied
    · rw [hrun]
      apply SubmitEffect.of_answer
      intro hbusy
      exact .after (Tries.none.refused (by simp [hbusy])) (ih _)

/-- Calls of the submitter for one action, the last of which is accepted. -/
def Accepts (origin : ForwardedKey) (signed : SignedActionForSubmit)
    (before after : List Submission) : Prop :=
  ∃ submissions time, Tries env origin signed before submissions ∧
    env.submitter time submissions signed = .ok .ok ∧
    after = submissions ++ [⟨origin, signed, .ok .ok⟩]

theorem Accepts.acceptedOf_eq {env : Environment} {after : List Submission}
    (haccepts : Accepts env origin signed before after) :
    acceptedOf after = acceptedOf before ++ [⟨origin, signed, .ok .ok⟩] := by
  obtain ⟨submissions, time, htries, _, rfl⟩ := haccepts
  rw [← htries.acceptedOf_eq, acceptedOf, filter_append]
  rfl

def CommitsTo (book : AddressBook) (assigned : Option (Address × ActorId))
    (next : AddressBook) : Prop :=
  match assigned with
  | none => next = book
  | some (address, newActorId) =>
    commitAssignment book address newActorId = .ok (newActorId, next)

inductive Unrecorded (record : StateRecord) : Ending → Prop
  | died {time : ℕ} : env.fate time ≠ .goesOn →
      Unrecorded record (.crashed (.afterSubmit (.ok .ok)))
  | unwritten {ending : Ending} : Unwritten env record ending → Unrecorded record ending

inductive Uncommitted (book : AddressBook)
    (assigned : Option (Address × ActorId)) (record : StateRecord) : Ending → Prop
  | interrupted {ending : Ending} : Interrupted env record ending →
      Uncommitted book assigned record ending
  | refused {address : Address} {newActorId : ActorId} {error : CommitError} :
      assigned = some (address, newActorId) →
      commitAssignment book address newActorId = .error error →
      Uncommitted book assigned record (.failed (.config
        ("address-book commit failed: " ++ error.display)))

def Watcher.commitForwarded (watcher : Watcher) (origin : ForwardedKey)
    (book : AddressBook) : Watcher :=
  { watcher with
    forwarded := insert origin watcher.forwarded
    addressBook := book
    nextNonce := saturatingSucc watcher.nextNonce }

variable (config : WatcherConfig) (key : BridgeActorKey)

inductive ForwardEffect (origin : ForwardedKey) (unsigned : UnsignedAction)
    (assigned : Option (Address × ActorId)) (before : World) : Except Ending Unit → World → Prop
  | unsigned {error : WatcherError} : sign config key unsigned = .error error →
      ForwardEffect origin unsigned assigned before (.error (.failed error)) before
  | refused {signed : SignedActionForSubmit} {submissions : List Submission}
      {clock : ℕ} {ending : Ending} : sign config key unsigned = .ok signed →
      Tries env origin signed before.submissions submissions →
      Refusal env origin signed before.submissions ending →
      ForwardEffect origin unsigned assigned before (.error ending) (before.sent submissions clock)
  | unrecorded {signed : SignedActionForSubmit} {submissions : List Submission}
      {clock : ℕ} {ending : Ending} : sign config key unsigned = .ok signed →
      Accepts env origin signed before.submissions submissions →
      Unrecorded env (submittedRecord origin
        (saturatingSucc before.watcher.nextNonce) assigned) ending →
      ForwardEffect origin unsigned assigned before (.error ending) (before.sent submissions clock)
  | uncommitted {signed : SignedActionForSubmit}
      {submissions : List Submission} {clock : ℕ} {ending : Ending} :
      sign config key unsigned = .ok signed →
      Accepts env origin signed before.submissions submissions →
      Uncommitted env before.watcher.addressBook assigned
        (submittedRecord origin (saturatingSucc before.watcher.nextNonce) assigned) ending →
      ForwardEffect origin unsigned assigned before (.error ending)
        ((before.sent submissions clock).addRecord (submittedRecord origin
          (saturatingSucc before.watcher.nextNonce) assigned))
  | committed {signed : SignedActionForSubmit} {submissions : List Submission}
      {clock : ℕ} {book : AddressBook} : sign config key unsigned = .ok signed →
      Accepts env origin signed before.submissions submissions →
      CommitsTo before.watcher.addressBook assigned book →
      ForwardEffect origin unsigned assigned before (.ok ())
        (((before.sent submissions clock).addRecord (submittedRecord origin
          (saturatingSucc before.watcher.nextNonce) assigned)).mapWatcher
            fun watcher => watcher.commitForwarded origin book)

theorem commit_cases (assigned : Option (Address × ActorId)) (world : World) :
    (∃ book, CommitsTo world.watcher.addressBook assigned book ∧
      commit assigned world = (.ok (), world.mapWatcher fun watcher =>
        { watcher with addressBook := book })) ∨
    (∃ address newActorId error, assigned = some (address, newActorId) ∧
      commitAssignment world.watcher.addressBook address newActorId = .error error ∧
      commit assigned world = (.error (.failed (.config
        ("address-book commit failed: " ++ error.display))), world)) := by
  cases assigned with
  | none => exact .inl ⟨_, rfl, rfl⟩
  | some entry =>
    obtain ⟨address, newActorId⟩ := entry
    rcases hcommit : commitAssignment world.watcher.addressBook address
      newActorId with error | ⟨assignedId, book⟩
    · refine .inr ⟨address, newActorId, error, rfl, hcommit, ?_⟩
      simp only [commit, hcommit]
    · refine .inl ⟨book, ?_, ?_⟩
      · have hid := id_of_commitAssignment hcommit
        rw [CommitsTo, hcommit, hid]
      · simp only [commit, hcommit]

theorem recordSubmission_cases (origin : ForwardedKey)
    (assigned : Option (Address × ActorId)) (world : World)
    {record : StateRecord} (hrecord : record = submittedRecord origin
      (saturatingSucc world.watcher.nextNonce) assigned) :
    (∃ ending, Unwritten env record ending ∧
      recordSubmission env origin assigned world = (.error ending, world.tick)) ∨
    (∃ ending, Uncommitted env world.watcher.addressBook assigned record ending ∧
      recordSubmission env origin assigned world = (.error ending, world.tick.addRecord record)) ∨
    (∃ book, CommitsTo world.watcher.addressBook assigned book ∧
      recordSubmission env origin assigned world =
        (.ok (), (world.tick.addRecord record).mapWatcher fun watcher =>
          watcher.commitForwarded origin book)) := by
  subst hrecord
  rw [recordSubmission, Fallible.run_get_bind, Fallible.run_bind]
  rcases append_cases env (submittedRecord origin
      (saturatingSucc world.watcher.nextNonce) assigned) world with
    hrun | ⟨ending, hunwritten, hrun⟩ | ⟨ending, hinterrupted, hrun⟩
  · rw [hrun]
    simp only
    rw [Fallible.run_bind]
    rcases commit_cases assigned (world.tick.addRecord (submittedRecord origin
        (saturatingSucc world.watcher.nextNonce) assigned)) with
      ⟨book, hcommits, hcommit⟩ | ⟨address, newActorId, error, hassigned, herror, hcommit⟩
    · rw [hcommit]
      exact .inr (.inr ⟨book, hcommits, rfl⟩)
    · rw [hcommit]
      exact .inr (.inl ⟨_, .refused hassigned herror, rfl⟩)
  · rw [hrun]
    exact .inl ⟨ending, hunwritten, rfl⟩
  · rw [hrun]
    exact .inr (.inl ⟨ending, .interrupted hinterrupted, rfl⟩)

theorem forward_effect (origin : ForwardedKey) (unsigned : UnsignedAction)
    (assigned : Option (Address × ActorId)) (before : World) :
    ForwardEffect env config key origin unsigned assigned before
      (forward env config key origin unsigned assigned before).1
      (forward env config key origin unsigned assigned before).2 := by
  rw [forward, Fallible.run_bind]
  cases hsign : sign config key unsigned with
  | error => exact .unsigned hsign
  | ok signed =>
    simp only [Fallible.ofExcept, Except.mapError]
    rw [Fallible.run_bind]
    have heffect := submitLoop_effect env origin signed maxRetries before
    rcases hrun : submitLoop env origin signed maxRetries before with
      ⟨result, sent⟩
    rw [hrun] at heffect
    cases heffect with
    | refused htries hrefusal => exact .refused hsign htries hrefusal
    | diedAccepted htries haccepted hdied =>
      exact .unrecorded hsign ⟨_, _, htries, haccepted, rfl⟩ (.died hdied)
    | @accepted submissions clock time htries haccepted =>
      have haccepts : Accepts env origin signed before.submissions
          (submissions ++ [⟨origin, signed, .ok .ok⟩]) := ⟨_, _, htries, haccepted, rfl⟩
      rcases recordSubmission_cases env origin assigned
          (before.sent (submissions ++ [⟨origin, signed, .ok .ok⟩]) clock)
          rfl with
        ⟨ending, hunwritten, hrun⟩ | ⟨ending, huncommitted, hrun⟩ | ⟨book, hcommits, hrun⟩
      · simp only [World.sent] at hrun
        simp only [hrun]
        exact .unrecorded hsign haccepts (.unwritten hunwritten)
      · simp only [World.sent] at hrun
        simp only [hrun]
        exact .uncommitted hsign haccepts huncommitted
      · simp only [World.sent] at hrun
        simp only [hrun]
        exact .committed hsign haccepts hcommits

inductive NoteEffect (origin : ForwardedKey) (before : World) : Except Ending Unit → World → Prop
  | unwritten {ending : Ending} {clock : ℕ} : Unwritten env (forwardedRecord origin) ending →
      NoteEffect origin before (.error ending)
        ((before.sent before.submissions clock).mapWatcher (·.insertForwarded origin))
  | interrupted {ending : Ending} {clock : ℕ} : Interrupted env (forwardedRecord origin) ending →
      NoteEffect origin before (.error ending)
        (((before.sent before.submissions clock).addRecord
          (forwardedRecord origin)).mapWatcher (·.insertForwarded origin))
  | noted {clock : ℕ} :
      NoteEffect origin before (.ok ())
        (((before.sent before.submissions clock).addRecord
          (forwardedRecord origin)).mapWatcher (·.insertForwarded origin))

inductive EventEffect (event : IngestedEvent) (blockHash : Bytes32)
    (before : World) : Except Ending Unit → World → Prop
  | skipped : forwardedKey blockHash event ∈ before.watcher.forwarded →
      EventEffect event blockHash before (.ok ()) before
  | noted {result : Except Ending Unit} {after : World} :
      forwardedKey blockHash event ∉ before.watcher.forwarded →
      previewIngest before.watcher.addressBook event before.watcher.nextNonce = .noAction →
      NoteEffect env (forwardedKey blockHash event) before result after →
      EventEffect event blockHash before result after
  | replaced {unsigned : UnsignedAction} {result : Except Ending Unit} {after : World} :
      forwardedKey blockHash event ∉ before.watcher.forwarded →
      previewIngest before.watcher.addressBook event before.watcher.nextNonce = .emit unsigned →
      ForwardEffect env config key (forwardedKey blockHash event) unsigned none
        before result after → EventEffect event blockHash before result after
  | registered {unsigned : UnsignedAction} {address : Address}
      {newActorId : ActorId} {result : Except Ending Unit} {after : World} :
      forwardedKey blockHash event ∉ before.watcher.forwarded →
      previewIngest before.watcher.addressBook event before.watcher.nextNonce =
          .emitWithAssignment unsigned address newActorId →
      ForwardEffect env config key (forwardedKey blockHash event) unsigned
        (some (address, newActorId)) before result after →
      EventEffect event blockHash before result after

theorem processEvent_skip {event : IngestedEvent} {blockHash : Bytes32} {before : World}
    (hknown : forwardedKey blockHash event ∈ before.watcher.forwarded) :
    processEvent env config key event blockHash before = (.ok (), before) := by
  rw [processEvent, Fallible.run_get_bind, if_pos hknown]
  rfl

theorem processEvent_effect (event : IngestedEvent) (blockHash : Bytes32) (before : World) :
    EventEffect env config key event blockHash before
      (processEvent env config key event blockHash before).1
      (processEvent env config key event blockHash before).2 := by
  by_cases hknown : forwardedKey blockHash event ∈ before.watcher.forwarded
  · rw [processEvent_skip env config key hknown]
    exact .skipped hknown
  · rw [processEvent, Fallible.run_get_bind, if_neg hknown]
    cases hpreview : previewIngest before.watcher.addressBook event before.watcher.nextNonce with
    | emit _ => exact .replaced hknown hpreview (forward_effect ..)
    | emitWithAssignment _ _ _ =>
      exact .registered hknown hpreview (forward_effect ..)
    | noAction =>
      apply EventEffect.noted hknown hpreview
      simp only
      rw [Fallible.run_bind, Fallible.run_modify]
      rcases append_cases env (forwardedRecord (forwardedKey blockHash event))
          (before.mapWatcher (·.insertForwarded (forwardedKey blockHash event))) with
        hrun | ⟨ending, hunwritten, hrun⟩ | ⟨ending, hinterrupted, hrun⟩
      · simp only [hrun]
        exact @NoteEffect.noted env _ before (before.clock + 1)
      · simp only [hrun]
        exact @NoteEffect.unwritten env _ before ending (before.clock + 1) hunwritten
      · simp only [hrun]
        exact @NoteEffect.interrupted env _ before ending (before.clock + 1) hinterrupted

end Effects

/-! ## Failed submissions -/

def WatcherError.OfSubmission : WatcherError → Prop
  | .encode _ | .key _ | .submit _ => True
  | _ => False

section Failed

variable {env : Environment} {config : WatcherConfig} {key : BridgeActorKey}

variable {origin : ForwardedKey} {before after : World} {signed : SignedActionForSubmit}
  {unsigned : UnsignedAction} {assigned : Option (Address × ActorId)} {result : Except Ending Unit}
  {error : WatcherError}

theorem Tries.submissions {before after : List Submission}
    (htries : Tries env origin signed before after) :
    ∃ sent, after = before ++ sent ∧ ∀ submission ∈ sent, submission.signed = signed := by
  induction htries with
  | none => exact ⟨[], (append_nil _).symm, by simp⟩
  | @refused submissions time _ _ ih =>
    obtain ⟨sent, hsent, hsigned⟩ := ih
    refine ⟨sent ++ [⟨origin, signed, env.submitter time submissions signed⟩],
      by rw [hsent, append_assoc], ?_⟩
    intro submission hmem
    rcases mem_append.mp hmem with hold | hnew
    · exact hsigned submission hold
    · rw [mem_singleton.mp hnew]

theorem Accepts.submissions {before after : List Submission}
    (haccepts : Accepts env origin signed before after) :
    ∃ sent, after = before ++ sent ∧ ∀ submission ∈ sent, submission.signed = signed := by
  obtain ⟨submissions, time, htries, _, rfl⟩ := haccepts
  obtain ⟨sent, rfl, hsigned⟩ := htries.submissions
  refine ⟨sent ++ [⟨origin, signed, .ok .ok⟩], append_assoc .., ?_⟩
  intro submission hmem
  rcases mem_append.mp hmem with hold | hnew
  · exact hsigned submission hold
  · rw [mem_singleton.mp hnew]

theorem ForwardEffect.submissions
    (heffect : ForwardEffect env config key origin unsigned assigned before result after) :
    ∃ sent, after.submissions = before.submissions ++ sent ∧
      ∀ submission ∈ sent, sign config key unsigned = .ok submission.signed := by
  have hall : ∀ {signed : SignedActionForSubmit} {submissions : List Submission},
      sign config key unsigned = .ok signed →
      (∃ sent, submissions = before.submissions ++ sent ∧
        ∀ submission ∈ sent, submission.signed = signed) →
      ∃ sent, submissions = before.submissions ++ sent ∧
        ∀ submission ∈ sent, sign config key unsigned = .ok submission.signed := by
    rintro signed _ hsign ⟨sent, hsent, hsigned⟩
    refine ⟨sent, hsent, ?_⟩
    intro submission hmem
    rw [hsign, hsigned submission hmem]
  cases heffect with
  | unsigned => exact ⟨[], (append_nil _).symm, by simp⟩
  | refused hsign htries => exact hall hsign htries.submissions
  | unrecorded hsign haccepts | uncommitted hsign haccepts | committed hsign haccepts =>
    exact hall hsign haccepts.submissions

theorem EventEffect.submissions {event : IngestedEvent} {blockHash : Bytes32}
    (heffect : EventEffect env config key event blockHash before result after) :
    ∃ sent, after.submissions = before.submissions ++ sent ∧
      ∀ submission ∈ sent, ∃ unsigned, (previewIngest before.watcher.addressBook event
          before.watcher.nextNonce).unsigned = some unsigned ∧
        sign config key unsigned = .ok submission.signed := by
  have hnone : ∃ sent, before.submissions = before.submissions ++ sent ∧
      ∀ submission ∈ sent, ∃ unsigned, (previewIngest before.watcher.addressBook event
          before.watcher.nextNonce).unsigned = some unsigned ∧
        sign config key unsigned = .ok submission.signed := ⟨[], (append_nil _).symm, by simp⟩
  cases heffect with
  | skipped => exact hnone
  | noted _ _ hnote =>
    cases hnote with
    | unwritten | interrupted | noted => exact hnone
  | replaced _ hpreview hforward | registered _ hpreview hforward =>
    obtain ⟨sent, hsent, hsigned⟩ := hforward.submissions
    refine ⟨sent, hsent, fun submission hmem => ⟨_, ?_, hsigned _ hmem⟩⟩
    rw [hpreview]
    rfl

theorem Unwritten.not_ofSubmission {record : StateRecord}
    (hunwritten : Unwritten env record (.failed error)) : ¬error.OfSubmission := by
  cases hunwritten
  exact id

theorem ForwardEffect.failed (hcause : error.OfSubmission)
    (heffect : ForwardEffect env config key origin unsigned assigned before
      (.error (.failed error)) after) :
    after.watcher = before.watcher ∧ after.file = before.file := by
  cases heffect with
  | unsigned | refused => exact ⟨rfl, rfl⟩
  | unrecorded _ _ hunrecorded =>
    cases hunrecorded with
    | unwritten hunwritten => exact absurd hcause hunwritten.not_ofSubmission
  | uncommitted _ _ huncommitted =>
    cases huncommitted with
    | interrupted hinterrupted => cases hinterrupted; exact hcause.elim
    | refused => exact hcause.elim

end Failed

end Ingest
end Canon
