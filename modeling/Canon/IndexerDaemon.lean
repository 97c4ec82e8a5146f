import Canon.IndexerSync

/-!
# The indexer's daemon

In one session the indexer reads frames until the connection ends.  Frames with the
same number are one batch, and only a frame with a higher number tells that the batch
is complete; a batch which is still open when the session ends is thrown away.  The
next session starts after the committed cursor, in the same process or in a new one.
-/

namespace Canon

namespace Indexing

open Sqlite

/-! ## One session -/

inductive ServerFrame where
  | event (seq : UInt64) (payload : Bytes)
  | lagExceeded (lastDeliveredSeq : UInt64)
  | truncated (oldestAvailableSeq : UInt64)
  | serverShutdown (lastDeliveredSeq : UInt64)
  | invalidRequest
  deriving DecidableEq, Repr

inductive ClientError where
  | io
  | eof
  | unknownKind (kind : UInt8)
  | oversizeFrame (declared max : ℕ)
  | truncated (read expected : ℕ)
  deriving DecidableEq, Repr

/-- What the calls of `read_frame` return; after the last one the server has closed
the connection. -/
abbrev Reads := List (Except ClientError ServerFrame)

section Consuming

variable (decodeEvent : Bytes → Except DecodeError Event)

end Consuming

/-! ## Streams cut into sessions -/

abbrev Stream := List (UInt64 × Bytes)

/-- One session: whether the process was started again before it, how many frames
it reads, and how it ends. -/
structure Cut where
  restart : Bool
  length : ℕ
  ending : Reads
  ending_terminal : ∀ seq payload, ending.head? ≠ some (.ok (.event seq payload))

def Cut.frames (cut : Cut) (stream : Stream) (cursor : UInt64) : Stream :=
  (stream.filter fun frame => cursor < frame.1).take cut.length

def Cut.reads (cut : Cut) (stream : Stream) (cursor : UInt64) : Reads :=
  (cut.frames stream cursor).map (fun frame => .ok (.event frame.1 frame.2)) ++ cut.ending

structure Indexer.Calm (indexer : Indexer) : Prop where
  staged : indexer.storage.staged = none
  outcomes : indexer.storage.outcomes = Sqlite.Outcomes.faultless
  poisoned : indexer.poisoned = false
  cursor : decodeCursor (lookup indexer.storage.durable cursorKey) = .ok indexer.cursor
  named : ∃ bytes, lookup indexer.storage.durable identifierKey = some bytes ∧
    String.fromUTF8? ⟨bytes.toArray⟩ = some indexerIdentifier

variable {table : Table} {bytes : Bytes}

theorem balanceKey_ne_identifierKey (actor : ActorId) (resource : ResourceId) :
    identifierKey ≠ balanceKey actor resource := by
  intro heq
  have hlength := congrArg List.length heq
  simp only [balanceKey, List.length_append, beBytes_length] at hlength
  revert hlength
  decide +kernel

theorem leaves_select (key : Bytes) (context : String) :
    Fallible.Leaves (fun view : View => lookup view.table key) (select context) := by
  intro view
  simp only [select]
  split_ifs <;> rfl

theorem leaves_get (key other : Bytes) (context : String) :
    Fallible.Leaves (fun view : View => lookup view.table key) (get context other) :=
  (leaves_select key context).bind fun _ => .pure _

theorem leaves_put {key other : Bytes} (hne : key ≠ other) (value : Bytes) (context : String) :
    Fallible.Leaves (fun view : View => lookup view.table key) (put context other value) := by
  intro view
  simp only [put, execute]
  split_ifs
  · simp only [lookup_insert]
    exact Function.update_of_ne hne _ _
  · rfl

section Identifier

theorem leaves_balance_get (actor : ActorId) (resource : ResourceId) :
    Fallible.Leaves (fun view : View => lookup view.table identifierKey)
      (BalanceTxView.get actor resource) := ((leaves_get _ _ _).adapt _).bind fun _ => .ofExcept _

theorem leaves_balance_set (actor : ActorId) (resource : ResourceId) (value : Amount) :
    Fallible.Leaves (fun view : View => lookup view.table identifierKey)
      (BalanceTxView.set actor resource value) :=
  (leaves_put (balanceKey_ne_identifierKey actor resource) _ _).adapt _

theorem leaves_applySemanticEvent (bcPairs : List (ActorId × ResourceId)) (event : Event) :
    Fallible.Leaves (fun view : View => lookup view.table identifierKey)
      (applySemanticEvent bcPairs event) := by
  have hcredit (actor resource delta) :
      Fallible.Leaves (fun view : View => lookup view.table identifierKey)
        (BalanceTxView.credit actor resource delta) := by
    refine (leaves_balance_get actor resource).bind fun current => ?_
    cases Amount.checkedAdd current delta with
    | some => exact (leaves_balance_set _ _ _).bind fun _ => .pure _
    | none => exact (leaves_balance_set _ _ _).bind fun _ => .throw _
  have hdebit (actor resource delta) :
      Fallible.Leaves (fun view : View => lookup view.table identifierKey)
        (BalanceTxView.debit actor resource delta) := by
    refine (leaves_balance_get actor resource).bind fun current => ?_
    cases Amount.checkedSub current delta with
    | some => exact (leaves_balance_set _ _ _).bind fun _ => .pure _
    | none => exact .throw _
  unfold applySemanticEvent
  split
  · split_ifs
    · exact .pure _
    · exact (hcredit _ _ _).bind fun _ => .pure _
  · split_ifs
    · exact .pure _
    · exact (hdebit _ _ _).bind fun _ => .pure _
  · split_ifs
    · exact .pure _
    · exact (hcredit _ _ _).bind fun _ => .pure _
  · exact .pure _

theorem leaves_stageBatch (seq : UInt64) (events : List Event) :
    Fallible.Leaves (fun view : View => lookup view.table identifierKey)
      (stageBatch seq events) := by
  refine ((Fallible.Leaves.forM _ fun event _ =>
    leaves_applySemanticEvent _ event).adapt _).bind fun _ => ?_
  refine ((Fallible.Leaves.forM _ fun event _ => ?_).adapt _).bind fun _ => ?_
  · unfold applyBalanceChanged
    split
    · exact leaves_balance_set _ _ _
    · exact .pure _
  · refine Fallible.Leaves.adapt _ ?_
    refine ((leaves_get _ _ _).adapt _).bind fun cell => ?_
    refine (Fallible.Leaves.ofExcept _).bind fun current => ?_
    split_ifs
    · exact .throw _
    · exact (leaves_put (by decide +kernel) _ _).adapt _

end Identifier

variable {indexer : Indexer} {batches : List Batch}

theorem Indexer.Calm.applyBatch (hcalm : indexer.Calm)
    {seq : UInt64} {events : List Event} (hok : (indexer.applyBatch seq events).1 = .ok ()) :
    (indexer.applyBatch seq events).2.Calm ∧ (indexer.applyBatch seq events).2.cursor = seq := by
  obtain ⟨⟨durable, staged, outcomes⟩, cursor, poisoned⟩ := indexer
  obtain ⟨hstaged, houtcomes, hpoisoned, hcursor, bytes, hcell, hnamed⟩ := hcalm
  subst hstaged houtcomes hpoisoned
  have hbegin : transaction ⟨durable, none, Sqlite.Outcomes.faultless⟩ =
      (.ok (), ⟨durable, some durable, Sqlite.Outcomes.faultless⟩) := rfl
  rcases hrun : stageBatch seq events ⟨durable, [], []⟩ with ⟨error | _, view⟩
  · have hfails := @Connection.onView_of_run _ _
      ⟨durable, some durable, Sqlite.Outcomes.faultless⟩ _ _ _ hrun
    unfold Indexer.applyBatch at hok
    simp only [hbegin, hfails] at hok
    split_ifs at hok
  · have hview : calm view = view := by
      have hsame := stable_stageBatch seq events ⟨durable, [], []⟩ () view hrun
      have hagain := hrun.symm.trans hsame
      exact (congrArg Prod.snd hagain).symm
    have hcell' : lookup view.table identifierKey = some bytes := by
      have hleaves := leaves_stageBatch seq events ⟨durable, [], []⟩
      rw [hrun] at hleaves
      exact hleaves.trans hcell
    have hstaged := @Connection.onView_of_run _ _
      ⟨durable, some durable, Sqlite.Outcomes.faultless⟩ _ _ _ hrun
    rw [← hview] at hstaged
    have hcommit : transactionCommit (Connection.withView
        ⟨durable, some durable, Sqlite.Outcomes.faultless⟩ (calm view)) =
          (.ok (), ⟨view.table, none, Sqlite.Outcomes.faultless⟩) := rfl
    unfold Indexer.applyBatch at hok ⊢
    simp only [hbegin, hstaged, hcommit] at hok ⊢
    split_ifs at hok ⊢
    all_goals
      exact ⟨⟨rfl, rfl, rfl, stageBatch_cursor hrun, bytes, hcell', hnamed⟩, rfl⟩

def Indexer.AllApply (indexer : Indexer) : List Batch → Prop
  | [] => True
  | batch :: rest =>
    (indexer.applyBatch batch.1 batch.2).1 = .ok () ∧
      (indexer.applyBatch batch.1 batch.2).2.AllApply rest

def Indexer.decidableAllApply (indexer : Indexer) :
    (batches : List Batch) → Decidable (indexer.AllApply batches)
  | [] => isTrue trivial
  | batch :: rest =>
    have := (indexer.applyBatch batch.1 batch.2).2.decidableAllApply rest
    inferInstanceAs (Decidable (_ ∧ _))

instance (indexer : Indexer) (batches : List Batch) : Decidable (indexer.AllApply batches) :=
  indexer.decidableAllApply batches

theorem Indexer.Calm.applyAll (hcalm : indexer.Calm) (happly : indexer.AllApply batches) :
    (indexer.applyAll batches).2.Calm := by
  induction batches generalizing indexer with
  | nil => exact hcalm
  | cons _ _ ih => exact ih (hcalm.applyBatch happly.1).1 happly.2

end Indexing

end Canon
