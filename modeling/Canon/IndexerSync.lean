import Canon.IndexerStore
import Canon.SqliteContract

/-!
# The cursor in memory and the cursor on disk

The indexer believes its own copy of the cursor.  The only way to lose the agreement
with the disk is a `COMMIT` which is refused and a `ROLLBACK` which then fails.  The
transaction stays open on the connection, and the cursor which is read back is the one
it has staged.
-/

namespace Canon

namespace Indexing

open Sqlite List

/-! ## Batches without storage faults -/

def calm (view : View) : View := ⟨view.table, [], []⟩

theorem stable_select (context : String) : Fallible.StableUnder calm (select context) := by
  intro view table after hrun
  unfold select at hrun
  split_ifs at hrun
  · cases hrun
    rfl
  · cases hrun

theorem stable_execute (change : Table → Table) (context : String) :
    Fallible.StableUnder calm (execute change context) := by
  intro view table after hrun
  unfold execute at hrun
  split_ifs at hrun
  · cases hrun
    rfl
  · cases hrun

theorem stable_get (context : String) (key : Bytes) : Fallible.StableUnder calm (get context key) :=
  (stable_select context).bind fun _ => .pure _

theorem stable_balance_get (actor : ActorId) (resource : ResourceId) :
    Fallible.StableUnder calm (BalanceTxView.get actor resource) :=
  ((stable_get _ _).adapt _).bind fun _ => .ofExcept _

theorem stable_balance_set (actor : ActorId) (resource : ResourceId) (value : Amount) :
    Fallible.StableUnder calm (BalanceTxView.set actor resource value) :=
  (stable_execute _ _).adapt _

theorem stable_credit (actor : ActorId) (resource : ResourceId) (delta : Amount) :
    Fallible.StableUnder calm (BalanceTxView.credit actor resource delta) := by
  refine (stable_balance_get actor resource).bind fun current => ?_
  cases Amount.checkedAdd current delta with
  | some => exact (stable_balance_set _ _ _).bind fun _ => .pure _
  | none => exact (stable_balance_set _ _ _).bind fun _ => .throw _

theorem stable_debit (actor : ActorId) (resource : ResourceId) (delta : Amount) :
    Fallible.StableUnder calm (BalanceTxView.debit actor resource delta) := by
  refine (stable_balance_get actor resource).bind fun current => ?_
  cases Amount.checkedSub current delta with
  | some => exact (stable_balance_set _ _ _).bind fun _ => .pure _
  | none => exact .throw _

theorem stable_applySemanticEvent (bcPairs : List (ActorId × ResourceId)) (event : Event) :
    Fallible.StableUnder calm (applySemanticEvent bcPairs event) := by
  unfold applySemanticEvent
  split
  · split_ifs
    · exact .pure _
    · exact (stable_credit _ _ _).bind fun _ => .pure _
  · split_ifs
    · exact .pure _
    · exact (stable_debit _ _ _).bind fun _ => .pure _
  · split_ifs
    · exact .pure _
    · exact (stable_credit _ _ _).bind fun _ => .pure _
  · exact .pure _

theorem stable_applyBalanceChanged (event : Event) :
    Fallible.StableUnder calm (applyBalanceChanged event) := by
  unfold applyBalanceChanged
  split
  · exact stable_balance_set _ _ _
  · exact .pure _

theorem stable_advanceCursorInTx (newValue : UInt64) :
    Fallible.StableUnder calm (advanceCursorInTx newValue) := by
  refine ((stable_get _ _).adapt _).bind fun cell => ?_
  refine (Fallible.StableUnder.ofExcept _).bind fun current => ?_
  split_ifs
  · exact .throw _
  · exact (stable_execute _ _).adapt _

theorem stable_stageBatch (seq : UInt64) (events : List Event) :
    Fallible.StableUnder calm (stageBatch seq events) := by
  refine ((Fallible.StableUnder.forM _ fun event _ =>
    stable_applySemanticEvent _ event).adapt _).bind fun _ => ?_
  refine ((Fallible.StableUnder.forM _ fun event _ =>
    stable_applyBalanceChanged event).adapt _).bind fun _ => ?_
  exact (stable_advanceCursorInTx seq).adapt _

abbrev Batch := UInt64 × List Event

def applied (table : Table) (batch : Batch) : Except IndexerError Table :=
  match stageBatch batch.1 batch.2 ⟨table, [], []⟩ with
  | (.ok (), view) => .ok view.table
  | (.error error, _) => .error error

def replay (table : Table) (batches : List Batch) : Except IndexerError Table :=
  batches.foldlM applied table

variable {seq : UInt64} {events : List Event} {after : View} {table : Table} {outcomes : Outcomes}
  {conn storage : Connection} {error : IndexerError}

theorem applied_of_run {view : View} (hrun : stageBatch seq events view = (.ok (), after)) :
    applied view.table (seq, events) = .ok after.table := by
  have hcalm := stable_stageBatch seq events view () after hrun
  change (match stageBatch seq events (calm view) with
    | (.ok (), view) => Except.ok view.table
    | (.error error, _) => .error error) = _
  rw [hcalm]
  rfl

theorem replay_append {middle : Table} {batches : List Batch}
    (hreplay : replay table batches = .ok middle) (batch : Batch) :
    replay table (batches ++ [batch]) = applied middle batch := by
  unfold replay at hreplay ⊢
  rw [foldlM_append, hreplay]
  change applied middle batch >>= pure = applied middle batch
  exact bind_pure _

/-! ## The cursor which a batch leaves -/

theorem decodeCursor_encoded (seq : UInt64) :
    decodeCursor (some (beBytes cursorValueLen seq.toNat)) = .ok seq := by
  have hlt : seq.toNat < 256 ^ cursorValueLen := seq.toNat_lt
  rw [decodeCursor, if_pos (beBytes_length _ _), beValue_beBytes _ _ hlt, UInt64.ofNat_toNat]

theorem stageBatch_cursor {view : View} (hrun : stageBatch seq events view = (.ok (), after)) :
    decodeCursor (lookup after.table cursorKey) = .ok seq := by
  obtain ⟨_, first, _, hrest⟩ := Fallible.ok_of_run_bind hrun
  obtain ⟨_, second, _, hadvance⟩ := Fallible.ok_of_run_bind hrest
  have hadvance := Fallible.ok_of_run_adapt hadvance
  obtain ⟨cell, third, _, hcell⟩ := Fallible.ok_of_run_bind hadvance
  obtain ⟨current, fourth, _, hput⟩ := Fallible.ok_of_run_bind hcell
  split_ifs at hput
  · cases hput
  · have hput := Fallible.ok_of_run_adapt hput
    cases hwrites : fourth.writes.headD true with
    | true =>
      have hdone := (execute_run "tx put" hwrites).symm.trans hput
      cases hdone
      rw [lookup_insert, Function.update_self]
      exact decodeCursor_encoded seq
    | false =>
      have hfailed := (execute_fails "tx put" hwrites).symm.trans hput
      cases hfailed

/-! ## What the engine may still answer -/

/-- No `COMMIT` will leave its transaction open, or no `ROLLBACK` will fail. -/
def Guarded (outcomes : Outcomes) : Prop := .refused ∉ outcomes.commits ∨ false ∉ outcomes.rollbacks

theorem Guarded.of_subset {later : Outcomes} (hguarded : Guarded outcomes)
    (hcommits : later.commits ⊆ outcomes.commits)
    (hrollbacks : later.rollbacks ⊆ outcomes.rollbacks) : Guarded later := by
  rcases hguarded with hcommit | hrollback
  · exact .inl fun hmem => hcommit (hcommits hmem)
  · exact .inr fun hmem => hrollback (hrollbacks hmem)

structure Continues (conn later : Connection) : Prop where
  durable : later.durable = conn.durable
  commits : later.outcomes.commits ⊆ conn.outcomes.commits
  rollbacks : later.outcomes.rollbacks ⊆ conn.outcomes.rollbacks

namespace Continues

variable {conn middle later : Connection}

theorem refl (conn : Connection) : Continues conn conn := ⟨rfl, fun _ h => h, fun _ h => h⟩

theorem trans (hfirst : Continues conn middle)
    (hsecond : Continues middle later) : Continues conn later :=
  ⟨hsecond.durable.trans hfirst.durable, fun _ h => hfirst.commits (hsecond.commits h),
    fun _ h => hfirst.rollbacks (hsecond.rollbacks h)⟩

theorem guarded (hcontinues : Continues conn later)
    (hguarded : Guarded conn.outcomes) : Guarded later.outcomes :=
  hguarded.of_subset hcontinues.commits hcontinues.rollbacks

theorem rollback (conn : Connection) : Continues conn conn.rollback.2 := by
  unfold Connection.rollback
  split
  · exact refl conn
  · simp only
    split_ifs
    all_goals exact ⟨rfl, fun _ h => h, fun _ h => mem_of_mem_tail h⟩

theorem begin (conn : Connection) (context : String) : Continues conn (conn.begin context).2 := by
  unfold Connection.begin
  split
  · exact refl conn
  · simp only
    split_ifs
    all_goals exact ⟨rfl, fun _ h => h, fun _ h => h⟩

theorem transaction (conn : Connection) : Continues conn (Sqlite.transaction conn).2 := by
  refine trans ?_ (begin _ _)
  unfold recoverAutocommitIfNeeded
  split_ifs
  · exact refl conn
  · exact rollback conn

theorem withView (hopen : conn.staged = some table) (view : View) :
    Continues conn (conn.withView view) := by
  unfold Connection.withView
  rw [hopen]
  exact ⟨rfl, fun _ h => h, fun _ h => h⟩

end Continues

variable {start : Table} {accepted : List Batch} {indexer : Indexer}

theorem staged_of_transaction {conn : Connection} (hok : (Sqlite.transaction conn).1 = .ok ()) :
    (Sqlite.transaction conn).2.staged = some conn.durable := by
  have hrecovered : (recoverAutocommitIfNeeded conn).durable = conn.durable := by
    unfold recoverAutocommitIfNeeded
    split_ifs
    · rfl
    · exact (Continues.rollback conn).durable
  unfold Sqlite.transaction Connection.begin at hok ⊢
  split at hok
  · cases hok
  · simp only at hok ⊢
    split_ifs at hok ⊢
    exact congrArg some hrecovered

theorem commit_cases (hopen : conn.staged = some table) (hguarded : Guarded conn.outcomes) :
    Guarded (transactionCommit conn).2.outcomes ∧
      ((transactionCommit conn).1 = .ok () ∧ (transactionCommit conn).2.durable = table ∨
        (transactionCommit conn).1 = .error .commitFailed ∧
          (transactionCommit conn).2.staged = none ∧
          ((transactionCommit conn).2.durable = table ∨
            (transactionCommit conn).2.durable = conn.durable)) := by
  obtain ⟨durable, staged, outcomes⟩ := conn
  subst hopen
  have hlater : Guarded { outcomes with commits := outcomes.commits.tail } :=
    hguarded.of_subset (fun _ h => mem_of_mem_tail h) fun _ h => h
  cases hhead : outcomes.commits.headD .committed with
  | committed =>
    simp only [transactionCommit, Connection.commit, hhead]
    exact ⟨hlater, by simp⟩
  | reported | rolledBack =>
    simp only [transactionCommit, Connection.commit, hhead]
    exact ⟨hlater, by simp [Connection.rollback]⟩
  | refused =>
    have hrollbacks : false ∉ outcomes.rollbacks := by
      refine hguarded.resolve_left fun hrefused => hrefused ?_
      cases hcommits : outcomes.commits with
      | nil =>
        rw [hcommits] at hhead
        cases hhead
      | cons =>
        rw [hcommits, headD_cons] at hhead
        simp [hhead]
    have hsucceeds : outcomes.rollbacks.headD true = true := by
      cases hlist : outcomes.rollbacks with
      | nil => rfl
      | cons first =>
        cases first with
        | true => rfl
        | false =>
          rw [hlist] at hrollbacks
          exact absurd mem_cons_self hrollbacks
    simp only [transactionCommit, Connection.commit, hhead, Connection.rollback, hsucceeds, if_true]
    exact ⟨hlater.of_subset (fun _ h => h) fun _ h => mem_of_mem_tail h, by simp⟩

theorem readCursor_run (view : View) : readCursor view = (if view.selects.headD true then
          decodeCursor (lookup view.table cursorKey)
        else .error (.storage (.backend "query get")),
        { view with selects := view.selects.tail }) := by
  unfold readCursor
  rw [Fallible.run_bind, Fallible.run_adapt, get_run]
  split_ifs <;> rfl

theorem onView_readCursor (hnone : conn.staged = none) :
    Continues conn (conn.onView readCursor).2 ∧
      ∀ cursor, (conn.onView readCursor).1 = .ok cursor →
        decodeCursor (lookup conn.durable cursorKey) = .ok cursor := by
  obtain ⟨durable, staged, outcomes⟩ := conn
  subst hnone
  rw [Connection.onView, readCursor_run]
  refine ⟨⟨rfl, fun _ h => h, fun _ h => h⟩, fun cursor hcursor => ?_⟩
  by_cases hselects : outcomes.selects.headD true = true
  · exact (if_pos hselects).symm.trans hcursor
  · cases (if_neg hselects).symm.trans hcursor

/-! ## Sequences of batches -/

def isAccepted : Except IndexerError Unit → Bool
  | .ok () => true
  | .error (.commitAmbiguous _ _) => true
  | .error _ => false

def Indexer.applyAll (indexer : Indexer) : List Batch → List Batch × Indexer
  | [] => ([], indexer)
  | batch :: rest =>
    let run := indexer.applyBatch batch.1 batch.2
    ((if isAccepted run.1 then [batch] else []) ++ (run.2.applyAll rest).1, (run.2.applyAll rest).2)

structure Indexer.Synced (start : Table) (accepted : List Batch) (indexer : Indexer) : Prop where
  cursor : decodeCursor (lookup indexer.storage.durable cursorKey) = .ok indexer.cursor
  replayed : replay start accepted = .ok indexer.storage.durable

theorem stageBatch_refused {view : View}
    (hrun : stageBatch seq events view = (.error error, after)) :
    isAccepted (.error error) = false := by
  rcases Fallible.error_of_run_bind hrun with hfirst | ⟨_, _, _, hrest⟩
  · obtain ⟨cause, rfl⟩ := Fallible.error_of_run_adapt hfirst
    rfl
  · rcases Fallible.error_of_run_bind hrest with hsecond | ⟨_, _, _, hlast⟩
    · obtain ⟨cause, rfl⟩ := Fallible.error_of_run_adapt hsecond
      rfl
    · obtain ⟨cause, rfl⟩ := Fallible.error_of_run_adapt hlast
      rfl

theorem Indexer.Synced.unchanged (hsynced : indexer.Synced start accepted)
    (hcontinues : Continues indexer.storage storage) :
    Indexer.Synced start accepted { indexer with storage := storage } := by
  refine ⟨?_, ?_⟩
  · rw [hcontinues.durable]
    exact hsynced.cursor
  · rw [hcontinues.durable]
    exact hsynced.replayed

theorem Indexer.Synced.committed {after : Indexer} (hsynced : indexer.Synced start accepted)
    {view staged : View} (htable : view.table = indexer.storage.durable)
    (hrun : stageBatch seq events view = (.ok (), staged))
    (hdurable : after.storage.durable = staged.table) (hcursor : after.cursor = seq) :
    after.Synced start (accepted ++ [(seq, events)]) := by
  refine ⟨?_, ?_⟩
  · rw [hdurable, hcursor]
    exact stageBatch_cursor hrun
  · rw [replay_append hsynced.replayed, hdurable, ← htable]
    exact applied_of_run hrun

structure Keeps (start : Table) (accepted : List Batch) (batch : Batch)
    (run : Except IndexerError Unit × Indexer) : Prop where
  guarded : Guarded run.2.storage.outcomes
  synced : run.2.poisoned = false → run.2.Synced start
    (accepted ++ if isAccepted run.1 then [batch] else [])

theorem Keeps.of_refused (hguarded : Guarded indexer.storage.outcomes)
    (hsynced : indexer.poisoned = false → indexer.Synced start accepted)
    (hcontinues : Continues indexer.storage storage) (batch : Batch)
    (herror : isAccepted (.error error) = false) :
    Keeps start accepted batch (.error error, { indexer with storage := storage }) := by
  refine ⟨hcontinues.guarded hguarded, fun hclean => ?_⟩
  rw [herror, if_neg Bool.false_ne_true, append_nil]
  exact (hsynced hclean).unchanged hcontinues

theorem Keeps.applyBatch (hguarded : Guarded indexer.storage.outcomes)
    (hsynced : indexer.poisoned = false → indexer.Synced start accepted)
    (seq : UInt64) (events : List Event) :
    Keeps start accepted (seq, events) (indexer.applyBatch seq events) := by
  unfold Indexer.applyBatch
  have hsame := Continues.refl indexer.storage
  split_ifs with hpoisoned hempty hlarge hstale
  · exact .of_refused hguarded hsynced hsame _ rfl
  · exact .of_refused hguarded hsynced hsame _ rfl
  · exact .of_refused hguarded hsynced hsame _ rfl
  · exact .of_refused hguarded hsynced hsame _ rfl
  have hclean := hsynced (by simpa using hpoisoned)
  have hbegun := Continues.transaction indexer.storage
  have hopen := @staged_of_transaction indexer.storage
  rcases htransaction : transaction indexer.storage with ⟨error | _, begun⟩
  · rw [htransaction] at hbegun
    exact .of_refused hguarded hsynced hbegun _ rfl
  rw [htransaction] at hbegun hopen
  have hopen : begun.staged = some indexer.storage.durable := hopen rfl
  have htable : begun.view.table = indexer.storage.durable := by
    rw [Connection.view, hopen]
    rfl
  rcases hrun : stageBatch seq events begun.view with ⟨error | _, view⟩
  · have hfailed := Connection.onView_of_run hrun
    have hdropped := (hbegun.trans (.withView hopen view)).trans (.rollback _)
    simp only [hfailed]
    exact .of_refused hguarded hsynced hdropped _ (stageBatch_refused hrun)
  have hstaged := Connection.onView_of_run hrun
  have hwithView := Continues.withView hopen view
  have hview : (begun.withView view).staged = some view.table := by
    rw [Connection.withView, hopen]
  obtain ⟨hafter, hcases⟩ := commit_cases hview (hwithView.guarded (hbegun.guarded hguarded))
  simp only [hstaged]
  rcases hcommit : transactionCommit (begun.withView view) with
    ⟨error | _, storage⟩
  · rw [hcommit] at hafter hcases
    obtain ⟨hok, _⟩ | ⟨_, hnone, hdurable⟩ := hcases
    · cases hok
    obtain ⟨hread, hcursor⟩ := onView_readCursor hnone
    simp only
    rcases hreread : storage.onView readCursor with ⟨error | disk, reread⟩
    · rw [hreread] at hread
      refine ⟨hread.guarded hafter, fun hunpoisoned => ?_⟩
      cases hunpoisoned
    rw [hreread] at hread hcursor
    have hdisk := hcursor disk rfl
    change Keeps start accepted (seq, events) (.error (if seq ≤ disk then .commitAmbiguous seq disk
        else .storage error),
        { indexer with storage := reread, cursor := disk })
    rcases hdurable with hnew | hold
    · have hseq : disk = seq := by
        rw [hnew, stageBatch_cursor hrun] at hdisk
        exact (Except.ok.inj hdisk).symm
      rw [if_pos (hseq ▸ UInt64.le_refl _)]
      refine ⟨hread.guarded hafter, fun _ => ?_⟩
      exact hclean.committed htable hrun (hread.durable.trans hnew) hseq
    · have hsame : disk = indexer.cursor := by
        rw [hold, hwithView.durable, hbegun.durable, hclean.cursor] at hdisk
        exact (Except.ok.inj hdisk).symm
      have hkept : reread.durable = indexer.storage.durable := hread.durable.trans
          (hold.trans (hwithView.durable.trans hbegun.durable))
      rw [hsame, if_neg hstale]
      refine ⟨hread.guarded hafter, fun _ => ⟨?_, ?_⟩⟩
      · rw [hkept]
        exact hclean.cursor
      · rw [hkept]
        simpa [isAccepted] using hclean.replayed
  · rw [hcommit] at hafter hcases
    obtain ⟨_, hdurable⟩ | ⟨herror, _⟩ := hcases
    · refine ⟨hafter, fun _ => ?_⟩
      exact hclean.committed htable hrun hdurable rfl
    · cases herror

theorem Keeps.applyAll (batches : List Batch) :
    ∀ {accepted : List Batch} {indexer : Indexer}, Guarded indexer.storage.outcomes →
      (indexer.poisoned = false → indexer.Synced start accepted) →
      (indexer.applyAll batches).2.poisoned = false →
        (indexer.applyAll batches).2.Synced start (accepted ++ (indexer.applyAll batches).1) := by
  induction batches with
  | nil =>
    intro accepted indexer _ hsynced hclean
    rw [Indexer.applyAll, append_nil]
    exact hsynced hclean
  | cons batch _ ih =>
    intro accepted indexer hguarded hsynced hclean
    have hkeeps := Keeps.applyBatch hguarded hsynced batch.1 batch.2
    have hrest := ih hkeeps.guarded hkeeps.synced hclean
    rw [append_assoc] at hrest
    exact hrest

theorem open_synced (hopen : Indexer.open (.opened table outcomes) = .ok indexer) :
    indexer.Synced indexer.storage.durable [] ∧
      indexer.storage.outcomes.commits = outcomes.commits ∧
      indexer.storage.outcomes.rollbacks = outcomes.rollbacks := by
  unfold Indexer.open at hopen
  rcases hnamed : (Connection.opened table outcomes).onView
      (ensureIdentifier indexerIdentifier) with ⟨error | _, named⟩
  · rw [hnamed] at hopen
    cases hopen
  have hsecond : named = (Connection.opened table outcomes).withView _ :=
    (congrArg Prod.snd hnamed).symm
  have hnone : named.staged = none := hsecond ▸ rfl
  have hends : named.outcomes.commits = outcomes.commits ∧
      named.outcomes.rollbacks = outcomes.rollbacks := hsecond ▸ ⟨rfl, rfl⟩
  obtain ⟨hcontinues, hcursor⟩ := onView_readCursor hnone
  rw [hnamed] at hopen
  simp only at hopen
  rcases hread : named.onView readCursor with ⟨error | cursor, ready⟩
  · rw [hread] at hopen
    cases hopen
  rw [hread] at hopen hcontinues hcursor
  cases hopen
  have hready : ready = named.withView _ := (congrArg Prod.snd hread).symm
  refine ⟨⟨?_, rfl⟩, ?_⟩
  · rw [hcontinues.durable]
    exact hcursor cursor rfl
  · rw [hready, Connection.withView, hnone]
    exact hends

/-! ## Memory and disk -/

/-- Which statements of the engine may fail: a `COMMIT` may leave its transaction
open, and a `ROLLBACK` may. -/
structure Engine where
  refusesCommit : Bool
  failsRollback : Bool

def Engine.Allows (engine : Engine) (outcomes : Outcomes) : Prop :=
  (.refused ∈ outcomes.commits → engine.refusesCommit = true) ∧
    (false ∈ outcomes.rollbacks → engine.failsRollback = true)

theorem Engine.Allows.guarded {engine : Engine} (hallows : engine.Allows outcomes)
    (hengine : ¬(engine.refusesCommit = true ∧ engine.failsRollback = true)) :
    Guarded outcomes := by
  by_cases hrefuses : engine.refusesCommit = true
  · exact .inr fun hmem => hengine ⟨hrefuses, hallows.2 hmem⟩
  · exact .inl fun hmem => hrefuses (hallows.1 hmem)

def wedgingOutcomes : Outcomes := ⟨[], [.refused], [false], [], []⟩

def rewardBatches : List Batch := [(1, [.rewardIssued 1 7 100]), (2, [.rewardIssued 1 8 50])]

theorem exists_opened {fact : Indexer → Prop} [DecidablePred fact]
    (hfact : (Indexer.open storage).toOption.any (fun indexer => decide (fact indexer)) = true) :
    ∃ indexer, Indexer.open storage = .ok indexer ∧ fact indexer := by
  cases hopen : Indexer.open storage with
  | error =>
    rw [hopen] at hfact
    cases hfact
  | ok indexer =>
    rw [hopen] at hfact
    exact ⟨indexer, rfl, of_decide_eq_true hfact⟩

/-- The cursor in memory runs ahead of the disk, and the second batch commits
without the first. -/
theorem wedged_run :
    ∃ indexer, Indexer.open (.opened ∅ wedgingOutcomes) = .ok indexer ∧
      ((indexer.applyAll (rewardBatches.take 1)).2.poisoned = false ∧
        (indexer.applyAll (rewardBatches.take 1)).2.cursor = 1 ∧
        decodeCursor (lookup (indexer.applyAll
          (rewardBatches.take 1)).2.storage.durable cursorKey) = .ok 0 ∧
        (indexer.applyAll rewardBatches).1 = rewardBatches ∧
        decodeCursor (lookup (indexer.applyAll rewardBatches).2.storage.durable cursorKey) = .ok 2 ∧
        lookup (indexer.applyAll rewardBatches).2.storage.durable (balanceKey 7 1) = none ∧
        (lookup (indexer.applyAll rewardBatches).2.storage.durable (balanceKey 8 1)).isSome) :=
  exists_opened (by decide +kernel)

/-- After every sequence of batches the cursor in memory is the durable one, and the
durable table the result of the accepted batches, exactly when the engine does not
both refuse a `COMMIT` and fail a `ROLLBACK`. -/
theorem memory_durable_iff (engine : Engine) :
    (∀ (table : Table) (outcomes : Outcomes) (indexer : Indexer), engine.Allows outcomes →
      Indexer.open (.opened table outcomes) = .ok indexer →
      ∀ batches, (indexer.applyAll batches).2.poisoned = false →
        (indexer.applyAll batches).2.Synced indexer.storage.durable (indexer.applyAll batches).1) ↔
      ¬(engine.refusesCommit = true ∧ engine.failsRollback = true) := by
  constructor
  · rintro hsynced ⟨hrefuses, hfails⟩
    obtain ⟨indexer, hopen, hclean, hmemory, hdisk, _⟩ := wedged_run
    have hcursor := (hsynced ∅ wedgingOutcomes indexer
      ⟨fun _ => hrefuses, fun _ => hfails⟩ hopen _ hclean).cursor
    rw [hdisk, hmemory] at hcursor
    cases hcursor
  · intro hengine table outcomes indexer hallows hopen batches hclean
    obtain ⟨hsynced, hcommits, hrollbacks⟩ := open_synced hopen
    have hguarded : Guarded indexer.storage.outcomes := by
      refine (hallows.guarded hengine).of_subset ?_ ?_
      · rw [hcommits]
        exact fun _ h => h
      · rw [hrollbacks]
        exact fun _ h => h
    exact Keeps.applyAll batches hguarded (fun _ => hsynced) hclean

/-- With a refused `COMMIT` and a failing `ROLLBACK` the first batch is reported as
ambiguous and lost, while the second is acknowledged and durable. -/
theorem wedged_batch_lost :
    ∃ indexer, Indexer.open (.opened ∅ wedgingOutcomes) = .ok indexer ∧
      ¬(indexer.applyAll (rewardBatches.take 1)).2.Synced indexer.storage.durable
        (indexer.applyAll (rewardBatches.take 1)).1 ∧
      (indexer.applyAll (rewardBatches.take 1)).2.poisoned = false ∧
      (indexer.applyAll rewardBatches).1 = rewardBatches ∧
      lookup (indexer.applyAll rewardBatches).2.storage.durable (balanceKey 7 1) = none ∧
      (lookup (indexer.applyAll rewardBatches).2.storage.durable (balanceKey 8 1)).isSome := by
  obtain ⟨indexer, hopen, hclean, hmemory, hdisk, haccepted, _, hmissing, hpresent⟩ := wedged_run
  refine ⟨indexer, hopen, fun hsynced => ?_, hclean, haccepted, hmissing, hpresent⟩
  have hcursor := hsynced.cursor
  rw [hdisk, hmemory] at hcursor
  cases hcursor

end Indexing

end Canon
