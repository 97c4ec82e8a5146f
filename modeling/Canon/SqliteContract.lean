import Canon.SqliteScans

/-!
# The contract of the key-value store

The store is meant to be a map with atomic transactions.  Every single call is a
step of the abstract map as long as no transaction stays open behind a handle that
is gone, and only a failing `ROLLBACK` leaves one open.
-/

namespace Canon

namespace Sqlite

open Function List

/-! ## Single statements -/

theorem execute_run {change : Table → Table} (context : String) {view : View}
    (hwrites : view.writes.headD true = true) :
    execute change context view =
      (.ok (), { view with
        table := change view.table, writes := view.writes.tail }) :=
  if_pos hwrites

theorem execute_fails {change : Table → Table} (context : String) {view : View}
    (hwrites : view.writes.headD true = false) :
    execute change context view =
      (.error (.backend context), { view with writes := view.writes.tail }) :=
  if_neg (ne_true_of_eq_false hwrites)

theorem get_run (context : String) (key : Bytes) (view : View) :
    get context key view = (if view.selects.headD true then .ok (lookup view.table key)
        else .error (.backend context),
        { view with selects := view.selects.tail }) := by
  unfold get
  rw [Fallible.run_bind]
  simp only [select]
  split_ifs <;> rfl

theorem scanWithConn_run (stem : Bytes) (view : View) :
    scanWithConn stem view = (if view.selects.headD true then .ok (scanRows view.table stem)
        else .error (.backend "execute scan"),
        { view with selects := view.selects.tail }) := by
  unfold scanWithConn
  rw [Fallible.run_bind]
  simp only [select]
  split_ifs <;> rfl

/-! ## The map which a session stands for -/

/-- Every `ROLLBACK` succeeds, and no `COMMIT` takes effect while reporting an
error. -/
structure Outcomes.Reliable (outcomes : Outcomes) : Prop where
  rollbacks : false ∉ outcomes.rollbacks
  commits : .reported ∉ outcomes.commits

/-- What is open on the connection is what the handle stands for. -/
def Session.Settled (session : Session) : Prop :=
  match session.handle with
  | .none => session.connection.staged = none
  | .snapshot => session.connection.staged = some session.connection.durable
  | .transaction => session.connection.staged.isSome

structure Session.Sound (session : Session) : Prop where
  settled : session.Settled
  reliable : session.connection.outcomes.Reliable

def Session.abstract (session : Session) : AtomicMap.State Bytes Bytes where
  map := lookup session.connection.durable
  handle :=
    match session.handle with
    | .none => .idle
    | .snapshot => .reading
    | .transaction => .writing (lookup session.connection.view.table)

def Call.request : Call → AtomicMap.Request Bytes Bytes
  | .get key => .get key
  | .put key value => .put key value
  | .delete key => .delete key
  | .scan stem => .scan {key | stem <+: key}
  | .snapshot => .snapshot
  | .transaction => .transaction
  | .commit => .commit
  | .rollback => .abandon
  | .drop => .abandon

def Answer.response : Answer → AtomicMap.Response Bytes Bytes
  | .value (.ok found) => .value found
  | .rows (.ok found) => .rows found
  | .done (.ok ()) => .done
  | .dropped => .done
  | .value (.error _) | .rows (.error _) | .done (.error _) => .failed

abbrev Session.observed (session : Session) (calls : List Call) :
    List (AtomicMap.Request Bytes Bytes × AtomicMap.Response Bytes Bytes) :=
  AtomicMap.observed Session.call Call.request Answer.response session calls

variable {session : Session}

theorem Session.Settled.visible (hsettled : session.Settled) :
    session.abstract.visible = lookup session.connection.view.table := by
  obtain ⟨⟨durable, staged, outcomes⟩, handle⟩ := session
  cases handle with
  | none =>
    have hstaged : staged = none := hsettled
    subst hstaged
    rfl
  | snapshot =>
    have hstaged : staged = some durable := hsettled
    subst hstaged
    rfl
  | transaction => rfl

theorem Outcomes.Reliable.rollback {conn : Connection} {table : Table}
    (hreliable : conn.outcomes.Reliable) (hopen : conn.staged = some table) :
    conn.rollback.1 = true ∧ conn.rollback.2.staged = none ∧
      conn.rollback.2.durable = conn.durable ∧
      conn.rollback.2.outcomes.Reliable := by
  have hhead : conn.outcomes.rollbacks.headD true = true := by
    cases hrollbacks : conn.outcomes.rollbacks with
    | nil => rfl
    | cons first =>
      cases first with
      | true => rfl
      | false =>
        refine absurd ?_ hreliable.rollbacks
        rw [hrollbacks]
        exact mem_cons_self
  simp only [Connection.rollback, hopen, hhead, if_true, true_and]
  refine ⟨?_, hreliable.commits⟩
  exact fun hmem => hreliable.rollbacks (mem_of_mem_tail hmem)

theorem Connection.onView_fst {ε α : Type} (conn : Connection) (program : ViewM ε α) :
    (conn.onView program).1 = (program conn.view).1 :=
  rfl

theorem Connection.onView_of_run {ε α : Type} {conn : Connection}
    {program : ViewM ε α} {result : Except ε α} {view : View}
    (hrun : program conn.view = (result, view)) :
    conn.onView program = (result, conn.withView view) := by
  rw [Connection.onView, hrun]

@[simp] theorem Connection.withView_reliable (conn : Connection) (view : View) :
    (conn.withView view).outcomes.Reliable ↔ conn.outcomes.Reliable := by
  have hsame : (conn.withView view).outcomes.rollbacks = conn.outcomes.rollbacks ∧
      (conn.withView view).outcomes.commits = conn.outcomes.commits := by
    unfold Connection.withView
    split <;> exact ⟨rfl, rfl⟩
  constructor
  · exact fun hreliable =>
      ⟨hsame.1 ▸ hreliable.rollbacks, hsame.2 ▸ hreliable.commits⟩
  · exact fun hreliable =>
      ⟨hsame.1.symm ▸ hreliable.rollbacks, hsame.2.symm ▸ hreliable.commits⟩

theorem Connection.withView_same (conn : Connection) {view : View}
    (htable : view.table = conn.view.table) :
    (conn.withView view).durable = conn.durable ∧ (conn.withView view).staged = conn.staged := by
  obtain ⟨durable, staged, outcomes⟩ := conn
  cases staged with
  | none => exact ⟨htable, rfl⟩
  | some => exact ⟨rfl, congrArg some htable⟩

/-- The abstract map can give this answer, and the session still stands for a map. -/
def Session.Follows (session : Session) (request : AtomicMap.Request Bytes Bytes)
    (answer : Answer) (after : Session) : Prop :=
  AtomicMap.Step KeyBefore session.abstract request answer.response after.abstract ∧ after.Sound

namespace Session.Sound

variable {session : Session} {key : Bytes} {value : Option Bytes}

theorem same (hsound : session.Sound) {view : View}
    (htable : view.table = session.connection.view.table) :
    Session.abstract ⟨session.connection.withView view, session.handle⟩ = session.abstract ∧
      Session.Sound ⟨session.connection.withView view, session.handle⟩ := by
  obtain ⟨hdurable, hstaged⟩ := session.connection.withView_same htable
  have hview : (session.connection.withView view).view.table = session.connection.view.table := by
    simp only [Connection.view, hdurable, hstaged]
  refine ⟨?_, ?_, ?_⟩
  · simp only [Session.abstract, hdurable, hview]
  · have hsettled := hsound.settled
    simp only [Session.Settled, hdurable, hstaged] at hsettled ⊢
    exact hsettled
  · exact (session.connection.withView_reliable view).mpr hsound.reliable

theorem assign (hsound : session.Sound) (hhandle : session.handle ≠ .snapshot) {view : View}
    (htable : lookup view.table =
      update (lookup session.connection.view.table) key value) :
    Session.abstract ⟨session.connection.withView view, session.handle⟩ =
        session.abstract.assign key value ∧
      Session.Sound ⟨session.connection.withView view, session.handle⟩ := by
  have hreliable := (session.connection.withView_reliable view).mpr hsound.reliable
  obtain ⟨⟨durable, staged, outcomes⟩, handle⟩ := session
  cases handle with
  | snapshot => exact absurd rfl hhandle
  | none =>
    have hstaged : staged = none := hsound.settled
    subst hstaged
    refine ⟨?_, rfl, hreliable⟩
    simp only [Session.abstract, Connection.withView, AtomicMap.State.assign, htable]
    rfl
  | transaction =>
    obtain ⟨table, hstaged⟩ := Option.isSome_iff_exists.mp hsound.settled
    subst hstaged
    refine ⟨?_, rfl, hreliable⟩
    simp only [Session.abstract, Connection.withView, Connection.view,
      AtomicMap.State.assign, Option.getD_some, htable]

theorem query (hsound : session.Sound) {ε α : Type} {program : ViewM ε α}
    {answer : Answer} {request : AtomicMap.Request Bytes Bytes}
    (htable : (program session.connection.view).2.table = session.connection.view.table)
    (hopen : ¬request.Closes)
    (hanswer : answer.response = .failed ∨
      AtomicMap.Step KeyBefore session.abstract request answer.response session.abstract) :
    session.Follows request answer ⟨(session.connection.onView program).2, session.handle⟩ := by
  obtain ⟨habstract, hafter⟩ := hsound.same htable
  refine ⟨?_, hafter⟩
  rw [Connection.onView, habstract]
  rcases hanswer with hfailed | hstep
  · rw [hfailed]
    exact .refused _ _ hopen
  · exact hstep

theorem get (hsound : session.Sound) (context : String) (key : Bytes) :
    session.Follows (.get key) (.value (session.connection.onView (Sqlite.get context key)).1)
      ⟨(session.connection.onView (Sqlite.get context key)).2, session.handle⟩ := by
  have hrun := get_run context key session.connection.view
  refine hsound.query (congrArg (fun run => run.2.table) hrun) id ?_
  rw [Connection.onView, hrun]
  split_ifs
  · right
    rw [← hsound.settled.visible]
    exact .get _ key
  · exact .inl rfl

theorem scan (hsound : session.Sound) (stem : Bytes) : session.Follows (Call.scan stem).request
      (.rows (session.connection.onView (scanWithConn stem)).1)
      ⟨(session.connection.onView (scanWithConn stem)).2, session.handle⟩ := by
  have hrun := scanWithConn_run stem session.connection.view
  refine hsound.query (congrArg (fun run => run.2.table) hrun) id ?_
  rw [Connection.onView, hrun]
  split_ifs
  · right
    apply AtomicMap.Step.scan
    rw [hsound.settled.visible]
    exact scanRows_lists _ stem
  · exact .inl rfl

theorem execute (hsound : session.Sound) (hhandle : session.handle ≠ .snapshot)
    {change : Table → Table} (hchange : ∀ table, lookup (change table) =
      update (lookup table) key value) (context : String)
    {request : AtomicMap.Request Bytes Bytes} (hopen : ¬request.Closes)
    (hrequest : AtomicMap.Step KeyBefore session.abstract request .done
      (session.abstract.assign key value)) :
    session.Follows request (.done (session.connection.onView (Sqlite.execute change context)).1)
      ⟨(session.connection.onView (Sqlite.execute change context)).2, session.handle⟩ := by
  cases hwrites : session.connection.view.writes.headD true with
  | true =>
    have hrun := @execute_run change context _ hwrites
    have htable : lookup (Sqlite.execute change context session.connection.view).2.table = update
          (lookup session.connection.view.table) key value := by
      rw [hrun]
      exact hchange _
    obtain ⟨habstract, hafter⟩ := hsound.assign hhandle htable
    refine ⟨?_, hafter⟩
    rw [Connection.onView, habstract, hrun]
    exact hrequest
  | false =>
    have hrun := @execute_fails change context _ hwrites
    refine hsound.query (congrArg (fun run => run.2.table) hrun) hopen ?_
    rw [Connection.onView, hrun]
    exact .inl rfl

end Session.Sound

def Acquires (conn : Connection) (run : Except StorageError Unit × Connection) : Prop :=
  run.2.durable = conn.durable ∧ run.2.outcomes.Reliable ∧
    (run.1 = .ok () ∧ run.2.staged = some conn.durable ∨
      (∃ error, run.1 = .error error) ∧ run.2.staged = none)

variable {conn : Connection}

theorem Acquires.begin (hstaged : conn.staged = none)
    (hreliable : conn.outcomes.Reliable) (context : String) :
    Acquires conn (conn.begin context) := by
  unfold Connection.begin
  rw [hstaged]
  split_ifs
  · exact ⟨rfl, ⟨hreliable.rollbacks, hreliable.commits⟩, .inl ⟨rfl, rfl⟩⟩
  · exact ⟨rfl, ⟨hreliable.rollbacks, hreliable.commits⟩, .inr ⟨⟨_, rfl⟩, rfl⟩⟩

theorem recoverAutocommitIfNeeded_of_none
    (hstaged : conn.staged = none) : recoverAutocommitIfNeeded conn = conn := by
  rw [recoverAutocommitIfNeeded, if_pos]
  rw [Connection.isAutocommit, hstaged]
  rfl

theorem Outcomes.Reliable.closed {conn : Connection}
    (hreliable : conn.outcomes.Reliable) (hopen : conn.staged.isSome) :
    Session.abstract ⟨conn.rollback.2, .none⟩ = ⟨lookup conn.durable, .idle⟩ ∧
      Session.Sound ⟨conn.rollback.2, .none⟩ := by
  obtain ⟨table, hstaged⟩ := Option.isSome_iff_exists.mp hopen
  obtain ⟨_, hnone, hdurable, hafter⟩ := hreliable.rollback hstaged
  refine ⟨?_, hnone, hafter⟩
  simp only [Session.abstract, hdurable]

theorem Acquires.transaction (hsound : Session.Sound ⟨conn, .none⟩) :
    Acquires conn (Sqlite.transaction conn) := by
  unfold Sqlite.transaction
  rw [recoverAutocommitIfNeeded_of_none hsound.settled]
  exact .begin hsound.settled hsound.reliable _

theorem Acquires.snapshot (hsound : Session.Sound ⟨conn, .none⟩) :
    Acquires conn (Sqlite.snapshot conn) := by
  unfold Sqlite.snapshot
  rw [recoverAutocommitIfNeeded_of_none hsound.settled]
  have hbegin : Acquires conn (conn.begin "snapshot BEGIN") :=
    .begin hsound.settled hsound.reliable _
  generalize conn.begin "snapshot BEGIN" = run at hbegin ⊢
  obtain ⟨result, begun⟩ := run
  obtain ⟨hdurable, hreliable, ⟨hok, hopen⟩ | ⟨⟨error, herror⟩, hnone⟩⟩ := hbegin
  · simp only at hdurable hreliable hok hopen
    subst hok
    have hwarm : (select "snapshot warm-up read" begun.view).2.table =
        begun.view.table := by
      simp only [select]
      split_ifs <;> rfl
    obtain ⟨hkept, hstill⟩ := begun.withView_same hwarm
    have hafter := (begun.withView_reliable
      (select "snapshot warm-up read" begun.view).2).mpr hreliable
    have hview : (begun.onView (select "snapshot warm-up read")).2 =
        begun.withView (select "snapshot warm-up read" begun.view).2 := rfl
    rw [← hview] at hkept hstill hafter
    simp only
    generalize begun.onView (select "snapshot warm-up read") = run at *
    obtain ⟨read, warm⟩ := run
    cases read with
    | ok =>
      exact ⟨hkept.trans hdurable, hafter, .inl ⟨rfl, hstill.trans hopen⟩⟩
    | error error =>
      obtain ⟨_, hclosed, hsame, hgone⟩ := hafter.rollback (hstill.trans hopen)
      exact ⟨hsame.trans (hkept.trans hdurable), hgone, .inr ⟨⟨error, rfl⟩, hclosed⟩⟩
  · simp only at herror
    subst herror
    exact ⟨hdurable, hreliable, .inr ⟨⟨error, rfl⟩, hnone⟩⟩

namespace Session.Sound

variable {conn : Connection}

theorem transaction (hsound : Session.Sound ⟨conn, .none⟩) :
    Session.Follows ⟨conn, .none⟩ .transaction (.done (Sqlite.transaction conn).1)
      ⟨(Sqlite.transaction conn).2, Handle.transaction.acquired (Sqlite.transaction conn).1⟩ := by
  obtain ⟨hdurable, hreliable, ⟨hok, hopen⟩ | ⟨⟨error, herror⟩, hnone⟩⟩ :=
    Acquires.transaction hsound
  · rw [hok]
    refine ⟨?_, Option.isSome_of_eq_some hopen, hreliable⟩
    simp only [Session.abstract, Handle.acquired, Connection.view, hdurable,
      hopen, Option.getD_some]
    exact .transaction _
  · rw [herror]
    refine ⟨?_, hnone, hreliable⟩
    simp only [Session.abstract, Handle.acquired, hdurable]
    exact .refused _ _ id

theorem snapshot (hsound : Session.Sound ⟨conn, .none⟩) :
    Session.Follows ⟨conn, .none⟩ .snapshot (.done (Sqlite.snapshot conn).1)
      ⟨(Sqlite.snapshot conn).2, Handle.snapshot.acquired (Sqlite.snapshot conn).1⟩ := by
  obtain ⟨hdurable, hreliable, ⟨hok, hopen⟩ | ⟨⟨error, herror⟩, hnone⟩⟩ := Acquires.snapshot hsound
  · rw [hok]
    refine ⟨?_, hopen.trans (congrArg some hdurable.symm), hreliable⟩
    simp only [Session.abstract, Handle.acquired, hdurable]
    exact .snapshot _
  · rw [herror]
    refine ⟨?_, hnone, hreliable⟩
    simp only [Session.abstract, Handle.acquired, hdurable]
    exact .refused _ _ id

theorem commit (hsound : Session.Sound ⟨conn, .transaction⟩) :
    Session.Follows ⟨conn, .transaction⟩ .commit (.done (transactionCommit conn).1)
      ⟨(transactionCommit conn).2, .none⟩ := by
  obtain ⟨durable, staged, outcomes⟩ := conn
  obtain ⟨table, hstaged⟩ := Option.isSome_iff_exists.mp hsound.settled
  subst hstaged
  have hreliable : outcomes.Reliable := hsound.reliable
  have hafter : { outcomes with commits := outcomes.commits.tail }.Reliable :=
    ⟨hreliable.rollbacks, fun hmem => hreliable.commits (mem_of_mem_tail hmem)⟩
  cases hhead : outcomes.commits.headD .committed with
  | committed =>
    simp only [transactionCommit, Connection.commit, hhead]
    exact ⟨.commit _ _, rfl, hafter⟩
  | reported =>
    refine absurd ?_ hreliable.commits
    cases hcommits : outcomes.commits with
    | nil =>
      rw [hcommits] at hhead
      cases hhead
    | cons =>
      rw [hcommits, headD_cons] at hhead
      rw [hhead]
      exact mem_cons_self
  | refused =>
    simp only [transactionCommit, Connection.commit, hhead]
    obtain ⟨habstract, hclosed⟩ := @Outcomes.Reliable.closed ⟨durable, some table, _⟩ hafter rfl
    refine ⟨?_, hclosed⟩
    rw [habstract]
    exact .commitRefused _ _
  | rolledBack =>
    simp only [transactionCommit, Connection.commit, hhead]
    exact ⟨.commitRefused _ _, rfl, hafter⟩

theorem abandon (hsound : Session.Sound ⟨conn, .transaction⟩) (answer : Answer) :
    Session.Follows ⟨conn, .transaction⟩ .abandon answer ⟨conn.rollback.2, .none⟩ := by
  obtain ⟨habstract, hclosed⟩ := hsound.reliable.closed hsound.settled
  refine ⟨?_, hclosed⟩
  rw [habstract]
  exact .abandon _ _ _

theorem release (hsound : Session.Sound ⟨conn, .snapshot⟩) (answer : Answer) :
    Session.Follows ⟨conn, .snapshot⟩ .abandon answer ⟨conn.rollback.2, .none⟩ := by
  obtain ⟨habstract, hclosed⟩ := hsound.reliable.closed (Option.isSome_of_eq_some hsound.settled)
  refine ⟨?_, hclosed⟩
  rw [habstract]
  exact .release _ _

theorem call {after : Session} {next : Call} {answer : Answer} (hsound : session.Sound)
    (hcall : session.call next = some (answer, after)) :
    session.Follows next.request answer after := by
  obtain ⟨conn, handle⟩ := session
  cases next with
  | get key =>
    cases hcall
    exact hsound.get _ key
  | scan stem =>
    cases handle with
    | transaction => cases hcall
    | none | snapshot =>
      cases hcall
      exact hsound.scan stem
  | put key value =>
    have hassigned := fun table => lookup_insert table key value
    cases handle with
    | snapshot => cases hcall
    | none | transaction =>
      cases hcall
      exact hsound.execute (by simp) hassigned _ id (.put _ key value (by simp [Session.abstract]))
  | delete key =>
    have herased := fun table => lookup_erase table key
    cases handle with
    | snapshot => cases hcall
    | none | transaction =>
      cases hcall
      exact hsound.execute (by simp) herased _ id (.delete _ key (by simp [Session.abstract]))
  | snapshot =>
    cases handle with
    | none =>
      cases hcall
      exact hsound.snapshot
    | snapshot | transaction => cases hcall
  | transaction =>
    cases handle with
    | none =>
      cases hcall
      exact hsound.transaction
    | snapshot | transaction => cases hcall
  | commit =>
    cases handle with
    | none | snapshot => cases hcall
    | transaction =>
      cases hcall
      exact hsound.commit
  | rollback =>
    cases handle with
    | none | snapshot => cases hcall
    | transaction =>
      cases hcall
      exact hsound.abandon _
  | drop =>
    cases handle with
    | none => cases hcall
    | snapshot =>
      cases hcall
      exact hsound.release _
    | transaction =>
      cases hcall
      exact hsound.abandon _

theorem conforms {session : Session} (hsound : session.Sound) (calls : List Call) :
    AtomicMap.Conforms KeyBefore session.abstract (session.observed calls) := by
  refine @AtomicMap.conforms_of_simulation _ _ _ _ _ _ _ _ _ _
    (fun session abstract => session.Sound ∧ abstract = session.abstract) ?_ _ _ ⟨hsound, rfl⟩ calls
  rintro state _ next answer after ⟨hsound, rfl⟩ hcall
  obtain ⟨hstep, hafter⟩ := hsound.call hcall
  exact ⟨_, hstep, hafter, rfl⟩

end Session.Sound

/-! ## Sessions which break the contract -/

/-- Some sequence of calls gets answers which a map in the given state cannot
give. -/
def Session.Breaks (session : Session) (abstract : AtomicMap.State Bytes Bytes) : Prop :=
  ∃ calls, ¬AtomicMap.Conforms KeyBefore abstract (session.observed calls)

theorem Session.Breaks.of_call {after : Session}
    {abstract abstract' : AtomicMap.State Bytes Bytes} (next : Call) {answer : Answer}
    (hcall : session.call next = some (answer, after))
    (hstep : ∀ result, AtomicMap.Step KeyBefore abstract next.request
      answer.response result → result = abstract') (hbreaks : after.Breaks abstract') :
    session.Breaks abstract := by
  obtain ⟨calls, hcalls⟩ := hbreaks
  refine ⟨next :: calls, fun hconforms => hcalls ?_⟩
  rw [Session.observed, AtomicMap.observed_cons hcall, AtomicMap.conforms_cons] at hconforms
  obtain ⟨result, hfollows, hrest⟩ := hconforms
  rw [hstep result hfollows] at hrest
  exact hrest

theorem Session.Breaks.of_get {abstract : AtomicMap.State Bytes Bytes} (key : Bytes)
    (hselects : session.connection.outcomes.selects = [])
    (hdiffers : lookup session.connection.view.table key ≠
      abstract.visible key) : session.Breaks abstract := by
  refine ⟨[.get key], ?_⟩
  have hanswer : ∀ context, (session.connection.onView (get context key)).1 =
      .ok (lookup session.connection.view.table key) := by
    intro context
    rw [Connection.onView, get_run]
    simp only [Connection.view, hselects]
    rfl
  rw [Session.observed, AtomicMap.observed_cons rfl, AtomicMap.conforms_cons]
  rintro ⟨_, hstep, _⟩
  rw [← Connection.onView_fst, hanswer] at hstep
  exact hdiffers hstep.value_eq

def Outcomes.ends (commits : List CommitOutcome) (rollbacks : List Bool) :
    Outcomes :=
  ⟨[], commits, rollbacks, [], []⟩

section Breaking

variable {commits : List CommitOutcome} {rollbacks : List Bool}
  {durable table : Table} {map pending : Bytes → Option Bytes}

theorem Session.Breaks.transaction
    (hbreaks : Session.Breaks ⟨⟨durable, some durable, .ends commits rollbacks⟩, .transaction⟩
      ⟨map, .writing map⟩) :
    Session.Breaks ⟨⟨durable, none, .ends commits rollbacks⟩, .none⟩ ⟨map, .idle⟩ := by
  refine .of_call .transaction rfl ?_ hbreaks
  rintro _ ⟨⟩
  rfl

theorem Session.Breaks.put {key value : Bytes} (hbreaks : Session.Breaks
      ⟨⟨durable, some (table.insert key value), .ends commits rollbacks⟩, .transaction⟩
      ⟨map, .writing (update pending key (some value))⟩) :
    Session.Breaks ⟨⟨durable, some table, .ends commits rollbacks⟩, .transaction⟩
      ⟨map, .writing pending⟩ := by
  refine .of_call (.put key value) rfl ?_ hbreaks
  rintro _ ⟨⟩
  rfl

theorem Session.Breaks.drop (hbreaks : Session.Breaks
      ⟨endRollback ⟨durable, some table, .ends commits rollbacks⟩, .none⟩ ⟨map, .idle⟩) :
    Session.Breaks ⟨⟨durable, some table, .ends commits rollbacks⟩, .transaction⟩
      ⟨map, .writing pending⟩ := by
  refine .of_call .drop rfl ?_ hbreaks
  rintro _ ⟨⟩
  rfl

theorem Session.Breaks.commit {error : StorageError}
    (herror : (transactionCommit ⟨durable, some table, .ends commits rollbacks⟩).1 = .error error)
    (hbreaks : Session.Breaks
      ⟨(transactionCommit ⟨durable, some table, .ends commits rollbacks⟩).2, .none⟩ ⟨map, .idle⟩) :
    Session.Breaks ⟨⟨durable, some table, .ends commits rollbacks⟩, .transaction⟩
      ⟨map, .writing pending⟩ := by
  have hcall : Session.call ⟨⟨durable, some table, .ends commits rollbacks⟩, .transaction⟩ .commit =
        some (.done (transactionCommit ⟨durable, some table, .ends commits rollbacks⟩).1,
          ⟨(transactionCommit ⟨durable, some table, .ends commits rollbacks⟩).2, .none⟩) :=
    rfl
  rw [herror] at hcall
  refine .of_call .commit hcall (fun result hstep => ?_) hbreaks
  cases hstep with
  | commitRefused => rfl
  | refused _ _ hopen => exact absurd trivial hopen

theorem lookup_insert_ne (map : Bytes → Option Bytes) (key value : Bytes) (hnone : map key = none) :
    lookup (table.insert key value) key ≠ map key := by
  rw [lookup_insert, update_self, hnone]
  simp

theorem breaks_of_rollback_fails (hfails : false ∈ rollbacks) :
    Session.Breaks ⟨⟨∅, none, .ends commits rollbacks⟩, .none⟩ ⟨lookup ∅, .idle⟩ := by
  induction rollbacks with
  | nil => cases hfails
  | cons first rest ih =>
    cases first with
    | true =>
      have hrest : false ∈ rest := by simpa using hfails
      exact .transaction (.drop (ih hrest))
    | false =>
      refine .transaction (@Session.Breaks.put _ _ _ _ _ _ [] [] (.drop (.of_get [] rfl ?_)))
      exact lookup_insert_ne _ _ _ rfl

theorem breaks_of_commit_reported (hreported : .reported ∈ commits)
    (hrollbacks : false ∉ rollbacks) :
    Session.Breaks ⟨⟨∅, none, .ends commits rollbacks⟩, .none⟩ ⟨lookup ∅, .idle⟩ := by
  induction commits generalizing rollbacks with
  | nil => cases hreported
  | cons first rest ih =>
    cases first with
    | reported =>
      refine .transaction (@Session.Breaks.put _ _ _ _ _ _ [] [] (.commit rfl (.of_get [] rfl ?_)))
      exact lookup_insert_ne _ _ _ rfl
    | committed =>
      have hrest : .reported ∈ rest := by simpa using hreported
      refine .transaction (.of_call .commit rfl ?_ (ih hrest hrollbacks))
      rintro _ ⟨⟩
      rfl
    | rolledBack =>
      have hrest : .reported ∈ rest := by simpa using hreported
      exact .transaction (.commit rfl (ih hrest hrollbacks))
    | refused =>
      have hrest : .reported ∈ rest := by simpa using hreported
      refine .transaction (.commit rfl ?_)
      cases rollbacks with
      | nil => exact ih hrest hrollbacks
      | cons success others =>
        cases success with
        | true =>
          have hothers : false ∉ others := by simpa using hrollbacks
          exact ih hrest hothers
        | false => exact absurd mem_cons_self hrollbacks

end Breaking

/-- The store is a map with atomic transactions, for every sequence of calls and
whatever other statements fail, exactly when every `ROLLBACK` of an open transaction
succeeds and no `COMMIT` takes effect while reporting an error. -/
theorem storage_contract_iff (commits : List CommitOutcome) (rollbacks : List Bool) :
    (∀ (durable : Table) (begins selects writes : List Bool) (calls : List Call),
      AtomicMap.Conforms KeyBefore ⟨lookup durable, .idle⟩
        ((Session.opened durable ⟨begins, commits, rollbacks, selects, writes⟩).observed calls)) ↔
      false ∉ rollbacks ∧ .reported ∉ commits := by
  constructor
  · intro hconforms
    have hrollbacks : false ∉ rollbacks := by
      intro hfails
      obtain ⟨calls, hbreaks⟩ := @breaks_of_rollback_fails commits _ hfails
      exact hbreaks (hconforms ∅ [] [] [] calls)
    refine ⟨hrollbacks, fun hreported => ?_⟩
    obtain ⟨calls, hbreaks⟩ := breaks_of_commit_reported hreported hrollbacks
    exact hbreaks (hconforms ∅ [] [] [] calls)
  · rintro ⟨hrollbacks, hcommits⟩ durable begins selects writes calls
    exact @Session.Sound.conforms (.opened durable ⟨begins, commits, rollbacks, selects, writes⟩)
      ⟨rfl, hrollbacks, hcommits⟩ calls

/-- A fresh database, whose first `COMMIT` is refused and whose first `ROLLBACK`
then fails. -/
def Session.wedging : Session := .opened ∅ ⟨[], [.refused], [false], [], []⟩

/-- The commit reports an error, and a read then returns what the transaction
wrote; a later write reports success, and is gone after the next transaction. -/
theorem wedging_not_atomic : ¬AtomicMap.Conforms KeyBefore ⟨lookup ∅, .idle⟩
        (Session.wedging.observed [.transaction, .put [1] [2], .commit, .get [1]]) ∧
      ¬AtomicMap.Conforms KeyBefore ⟨lookup ∅, .idle⟩
        (Session.wedging.observed [.transaction, .put [1] [2], .commit,
          .put [3] [4], .transaction, .drop, .get [3]]) := by
  constructor
  · rintro (_ | ⟨⟨⟩, _ | ⟨⟨⟩, _ | ⟨hcommit, _ | ⟨hget, _⟩⟩⟩⟩)
    cases hcommit with
    | refused _ _ hopen => exact hopen trivial
    | commitRefused => cases hget.value_eq
  · rintro (_ | ⟨⟨⟩, _ | ⟨⟨⟩, _ | ⟨hcommit, _ | ⟨hput, _ | ⟨hbegin, _ | ⟨hdrop, _ | ⟨hget, _⟩⟩⟩⟩⟩⟩⟩)
    cases hcommit with
    | refused _ _ hopen => exact hopen trivial
    | commitRefused =>
      cases hput
      cases hbegin
      cases hdrop
      cases hget.value_eq

end Sqlite

end Canon
