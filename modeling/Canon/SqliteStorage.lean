import Canon.ByteStrings
import Canon.FallibleState
import Canon.AtomicMap

/-!
# The key-value store over one SQLite connection

A connection has a durable table and, while a transaction is open on it, a staged
one, which is what every statement then reads and writes.  The engine's answers to
the statements to come are part of the connection.  A `BEGIN`, `SELECT` or write that
fails has no effect, a `ROLLBACK` that fails leaves the transaction open, and a
`COMMIT` that fails may leave it open, roll it back, or have taken effect all the same.

The handle of a snapshot or transaction holds the mutex of the connection.  The
plain calls are therefore made only while no handle is held.
-/

namespace Canon

namespace Sqlite

/-- The table `kv`, ordered by its primary key. -/
abbrev Table := Std.ExtTreeMap Bytes Bytes

inductive StorageError where
  | backend (context : String)
  | commitFailed
  deriving DecidableEq, Repr

/-! ## Statements on the visible table -/

/-- What a statement works on: the table it sees, and the answers of the engine to
the reads and writes to come. -/
structure View where
  table : Table
  selects : List Bool
  writes : List Bool

abbrev ViewM (ε α : Type) := Fallible ε View α

def select (context : String) : ViewM StorageError Table := fun view =>
  let after := { view with selects := view.selects.tail }
  if view.selects.headD true then (.ok view.table, after)
  else (.error (.backend context), after)

def execute (change : Table → Table) (context : String) : ViewM StorageError Unit := fun view =>
  let after := { view with writes := view.writes.tail }
  if view.writes.headD true then
    (.ok (), { after with table := change view.table })
  else (.error (.backend context), after)

def get (context : String) (key : Bytes) : ViewM StorageError (Option Bytes) := do
  let table ← select context
  return table[key]?

def put (context : String) (key value : Bytes) : ViewM StorageError Unit :=
  execute (fun table => table.insert key value) context

def delete (context : String) (key : Bytes) : ViewM StorageError Unit :=
  execute (fun table => table.erase key) context

/-! ## Scans -/

/-- Increment the last byte below `0xFF` and cut off what follows it. -/
def nextPrefix (stem : Bytes) : Option Bytes :=
  match stem.reverse.dropWhile (· == 0xFF) with
  | [] => none
  | byte :: rest => some ((byte + 1) :: rest).reverse

def scanAll (table : Table) : List (Bytes × Bytes) := table.toList

def scanTwoBound (table : Table) (stem upper : Bytes) : List (Bytes × Bytes) :=
  table.toList.filter fun row =>
    (compare stem row.1).isLE && (compare row.1 upper).isLT

def scanLowerBoundFiltered (table : Table) (stem : Bytes) : List (Bytes × Bytes) :=
  (table.toList.filter fun row => (compare stem row.1).isLE).takeWhile
    fun row => stem.isPrefixOf row.1

def scanRows (table : Table) (stem : Bytes) : List (Bytes × Bytes) :=
  if stem.isEmpty then scanAll table
  else
    match nextPrefix stem with
    | some upper => scanTwoBound table stem upper
    | none => scanLowerBoundFiltered table stem

def scanWithConn (stem : Bytes) : ViewM StorageError (List (Bytes × Bytes)) := do
  let table ← select "execute scan"
  return scanRows table stem

/-! ## The connection -/

inductive CommitOutcome where
  | committed
  /-- The writes are durable, and the statement reports an error. -/
  | reported
  /-- The transaction stays open. -/
  | refused
  /-- The engine has rolled the transaction back. -/
  | rolledBack
  deriving DecidableEq, Repr

structure Outcomes where
  begins : List Bool
  commits : List CommitOutcome
  rollbacks : List Bool
  selects : List Bool
  writes : List Bool

def Outcomes.faultless : Outcomes := ⟨[], [], [], [], []⟩

structure Connection where
  durable : Table
  staged : Option Table
  outcomes : Outcomes

namespace Connection

def opened (durable : Table) (outcomes : Outcomes) : Connection := ⟨durable, none, outcomes⟩

def isAutocommit (conn : Connection) : Bool := conn.staged.isNone

def view (conn : Connection) : View :=
  ⟨conn.staged.getD conn.durable, conn.outcomes.selects, conn.outcomes.writes⟩

/-- The connection after its statements have left the view.  Outside a transaction
each write is durable at once. -/
def withView (conn : Connection) (view : View) : Connection :=
  let outcomes := { conn.outcomes with
    selects := view.selects, writes := view.writes }
  match conn.staged with
  | none => { conn with durable := view.table, outcomes := outcomes }
  | some _ => { conn with
      staged := some view.table, outcomes := outcomes }

def onView {ε α : Type} (conn : Connection) (program : ViewM ε α) : Except ε α × Connection :=
  ((program conn.view).1, conn.withView (program conn.view).2)

/-- `BEGIN`, which SQLite refuses inside a transaction. -/
def begin (conn : Connection) (context : String) : Except StorageError Unit × Connection :=
  match conn.staged with
  | some _ => (.error (.backend context), conn)
  | none =>
    let after := { conn with outcomes := { conn.outcomes with
      begins := conn.outcomes.begins.tail } }
    if conn.outcomes.begins.headD true then
      (.ok (), { after with staged := some conn.durable })
    else (.error (.backend context), after)

/-- `COMMIT`, with whether it reports success. -/
def commit (conn : Connection) : Bool × Connection :=
  match conn.staged with
  | none => (false, conn)
  | some table =>
    let after := { conn with outcomes := { conn.outcomes with
      commits := conn.outcomes.commits.tail } }
    match conn.outcomes.commits.headD .committed with
    | .committed => (true, { after with durable := table, staged := none })
    | .reported => (false, { after with durable := table, staged := none })
    | .refused => (false, after)
    | .rolledBack => (false, { after with staged := none })

/-- `ROLLBACK`, with whether it reports success. -/
def rollback (conn : Connection) : Bool × Connection :=
  match conn.staged with
  | none => (false, conn)
  | some _ =>
    let after := { conn with outcomes := { conn.outcomes with
      rollbacks := conn.outcomes.rollbacks.tail } }
    if conn.outcomes.rollbacks.headD true then
      (true, { after with staged := none })
    else (false, after)

end Connection

/-! ## Snapshots and transactions -/

def recoverAutocommitIfNeeded (conn : Connection) : Connection :=
  if conn.isAutocommit then conn else conn.rollback.2

def snapshot (conn : Connection) : Except StorageError Unit × Connection :=
  match (recoverAutocommitIfNeeded conn).begin "snapshot BEGIN" with
  | (.error error, begun) => (.error error, begun)
  | (.ok (), begun) =>
    match begun.onView (select "snapshot warm-up read") with
    | (.ok _, warm) => (.ok (), warm)
    | (.error error, cold) => (.error error, cold.rollback.2)

def transaction (conn : Connection) : Except StorageError Unit × Connection :=
  (recoverAutocommitIfNeeded conn).begin "transaction BEGIN"

/-- `SqliteSnapshot::end`, which only logs a failing `ROLLBACK`. -/
def snapshotEnd (conn : Connection) : Connection := conn.rollback.2

/-- `SqliteTransaction::end_rollback`, called by `Drop`. -/
def endRollback (conn : Connection) : Connection := conn.rollback.2

def transactionCommit (conn : Connection) : Except StorageError Unit × Connection :=
  match conn.commit with
  | (true, after) => (.ok (), after)
  | (false, after) => (.error .commitFailed, after.rollback.2)

def transactionRollback (conn : Connection) : Except StorageError Unit × Connection :=
  (if conn.rollback.1 then .ok () else .error (.backend "ROLLBACK"),
    conn.rollback.2)

/-! ## Sequences of calls -/

inductive Handle where
  | none
  | snapshot
  | transaction
  deriving DecidableEq, Repr

/-- The calls of the traits `Storage`, `StorageSnapshot` and
`StorageTransaction`; `drop` is the end of a handle's scope. -/
inductive Call where
  | get (key : Bytes)
  | put (key value : Bytes)
  | delete (key : Bytes)
  | scan (stem : Bytes)
  | snapshot
  | transaction
  | commit
  | rollback
  | drop
  deriving DecidableEq, Repr

inductive Answer where
  | value (result : Except StorageError (Option Bytes))
  | rows (result : Except StorageError (List (Bytes × Bytes)))
  | done (result : Except StorageError Unit)
  | dropped

structure Session where
  connection : Connection
  handle : Handle

def Session.opened (durable : Table) (outcomes : Outcomes) : Session :=
  ⟨.opened durable outcomes, .none⟩

def Handle.acquired (handle : Handle) : Except StorageError Unit → Handle
  | .ok () => handle
  | .error _ => .none

/-- One call; `none` if the trait of the handle has no such method, or the call
would wait for the mutex which the handle holds. -/
def Session.call (session : Session) : Call → Option (Answer × Session)
  | .get key =>
    let context := match session.handle with
      | .none => "query get"
      | .snapshot => "snapshot get"
      | .transaction => "tx get"
    let (result, after) := session.connection.onView (get context key)
    some (.value result, ⟨after, session.handle⟩)
  | .put key value =>
    match session.handle with
    | .none =>
      let (result, after) :=
        session.connection.onView (put "execute put" key value)
      some (.done result, ⟨after, .none⟩)
    | .snapshot => none
    | .transaction =>
      let (result, after) :=
        session.connection.onView (put "tx put" key value)
      some (.done result, ⟨after, .transaction⟩)
  | .delete key =>
    match session.handle with
    | .none =>
      let (result, after) :=
        session.connection.onView (delete "execute delete" key)
      some (.done result, ⟨after, .none⟩)
    | .snapshot => none
    | .transaction =>
      let (result, after) :=
        session.connection.onView (delete "tx delete" key)
      some (.done result, ⟨after, .transaction⟩)
  | .scan stem =>
    match session.handle with
    | .transaction => none
    | handle =>
      let (result, after) := session.connection.onView (scanWithConn stem)
      some (.rows result, ⟨after, handle⟩)
  | .snapshot =>
    match session.handle with
    | .none =>
      let (result, after) := Sqlite.snapshot session.connection
      some (.done result, ⟨after, Handle.snapshot.acquired result⟩)
    | _ => none
  | .transaction =>
    match session.handle with
    | .none =>
      let (result, after) := Sqlite.transaction session.connection
      some (.done result, ⟨after, Handle.transaction.acquired result⟩)
    | _ => none
  | .commit =>
    match session.handle with
    | .transaction =>
      let (result, after) := transactionCommit session.connection
      some (.done result, ⟨after, .none⟩)
    | _ => none
  | .rollback =>
    match session.handle with
    | .transaction =>
      let (result, after) := transactionRollback session.connection
      some (.done result, ⟨after, .none⟩)
    | _ => none
  | .drop =>
    match session.handle with
    | .none => none
    | .snapshot => some (.dropped, ⟨snapshotEnd session.connection, .none⟩)
    | .transaction => some (.dropped, ⟨endRollback session.connection, .none⟩)

end Sqlite

end Canon
