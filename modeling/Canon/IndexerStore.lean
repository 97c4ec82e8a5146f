import Canon.SqliteStorage

/-!
# The indexer's balances and cursor

The indexer keeps, in one key-value store, a cell for every pair of an actor and a
resource, the number of the last batch it has applied, and its own name.  The cursor is
also kept in memory; when a commit reports an error it is read again from the store, and
when that fails as well the indexer refuses every further batch.
-/

namespace Canon

namespace Indexing

open Sqlite

abbrev ActorId := UInt64

abbrev ResourceId := UInt64

/-- A `u128`. -/
abbrev Amount := BitVec 128

abbrev Nonce := BitVec 128

inductive Event where
  | balanceChanged (resource : ResourceId) (actor : ActorId) (oldValue newValue : Amount)
  | nonceAdvanced (actor : ActorId) (oldNonce newNonce : Nonce)
  | identityRegistered (actor : ActorId) (key : Bytes)
  | identityRevoked (actor : ActorId)
  | timeRecorded (time : UInt64)
  | disputeFiled (challenger : ActorId) (targetIdx : UInt64)
  | disputeWithdrawn (disputeIdx : UInt64)
  | verdictApplied (disputeIdx outcomeTag : UInt64)
  | rewardIssued (resource : ResourceId) (recipient : ActorId) (amount : Amount)
  | withdrawalRequested (resource : ResourceId) (sender : ActorId)
      (amount : Amount) (recipientL1 : Address) (withdrawalId : UInt64)
  | depositCredited (resource : ResourceId) (recipient : ActorId)
      (amount : Amount) (depositId : UInt64)
  | localPolicyDeclared (actor : ActorId) (policy : Bytes)
  | localPolicyRevoked (actor : ActorId)
  | faultProofGameOpened (gameId : UInt64) (challenger : ActorId)
      (disputedStartIdx disputedEndIdx : UInt64) (bindingHash : Bytes)
  | faultProofBisectionStep (gameId round : UInt64) (party : ActorId)
      (idx : UInt64) (commit : Bytes)
  | faultProofGameSettled (gameId : UInt64) (winner loser : ActorId) (payout : Amount)
  deriving DecidableEq, Repr

/-! ## The cursor cell -/

inductive CursorError where
  | storage (error : StorageError)
  | nonMonotonicAdvance (current attempted : UInt64)
  | corruptCell (expected actual : ℕ)
  | identifierMismatch (expected found : String)
  | identifierNotUtf8 (bytesLen : ℕ) (previewHex : String)
  deriving DecidableEq, Repr

def cursorKey : Bytes :=
  "c/cursor".toUTF8.toList

def identifierKey : Bytes :=
  "c/identifier".toUTF8.toList

def indexerIdentifier : String :=
  "canon-indexer/v1"

def cursorValueLen : ℕ := 8

def decodeCursor : Option Bytes → Except CursorError UInt64
  | none => .ok 0
  | some bytes =>
    if bytes.length = cursorValueLen then .ok (UInt64.ofNat (beValue bytes))
    else .error (.corruptCell cursorValueLen bytes.length)

def readCursor : ViewM CursorError UInt64 := do
  let cell ← ExceptT.adapt CursorError.storage (get "query get" cursorKey)
  Fallible.ofExcept (decodeCursor cell)

def advanceCursorInTx (newValue : UInt64) : ViewM CursorError Unit := do
  let cell ← ExceptT.adapt CursorError.storage (get "tx get" cursorKey)
  let current ← Fallible.ofExcept (decodeCursor cell)
  if newValue < current then
    throw (.nonMonotonicAdvance current newValue)
  else
    ExceptT.adapt CursorError.storage
      (put "tx put" cursorKey (beBytes cursorValueLen newValue.toNat))

def hexByte (byte : UInt8) : String := String.ofList [Nat.digitChar (byte.toNat / 16),
    Nat.digitChar (byte.toNat % 16)]

def hexPreview (bytes : Bytes) : String := String.join ((bytes.take 32).map hexByte) ++
    if 32 < bytes.length then "..." else ""

def ensureIdentifier (expected : String) : ViewM CursorError Unit := do
  let cell ← ExceptT.adapt CursorError.storage (get "query get" identifierKey)
  match cell with
  | none =>
    ExceptT.adapt CursorError.storage
      (put "execute put" identifierKey expected.toUTF8.toList)
  | some bytes =>
    match String.fromUTF8? ⟨bytes.toArray⟩ with
    | none => throw (.identifierNotUtf8 bytes.length (hexPreview bytes))
    | some found =>
      if found = expected then pure ()
      else throw (.identifierMismatch expected found)

/-! ## The balance cells -/

inductive BalanceError where
  | storage (error : StorageError)
  | creditOverflow (actor : ActorId) (resource : ResourceId) (delta : Amount)
  | debitUnderflow (actor : ActorId) (resource : ResourceId) (current delta : Amount)
  | corruptCell (actor : ActorId) (resource : ResourceId) (expected actual : ℕ)
  deriving DecidableEq, Repr

def balanceKeyPrefix : Bytes :=
  "b/".toUTF8.toList

def balanceValueLen : ℕ := 16

def balanceKey (actor : ActorId) (resource : ResourceId) : Bytes :=
  balanceKeyPrefix ++ beBytes 8 actor.toNat ++ beBytes 8 resource.toNat

def decodeCell (actor : ActorId) (resource : ResourceId) : Option Bytes → Except BalanceError Amount
  | none => .ok 0
  | some bytes =>
    if bytes.length = balanceValueLen then
      .ok (BitVec.ofNat 128 (beValue bytes))
    else .error (.corruptCell actor resource balanceValueLen bytes.length)

/-- `checked_add` on `u128`. -/
def Amount.checkedAdd (current delta : Amount) : Option Amount :=
  if current.toNat + delta.toNat < 2 ^ 128 then some (current + delta)
  else none

/-- `checked_sub` on `u128`. -/
def Amount.checkedSub (current delta : Amount) : Option Amount :=
  if delta.toNat ≤ current.toNat then some (current - delta) else none

def Amount.max : Amount := BitVec.ofNat 128 (2 ^ 128 - 1)

namespace BalanceTxView

def get (actor : ActorId) (resource : ResourceId) : ViewM BalanceError Amount := do
  let cell ← ExceptT.adapt BalanceError.storage
    (Sqlite.get "tx get" (balanceKey actor resource))
  Fallible.ofExcept (decodeCell actor resource cell)

def set (actor : ActorId) (resource : ResourceId) (value : Amount) : ViewM BalanceError Unit :=
  ExceptT.adapt BalanceError.storage
    (put "tx put" (balanceKey actor resource)
      (beBytes balanceValueLen value.toNat))

/-- An overflow writes the largest amount before it is reported. -/
def credit (actor : ActorId) (resource : ResourceId) (delta : Amount) :
    ViewM BalanceError Amount := do
  let current ← get actor resource
  match Amount.checkedAdd current delta with
  | some sum => do
      set actor resource sum
      return sum
  | none => do
      set actor resource Amount.max
      throw (.creditOverflow actor resource delta)

def debit (actor : ActorId) (resource : ResourceId) (delta : Amount) :
    ViewM BalanceError Amount := do
  let current ← get actor resource
  match Amount.checkedSub current delta with
  | some diff => do
      set actor resource diff
      return diff
  | none => throw (.debitUnderflow actor resource current delta)

end BalanceTxView

/-! ## Batches -/

inductive DecodeError where
  | truncated (offset expected available : ℕ)
  | badHeadTag (offset : ℕ) (expected actual : UInt8)
  | byteStringTooLong (offset : ℕ) (len cap : UInt64)
  | unknownTag (tag : UInt64)
  | trailingBytes (trailing : ℕ)
  | badByteStringLength (offset expected : ℕ) (actual : UInt64)
  deriving DecidableEq, Repr

inductive IndexerError where
  | storage (error : StorageError)
  | balance (error : BalanceError)
  | cursor (error : CursorError)
  | decode (seq : UInt64) (source : DecodeError)
  | emptyBatch
  | batchTooLarge (size max : ℕ)
  | staleEvent (seq cursor : UInt64)
  | protocolViolation (currentSeq offendingSeq : UInt64)
  | commitAmbiguous (seq diskCursor : UInt64)
  | cursorRecoveryFailed (seq : UInt64) (commitError : StorageError) (cursorError : CursorError)
  | poisoned
  deriving DecidableEq, Repr

def indexerMaxBatchEvents : ℕ := 1024

/-- The pairs whose balance some `BalanceChanged` of the batch states. -/
def changedPairs (events : List Event) : List (ActorId × ResourceId) := events.filterMap fun
    | .balanceChanged resource actor _ _ => some (actor, resource)
    | _ => none

def applySemanticEvent (bcPairs : List (ActorId × ResourceId)) : Event → ViewM BalanceError Unit
  | .rewardIssued resource recipient amount =>
    if (recipient, resource) ∈ bcPairs then pure ()
    else do
      let _ ← BalanceTxView.credit recipient resource amount
      pure ()
  | .withdrawalRequested resource sender amount _ _ =>
    if (sender, resource) ∈ bcPairs then pure ()
    else do
      let _ ← BalanceTxView.debit sender resource amount
      pure ()
  | .depositCredited resource recipient amount _ =>
    if (recipient, resource) ∈ bcPairs then pure ()
    else do
      let _ ← BalanceTxView.credit recipient resource amount
      pure ()
  | _ => pure ()

def applyBalanceChanged : Event → ViewM BalanceError Unit
  | .balanceChanged resource actor _ newValue =>
    BalanceTxView.set actor resource newValue
  | _ => pure ()

/-- What `apply_batch` does between `BEGIN` and `COMMIT`. -/
def stageBatch (seq : UInt64) (events : List Event) : ViewM IndexerError Unit := do
  ExceptT.adapt IndexerError.balance (events.forM (applySemanticEvent (changedPairs events)))
  ExceptT.adapt IndexerError.balance (events.forM applyBalanceChanged)
  ExceptT.adapt IndexerError.cursor (advanceCursorInTx seq)

structure Indexer where
  storage : Connection
  cursor : UInt64
  poisoned : Bool

namespace Indexer

/-- `Indexer::open`: check the name of the indexer, then read the cursor. -/
def «open» (storage : Connection) : Except IndexerError Indexer :=
  match storage.onView (ensureIdentifier indexerIdentifier) with
  | (.error error, _) => .error (.cursor error)
  | (.ok (), named) =>
    match named.onView readCursor with
    | (.error error, _) => .error (.cursor error)
    | (.ok cursor, ready) => .ok ⟨ready, cursor, false⟩

def applyBatch (indexer : Indexer) (seq : UInt64) (events : List Event) :
    Except IndexerError Unit × Indexer :=
  if indexer.poisoned then (.error .poisoned, indexer)
  else if events.isEmpty then (.error .emptyBatch, indexer)
  else if indexerMaxBatchEvents < events.length then
    (.error (.batchTooLarge events.length indexerMaxBatchEvents), indexer)
  else if seq ≤ indexer.cursor then
    (.error (.staleEvent seq indexer.cursor), indexer)
  else
    match transaction indexer.storage with
    | (.error error, storage) =>
      (.error (.storage error), { indexer with storage := storage })
    | (.ok (), begun) =>
      match begun.onView (stageBatch seq events) with
      -- the transaction is dropped, and its `ROLLBACK` may fail
      | (.error error, failed) =>
        (.error error, { indexer with storage := endRollback failed })
      | (.ok (), staged) =>
        match transactionCommit staged with
        | (.ok (), storage) =>
          (.ok (), { indexer with storage := storage, cursor := seq })
        | (.error commitError, storage) =>
          match storage.onView readCursor with
          | (.ok diskCursor, reread) =>
            (.error (if seq ≤ diskCursor then
                .commitAmbiguous seq diskCursor
              else .storage commitError),
              { indexer with storage := reread, cursor := diskCursor })
          | (.error cursorError, reread) =>
            (.error (.cursorRecoveryFailed seq commitError cursorError),
              { indexer with storage := reread, poisoned := true })

end Indexer

end Indexing

end Canon
