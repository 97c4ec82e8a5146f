import Canon.IdentityIngest

/-!
# The records of the ingestor and their replay

The ingestor keeps a list of records, one for each event it has dealt with and one for
each block it has finished, and replays the list when it is started.  The assignments of
actor ids are collected by id and handed to an empty address book in the order of the
ids.
-/

namespace Canon
namespace Ingest

open Function List

structure ForwardedKey where
  blockHash : Bytes32
  txHash : Bytes32
  logIndex : UInt64
  deriving DecidableEq

structure AddressAssignment where
  address : Bytes
  actorId : ActorId
  deriving DecidableEq

inductive StateRecord where
  | forwarded (blockHash txHash : Bytes) (logIndex : UInt64)
  | confirmed (blockNumber : UInt64)
  | addressAssigned (address : Bytes) (actorId : ActorId)
  | nonceProgressed (nextNonce : Nonce)
  | submitted (blockHash txHash : Bytes) (logIndex : UInt64)
      (nextNonce : Nonce) (assigned : Option AddressAssignment)
  deriving DecidableEq

inductive StateError where
  | io (error : String)
  | malformed (lineNumber : ℕ) (message : String)
  deriving DecidableEq

structure WatcherState where
  lastConfirmedBlock : Option UInt64
  forwarded : Finset ForwardedKey
  addressBook : AddressBook
  nextNonce : Nonce

def WatcherState.default : WatcherState where
  lastConfirmedBlock := none
  forwarded := ∅
  addressBook := .new
  nextNonce := 0

/-! ## The replay -/

structure Replay where
  state : WatcherState
  pendingAssignments : Std.ExtTreeMap ActorId Address

namespace Replay

def start : Replay := ⟨.default, ∅⟩

def debugAddress (address : Address) : String :=
  "EthAddress([" ++ ", ".intercalate
    ((beBytes 20 address.toNat).map fun byte => toString byte.toNat) ++ "])"

def readHash (bytes : Bytes) (lineNumber : ℕ) (message : String) : Except StateError Bytes32 :=
  if hlength : bytes.length = 32 then .ok ⟨bytes, hlength⟩
  else .error (.malformed lineNumber message)

def readAddress (bytes : Bytes) (lineNumber : ℕ) (message : String) : Except StateError Address :=
  if bytes.length = 20 then .ok (BitVec.ofNat 160 (beValue bytes))
  else .error (.malformed lineNumber message)

def insertForwarded (replay : Replay) (lineNumber : ℕ)
    (blockHash txHash : Bytes) (logIndex : UInt64) : Except StateError Replay := do
  let bh ← readHash blockHash lineNumber "block_hash must be 32 bytes"
  let th ← readHash txHash lineNumber "tx_hash must be 32 bytes"
  return { replay with state := { replay.state with
    forwarded := insert ⟨bh, th, logIndex⟩ replay.state.forwarded } }

def raiseNonce (replay : Replay) (nextNonce : Nonce) : Replay :=
  if replay.state.nextNonce < nextNonce then
    { replay with state := { replay.state with nextNonce := nextNonce } }
  else replay

def insertAssignment (replay : Replay) (lineNumber : ℕ) (address : Bytes)
    (actorId : ActorId) (message : String) : Except StateError Replay := do
  let addr ← readAddress address lineNumber message
  match replay.pendingAssignments[actorId]? with
  | some prior =>
    if prior ≠ addr then
      .error (.malformed lineNumber
        ("duplicate actor_id " ++ toString actorId ++
          " with conflicting addresses " ++ debugAddress prior ++ " and " ++
            debugAddress addr))
    else return { replay with
      pendingAssignments := replay.pendingAssignments.insert actorId addr }
  | none => return { replay with
      pendingAssignments := replay.pendingAssignments.insert actorId addr }

def apply (replay : Replay) (lineNumber : ℕ) : StateRecord → Except StateError Replay
  | .forwarded blockHash txHash logIndex =>
    replay.insertForwarded lineNumber blockHash txHash logIndex
  | .confirmed blockNumber =>
    .ok { replay with state := { replay.state with
      lastConfirmedBlock := some blockNumber } }
  | .addressAssigned address actorId =>
    replay.insertAssignment lineNumber address actorId
      "address must be 20 bytes"
  | .nonceProgressed nextNonce => .ok (replay.raiseNonce nextNonce)
  | .submitted blockHash txHash logIndex nextNonce assigned => do
      let replay ← replay.insertForwarded lineNumber blockHash txHash logIndex
      let replay := replay.raiseNonce nextNonce
      match assigned with
      | none => return replay
      | some assignment =>
        replay.insertAssignment lineNumber assignment.address
          assignment.actorId "submitted.assigned.address must be 20 bytes"

def applyAll (replay : Replay) (lineNumber : ℕ) : List StateRecord → Except StateError Replay
  | [] => .ok replay
  | record :: rest => do
      let next ← replay.apply lineNumber record
      next.applyAll (lineNumber + 1) rest

def overflowMessage : String :=
  "address-book counter overflow: next_actor_id reached u64::MAX"

def rebuild (book : AddressBook) : List (ActorId × Address) → Except StateError AddressBook
  | [] => .ok book
  | (id, addr) :: rest =>
    match book.tryAssign addr with
    | .error _ => .error (.malformed 0
        ("address_book replay overflow at id " ++ toString id ++ ": " ++
          overflowMessage))
    | .ok (assignedId, next) =>
      if assignedId ≠ id then
        .error (.malformed 0
          ("address_book replay: address " ++ debugAddress addr ++
            " expected actor_id " ++ toString id ++ " but assigned " ++
              toString assignedId ++ " (state file gap or duplicate)"))
      else rebuild next rest

def finish (replay : Replay) : Except StateError WatcherState := do
  let addressBook ← rebuild replay.state.addressBook replay.pendingAssignments.toList
  return { replay.state with addressBook := addressBook }

end Replay

def replayRecords (records : List StateRecord) : Except StateError WatcherState := do
  let replay ← Replay.start.applyAll 1 records
  replay.finish

/-! ## Books filled in order -/

instance : LawfulBEq Address := inferInstance

def bookOf (addresses : List Address) : AddressBook where
  forward := fun address =>
    if address ∈ addresses then
      some (UInt64.ofNat (addresses.idxOf address + 1))
    else none
  reverse := fun id => if id = 0 then none else addresses[id.toNat - 1]?
  nextActorId := UInt64.ofNat (addresses.length + 1)

theorem bookOf_nil : bookOf [] = .new := by
  simp [bookOf, AddressBook.new]

section Books

variable {addresses : List Address} {address : Address}

theorem lookup_bookOf_of_mem (hmem : address ∈ addresses) :
    (bookOf addresses).lookup address = some (UInt64.ofNat (addresses.idxOf address + 1)) :=
  if_pos hmem

theorem lookup_bookOf_of_notMem (hmem : address ∉ addresses) :
    (bookOf addresses).lookup address = none := if_neg hmem

theorem forward_bookOf_concat (hmem : address ∉ addresses) :
    (bookOf (addresses ++ [address])).forward = update (bookOf addresses).forward address
        (some (UInt64.ofNat (addresses.length + 1))) := by
  funext other
  by_cases hother : other = address
  · subst hother
    simp [bookOf, idxOf_append_of_notMem hmem]
  · rw [update_of_ne hother]
    by_cases hknown : other ∈ addresses
    · simp [bookOf, hknown, idxOf_append_of_mem hknown]
    · simp [bookOf, hknown, hother]

theorem reverse_bookOf_concat (hroom : addresses.length + 1 < 2 ^ 64) :
    (bookOf (addresses ++ [address])).reverse = update (bookOf addresses).reverse
        (UInt64.ofNat (addresses.length + 1)) (some address) := by
  have hnat : (UInt64.ofNat (addresses.length + 1)).toNat =
      addresses.length + 1 := UInt64.toNat_ofNat_of_lt' hroom
  funext id
  by_cases hnew : id = UInt64.ofNat (addresses.length + 1)
  · have hzero : id ≠ 0 := by
      intro heq
      rw [hnew] at heq
      rw [heq] at hnat
      simp at hnat
    rw [hnew, update_self]
    simp only [bookOf, hnew ▸ hzero, if_false, hnat]
    simp
  · rw [update_of_ne hnew]
    have hindex : id.toNat ≠ addresses.length + 1 := fun heq =>
      hnew (UInt64.toNat_inj.mp (heq.trans hnat.symm))
    by_cases hzero : id = 0
    · simp [bookOf, hzero]
    · have hpos : id.toNat ≠ 0 := fun heq => hzero (UInt64.toNat_inj.mp heq)
      simp only [bookOf, hzero, if_false]
      by_cases hlt : id.toNat - 1 < addresses.length
      · rw [List.getElem?_append_left hlt]
      · rw [List.getElem?_eq_none (by simp; omega), List.getElem?_eq_none (by omega)]

theorem reverse_bookOf_iff {id : ActorId} (hroom : addresses.length < 2 ^ 64) :
    (bookOf addresses).reverse id = some address ↔
      ∃ i, id = UInt64.ofNat (i + 1) ∧ addresses[i]? = some address := by
  by_cases hzero : id = 0
  · rw [hzero]
    constructor
    · intro hnone
      cases hnone
    · rintro ⟨i, hid, haddress⟩
      have hi := (List.getElem?_eq_some_iff.mp haddress).1
      have hnat := congrArg UInt64.toNat hid
      rw [UInt64.toNat_ofNat_of_lt' (show i + 1 < 2 ^ 64 by omega), UInt64.toNat_zero] at hnat
      omega
  · have hpositive : id.toNat ≠ 0 := fun heq => hzero (UInt64.toNat_inj.mp heq)
    simp only [bookOf, hzero, if_false]
    constructor
    · intro haddress
      refine ⟨id.toNat - 1, ?_, haddress⟩
      rw [Nat.sub_add_cancel (by omega), UInt64.ofNat_toNat]
    · rintro ⟨i, rfl, haddress⟩
      have hi := (List.getElem?_eq_some_iff.mp haddress).1
      rwa [UInt64.toNat_ofNat_of_lt' (show i + 1 < 2 ^ 64 by omega), Nat.add_sub_cancel]

theorem tryAssign_bookOf (hmem : address ∉ addresses) (hroom : addresses.length + 2 < 2 ^ 64) :
    (bookOf addresses).tryAssign address =
      .ok (UInt64.ofNat (addresses.length + 1), bookOf (addresses ++ [address])) := by
  have hnat : (bookOf addresses).nextActorId.toNat = addresses.length + 1 :=
    UInt64.toNat_ofNat_of_lt' (show addresses.length + 1 < 2 ^ 64 by omega)
  have hbook : bookOf (addresses ++ [address]) = {
      forward := update (bookOf addresses).forward address (some (bookOf addresses).nextActorId)
      reverse := update (bookOf addresses).reverse (bookOf addresses).nextActorId (some address)
      nextActorId := (bookOf addresses).nextActorId + 1 } := by
    have hnext : (bookOf (addresses ++ [address])).nextActorId =
        (bookOf addresses).nextActorId + 1 := by
      simp only [bookOf, length_append, length_singleton]
      exact UInt64.ofNat_add _ 1
    have hreverse := @reverse_bookOf_concat addresses address (by omega)
    rw [AddressBook.mk.injEq]
    exact ⟨forward_bookOf_concat hmem, hreverse, hnext⟩
  rw [AddressBook.tryAssign, show (bookOf addresses).forward address = none
    from lookup_bookOf_of_notMem hmem, hbook]
  simp only [hnat]
  rw [if_pos hroom]
  rfl

theorem tryAssign_bookOf_full (hmem : address ∉ addresses) (hfull : addresses.length + 2 = 2 ^ 64) :
    (bookOf addresses).tryAssign address = .error .overflow := by
  have hnat : (bookOf addresses).nextActorId.toNat = addresses.length + 1 :=
    UInt64.toNat_ofNat_of_lt' (show addresses.length + 1 < 2 ^ 64 by omega)
  rw [AddressBook.tryAssign, show (bookOf addresses).forward address = none
    from lookup_bookOf_of_notMem hmem]
  rw [if_neg (by omega)]

theorem commitAssignment_bookOf (hmem : address ∉ addresses)
    (hroom : addresses.length + 2 < 2 ^ 64) :
    commitAssignment (bookOf addresses) address (UInt64.ofNat (addresses.length + 1)) =
      .ok (UInt64.ofNat (addresses.length + 1), bookOf (addresses ++ [address])) := by
  rw [commitAssignment, tryAssign_bookOf hmem hroom, ok_bind]
  simp only
  rw [revertIf_of_not (by simp), ok_bind]
  rfl

theorem commitAssignment_bookOf_full (hmem : address ∉ addresses)
    (hfull : addresses.length + 2 = 2 ^ 64) (expectedId : ActorId) :
    commitAssignment (bookOf addresses) address expectedId = .error .overflow := by
  rw [commitAssignment, tryAssign_bookOf_full hmem hfull]
  rfl

end Books

/-! ## What the replay restores -/

def numbered : ℕ → List Address → List (ActorId × Address)
  | _, [] => []
  | first, address :: rest =>
    (UInt64.ofNat first, address) :: numbered (first + 1) rest

variable {addresses : List Address}

theorem mem_numbered {first : ℕ} {entry : ActorId × Address} :
    entry ∈ numbered first addresses ↔
      ∃ i, entry.1 = UInt64.ofNat (first + i) ∧ addresses[i]? = some entry.2 := by
  induction addresses generalizing first with
  | nil => simp [numbered]
  | cons address _ ih =>
    rw [numbered, mem_cons, ih]
    constructor
    · rintro (rfl | ⟨i, hid, haddress⟩)
      · exact ⟨0, rfl, rfl⟩
      · refine ⟨i + 1, ?_, haddress⟩
        rw [hid, Nat.add_assoc, Nat.add_comm 1]
    · rintro ⟨i, hid, haddress⟩
      cases i with
      | zero =>
        left
        have hsame : address = entry.2 := by simpa using haddress
        rw [hsame]
        exact Prod.ext hid rfl
      | succ i =>
        refine .inr ⟨i, ?_, by simpa using haddress⟩
        rw [hid, Nat.add_assoc, Nat.add_comm 1]

theorem pairwise_numbered {first : ℕ} {addresses : List Address}
    (hroom : first + addresses.length ≤ 2 ^ 64) :
    (numbered first addresses).Pairwise fun entry later =>
      compare entry.1 later.1 = .lt := by
  induction addresses generalizing first with
  | nil => exact .nil
  | cons _ _ ih =>
    rw [length_cons] at hroom
    refine .cons ?_ (ih (by omega))
    intro later hlater
    obtain ⟨i, hid, haddress⟩ := mem_numbered.mp hlater
    have hi := (List.getElem?_eq_some_iff.mp haddress).1
    rw [Std.compare_eq_lt, hid, UInt64.ofNat_lt_iff_lt
      (show first < 2 ^ 64 by omega) (show first + 1 + i < 2 ^ 64 by omega)]
    omega

theorem rebuild_numbered {front rest : List Address} (hnodup : (front ++ rest).Nodup)
    (hroom : (front ++ rest).length + 1 < 2 ^ 64) :
    Replay.rebuild (bookOf front) (numbered (front.length + 1) rest) =
      .ok (bookOf (front ++ rest)) := by
  induction rest generalizing front with
  | nil => rw [append_nil]; rfl
  | cons address rest ih =>
    have happend : front ++ address :: rest = front ++ [address] ++ rest := by
      simp
    have hfresh : address ∉ front := fun hmem =>
      (nodup_append.mp hnodup).2.2 address hmem address mem_cons_self rfl
    rw [length_append, length_cons] at hroom
    have hassign := tryAssign_bookOf hfresh (by omega)
    have hrest := @ih (front ++ [address]) (happend ▸ hnodup) (by simp; omega)
    rw [numbered, Replay.rebuild, hassign, happend, ← hrest]
    simp

theorem numbered_append (first : ℕ) (front rest : List Address) :
    numbered first (front ++ rest) =
      numbered first front ++ numbered (first + front.length) rest := by
  induction front generalizing first with
  | nil => rfl
  | cons _ _ ih =>
    rw [cons_append, numbered, numbered, ih, cons_append,
      length_cons, Nat.add_assoc, Nat.add_comm 1]

theorem rebuild_append (book : AddressBook) (front rest : List (ActorId × Address)) :
    Replay.rebuild book (front ++ rest) =
      (Replay.rebuild book front >>= fun next => Replay.rebuild next rest) := by
  induction front generalizing book with
  | nil => rfl
  | cons entry _ ih =>
    simp only [cons_append, Replay.rebuild]
    cases book.tryAssign entry.2 with
    | error => rfl
    | ok assigned =>
      simp only
      split_ifs
      · rfl
      · exact ih assigned.2

def Replay.Collects (replay : Replay) (addresses : List Address) : Prop :=
  ∀ id, replay.pendingAssignments[id]? = (bookOf addresses).reverse id

theorem Replay.Collects.toList {replay : Replay} (hcollects : replay.Collects addresses)
    (hroom : addresses.length + 1 ≤ 2 ^ 64) :
    replay.pendingAssignments.toList = numbered 1 addresses := by
  have hsorted : replay.pendingAssignments.toList.Pairwise fun entry later =>
      compare entry.1 later.1 = .lt := Std.ExtTreeMap.ordered_keys_toList
  have hnumbered := @pairwise_numbered 1 addresses (by omega)
  have hirrefl : ∀ entries : List (ActorId × Address),
      entries.Pairwise (fun entry later => compare entry.1 later.1 = .lt) → entries.Nodup := by
    intro entries hpairs
    apply hpairs.imp
    intro entry later hlt heq
    rw [heq, Std.compare_eq_lt] at hlt
    exact UInt64.lt_irrefl _ hlt
  refine List.Perm.eq_of_pairwise ?_ hsorted hnumbered ?_
  · intro entry later _ _ hlt hgt
    rw [Std.compare_eq_lt] at hlt hgt
    exact absurd hgt (UInt64.lt_asymm hlt)
  · rw [perm_ext_iff_of_nodup (hirrefl _ hsorted) (hirrefl _ hnumbered)]
    rintro ⟨id, address⟩
    rw [Std.ExtTreeMap.mem_toList_iff_getElem?_eq_some, hcollects id, mem_numbered]
    rw [reverse_bookOf_iff (by omega)]
    simp only [Nat.add_comm 1]

/-- The records are those of a run in which the addresses were registered in this
order and which ended in the state. -/
structure Restores (records : List StateRecord) (addresses : List Address)
    (state : WatcherState) : Prop where
  replayed : ∃ replay, Replay.start.applyAll 1 records = .ok replay ∧ replay.Collects addresses ∧
    replay.state = { state with addressBook := .new }
  book : state.addressBook = bookOf addresses
  nodup : addresses.Nodup
  room : addresses.length + 1 < 2 ^ 64

theorem Restores.replays {records : List StateRecord} {state : WatcherState}
    (hrestores : Restores records addresses state) : replayRecords records = .ok state := by
  obtain ⟨⟨replay, hreplay, hcollects, hstate⟩, hbook, hnodup, hroom⟩ := hrestores
  have hrebuild : Replay.rebuild replay.state.addressBook
      replay.pendingAssignments.toList = .ok (bookOf addresses) := by
    rw [hcollects.toList (by omega), hstate, ← bookOf_nil]
    exact @rebuild_numbered [] addresses hnodup hroom
  rw [replayRecords, hreplay, ok_bind, Replay.finish, hrebuild, ok_bind, hstate, ← hbook]
  rfl

theorem Restores.start : Restores [] [] .default where
  replayed := by
    refine ⟨.start, rfl, ?_, rfl⟩
    intro id
    rw [bookOf_nil]
    exact Std.ExtTreeMap.getElem?_empty
  book := bookOf_nil.symm
  nodup := .nil
  room := by simp

/-! ## One more record -/

theorem Replay.applyAll_concat (replay : Replay) (lineNumber : ℕ)
    (records : List StateRecord) (record : StateRecord) :
    replay.applyAll lineNumber (records ++ [record]) =
      (replay.applyAll lineNumber records >>= fun next =>
        next.apply (lineNumber + records.length) record) := by
  induction records generalizing replay lineNumber with
  | nil =>
    simp only [nil_append, Replay.applyAll, ok_bind, length_nil, Nat.add_zero]
    cases replay.apply lineNumber record <;> rfl
  | cons first _ ih =>
    simp only [cons_append, Replay.applyAll]
    cases replay.apply lineNumber first with
    | error => rfl
    | ok next =>
      simp only [ok_bind]
      rw [ih next (lineNumber + 1), length_cons, Nat.add_assoc, Nat.add_comm 1]

theorem Replay.readHash_toBytes (word : Bytes32) (lineNumber : ℕ) (message : String) :
    Replay.readHash word.toBytes lineNumber message = .ok word := dif_pos word.length_toBytes

theorem Replay.readAddress_beBytes (address : Address) (lineNumber : ℕ) (message : String) :
    Replay.readAddress (beBytes 20 address.toNat) lineNumber message = .ok address := by
  have hlt : address.toNat < 256 ^ 20 := address.isLt
  rw [Replay.readAddress, if_pos (beBytes_length _ _),
    beValue_beBytes 20 _ hlt, BitVec.ofNat_toNat, BitVec.setWidth_eq]

def submittedRecord (key : ForwardedKey) (nextNonce : Nonce)
    (assigned : Option (Address × ActorId)) : StateRecord :=
  .submitted key.blockHash.toBytes key.txHash.toBytes key.logIndex nextNonce
    (assigned.map fun entry => ⟨beBytes 20 entry.1.toNat, entry.2⟩)

def forwardedRecord (key : ForwardedKey) : StateRecord :=
  .forwarded key.blockHash.toBytes key.txHash.toBytes key.logIndex

namespace Restores

variable {records : List StateRecord} {addresses : List Address} {state : WatcherState}
  {nextNonce : Nonce}

theorem confirmed (hrestores : Restores records addresses state) (blockNumber : UInt64) :
    Restores (records ++ [.confirmed blockNumber]) addresses
      { state with lastConfirmedBlock := some blockNumber } where
  replayed := by
    obtain ⟨replay, hreplay, hcollects, hstate⟩ := hrestores.replayed
    refine ⟨{ replay with state := { replay.state with
      lastConfirmedBlock := some blockNumber } }, ?_, hcollects, ?_⟩
    · rw [Replay.applyAll_concat, hreplay]
      rfl
    · rw [hstate]
  book := hrestores.book
  nodup := hrestores.nodup
  room := hrestores.room

theorem insertForwarded_key (replay : Replay) (lineNumber : ℕ) (key : ForwardedKey) :
    replay.insertForwarded lineNumber key.blockHash.toBytes key.txHash.toBytes key.logIndex =
      .ok { replay with state := { replay.state with
        forwarded := insert key replay.state.forwarded } } := by
  rw [Replay.insertForwarded, Replay.readHash_toBytes, ok_bind, Replay.readHash_toBytes, ok_bind]
  rfl

theorem forwarded (hrestores : Restores records addresses state) (key : ForwardedKey) :
    Restores (records ++ [forwardedRecord key]) addresses
      { state with forwarded := insert key state.forwarded } where
  replayed := by
    obtain ⟨replay, hreplay, hcollects, hstate⟩ := hrestores.replayed
    refine ⟨{ replay with state := { replay.state with
      forwarded := insert key replay.state.forwarded } }, ?_, hcollects, ?_⟩
    · rw [Replay.applyAll_concat, hreplay, ok_bind]
      exact insertForwarded_key ..
    · rw [hstate]
  book := hrestores.book
  nodup := hrestores.nodup
  room := hrestores.room

theorem replaced (hrestores : Restores records addresses state) (key : ForwardedKey)
    (hnonce : state.nextNonce < nextNonce) :
    Restores (records ++ [submittedRecord key nextNonce none]) addresses
      { state with
        forwarded := insert key state.forwarded
        nextNonce := nextNonce } where
  replayed := by
    obtain ⟨replay, hreplay, hcollects, hstate⟩ := hrestores.replayed
    refine ⟨{ replay with state := { replay.state with
      forwarded := insert key replay.state.forwarded
      nextNonce := nextNonce } }, ?_, hcollects, ?_⟩
    · have hraise : replay.state.nextNonce < nextNonce := by
        rw [hstate]
        exact hnonce
      rw [Replay.applyAll_concat, hreplay, ok_bind, submittedRecord,
        Replay.apply, insertForwarded_key, ok_bind]
      simp only [Replay.raiseNonce, hraise, if_true, Option.map_none]
      rfl
    · rw [hstate]
  book := hrestores.book
  nodup := hrestores.nodup
  room := hrestores.room

theorem replayed_registered (hrestores : Restores records addresses state) (key : ForwardedKey)
    (hnonce : state.nextNonce < nextNonce) (address : Address) :
    ∃ replay, Replay.start.applyAll 1 (records ++ [submittedRecord key nextNonce
        (some (address, UInt64.ofNat (addresses.length + 1)))]) = .ok replay ∧
      replay.Collects (addresses ++ [address]) ∧ replay.state = { state with
        forwarded := insert key state.forwarded
        nextNonce := nextNonce
        addressBook := .new } := by
  obtain ⟨replay, hreplay, hcollects, hstate⟩ := hrestores.replayed
  have hroom := hrestores.room
  have hraise : replay.state.nextNonce < nextNonce := by
    rw [hstate]
    exact hnonce
  have hnat : (UInt64.ofNat (addresses.length + 1)).toNat =
      addresses.length + 1 := UInt64.toNat_ofNat_of_lt' hroom
  have hzero : UInt64.ofNat (addresses.length + 1) ≠ 0 := by
    intro heq
    rw [heq, UInt64.toNat_zero] at hnat
    omega
  have hunused : replay.pendingAssignments[UInt64.ofNat (addresses.length + 1)]? = none := by
    rw [hcollects]
    simp only [bookOf, hzero, if_false, hnat]
    simp
  refine ⟨{
    state := { replay.state with
      forwarded := insert key replay.state.forwarded
      nextNonce := nextNonce }
    pendingAssignments := replay.pendingAssignments.insert
      (UInt64.ofNat (addresses.length + 1)) address }, ?_, ?_, ?_⟩
  · rw [Replay.applyAll_concat, hreplay, ok_bind, submittedRecord,
      Replay.apply, insertForwarded_key, ok_bind]
    simp only [Replay.raiseNonce, hraise, if_true, Option.map_some,
      Replay.insertAssignment, Replay.readAddress_beBytes, ok_bind, hunused]
    rfl
  · intro id
    rw [reverse_bookOf_concat hroom, update_apply, ← hcollects, Std.ExtTreeMap.getElem?_insert]
    simp only [Std.LawfulEqCmp.compare_eq_iff_eq, @eq_comm _ id]
  · rw [hstate]

theorem registered (hrestores : Restores records addresses state)
    (key : ForwardedKey) {nextNonce : Nonce}
    (hnonce : state.nextNonce < nextNonce) {address : Address}
    (hfresh : address ∉ addresses) (hroom : addresses.length + 2 < 2 ^ 64) :
    Restores (records ++ [submittedRecord key nextNonce
        (some (address, UInt64.ofNat (addresses.length + 1)))]) (addresses ++ [address])
      { state with
        forwarded := insert key state.forwarded
        nextNonce := nextNonce
        addressBook := bookOf (addresses ++ [address]) } where
  replayed := hrestores.replayed_registered key hnonce address
  book := rfl
  nodup := by
    rw [← concat_eq_append]
    exact hrestores.nodup.concat hfresh
  room := by
    rw [length_append, length_singleton]
    omega

theorem exhausted (hrestores : Restores records addresses state) (key : ForwardedKey)
    (hnonce : state.nextNonce < nextNonce) {address : Address} (hfresh : address ∉ addresses)
    (hfull : addresses.length + 2 = 2 ^ 64) :
    ∃ error, replayRecords (records ++ [submittedRecord key nextNonce
      (some (address, UInt64.ofNat (addresses.length + 1)))]) = .error error := by
  obtain ⟨replay, hreplay, hcollects, hstate⟩ := hrestores.replayed_registered key hnonce address
  have hlist := hcollects.toList (by simp; omega)
  have hfront := @rebuild_numbered [] addresses hrestores.nodup hrestores.room
  have hrebuild : ∃ error, Replay.rebuild .new
      (numbered 1 (addresses ++ [address])) = .error error := by
    rw [numbered_append, rebuild_append]
    rw [bookOf_nil] at hfront
    rw [show Replay.rebuild .new (numbered 1 addresses) =
      .ok (bookOf addresses) from hfront, ok_bind]
    simp only [numbered, Replay.rebuild, tryAssign_bookOf_full hfresh hfull]
    exact ⟨_, rfl⟩
  obtain ⟨error, hrebuild⟩ := hrebuild
  refine ⟨error, ?_⟩
  rw [replayRecords, hreplay, ok_bind, Replay.finish, hstate, hlist]
  simp only [hrebuild]
  rfl

end Restores

end Ingest
end Canon
