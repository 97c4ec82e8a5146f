import Canon.IngestState
import Mathlib.Tactic

/-!
# What a replay accepts

The assignments of the records have to be one to one and use the ids from 1 on without a
gap; their order does not matter, since the replay collects them by id.  One file is
refused although its assignments are of this kind: the book keeps the next id, so the
last of the 64-bit ids cannot be given out.
-/

namespace Canon
namespace Ingest

open List

/-! ## What a record says -/

namespace StateRecord

def WellFormed : StateRecord → Prop
  | .forwarded blockHash txHash _ => blockHash.length = 32 ∧ txHash.length = 32
  | .confirmed _ => True
  | .addressAssigned address _ => address.length = 20
  | .nonceProgressed _ => True
  | .submitted blockHash txHash _ _ assigned =>
    blockHash.length = 32 ∧ txHash.length = 32 ∧
      ∀ assignment ∈ assigned, assignment.address.length = 20

def key? : StateRecord → Option ForwardedKey
  | .forwarded blockHash txHash logIndex
  | .submitted blockHash txHash logIndex _ _ =>
    some ⟨.ofBytes blockHash, .ofBytes txHash, logIndex⟩
  | _ => none

def nonce? : StateRecord → Option Nonce
  | .nonceProgressed nextNonce | .submitted _ _ _ nextNonce _ => some nextNonce
  | _ => none

def confirmed? : StateRecord → Option UInt64
  | .confirmed blockNumber => some blockNumber
  | _ => none

def assignment? : StateRecord → Option (ActorId × Address)
  | .addressAssigned address actorId =>
    some (actorId, BitVec.ofNat 160 (beValue address))
  | .submitted _ _ _ _ (some assignment) =>
    some (assignment.actorId, BitVec.ofNat 160 (beValue assignment.address))
  | _ => none

end StateRecord

def assignmentsOf (records : List StateRecord) : List (ActorId × Address) :=
  records.filterMap StateRecord.assignment?

/-- The assignments are one to one, and the ids are those from 1 to `n`. -/
structure Assignable (assignments : List (ActorId × Address)) (n : ℕ) : Prop where
  functional : ∀ id address other, (id, address) ∈ assignments →
    (id, other) ∈ assignments → address = other
  injective : ∀ id other address, (id, address) ∈ assignments →
    (other, address) ∈ assignments → id = other
  ids : ∀ id : ActorId, (∃ address, (id, address) ∈ assignments) ↔ 1 ≤ id.toNat ∧ id.toNat ≤ n

/-! ## Collecting the records -/

namespace Replay

def note (replay : Replay) (record : StateRecord) : Replay :=
  let state := replay.state
  { replay with state := {
    lastConfirmedBlock := record.confirmed?.or state.lastConfirmedBlock
    forwarded := record.key?.elim state.forwarded (insert · state.forwarded)
    addressBook := state.addressBook
    nextNonce := record.nonce?.elim state.nextNonce fun nonce =>
      if state.nextNonce < nonce then nonce else state.nextNonce } }

def collect (replay : Replay) (id : ActorId) (address : Address) : Replay :=
  { replay with
    pendingAssignments := replay.pendingAssignments.insert id address }

structure Gathers (replay : Replay) (records : List StateRecord) : Prop where
  pending : ∀ id address, replay.pendingAssignments[id]? = some address ↔
    (id, address) ∈ assignmentsOf records
  forwarded : ∀ key, key ∈ replay.state.forwarded ↔ key ∈ records.filterMap StateRecord.key?
  nonce : replay.state.nextNonce ∈ 0 :: records.filterMap StateRecord.nonce? ∧
    ∀ nonce ∈ records.filterMap StateRecord.nonce?, nonce ≤ replay.state.nextNonce
  confirmed : replay.state.lastConfirmedBlock = (records.filterMap StateRecord.confirmed?).getLast?
  book : replay.state.addressBook = .new

theorem gathers_start : Replay.start.Gathers [] where
  pending id address := by
    rw [show Replay.start.pendingAssignments[id]? = none from Std.ExtTreeMap.getElem?_empty]
    simp [assignmentsOf]
  forwarded key := by simp [Replay.start, WatcherState.default]
  nonce := ⟨mem_cons_self, by simp⟩
  confirmed := rfl
  book := rfl

section Step

variable {replay : Replay} {records : List StateRecord} {record : StateRecord} {lineNumber : ℕ}

theorem insertForwarded_wellFormed {blockHash txHash : Bytes} {logIndex : UInt64}
    (hblock : blockHash.length = 32) (htx : txHash.length = 32) :
    replay.insertForwarded lineNumber blockHash txHash logIndex =
      .ok { replay with state := { replay.state with
        forwarded := insert ⟨.ofBytes blockHash, .ofBytes txHash, logIndex⟩
          replay.state.forwarded } } := by
  have hread : ∀ (bytes : Bytes) (message : String), bytes.length = 32 →
      readHash bytes lineNumber message = .ok (.ofBytes bytes) := by
    intro bytes message hlength
    rw [readHash, dif_pos hlength, Except.ok.injEq]
    apply Bytes32.toBytes_injective
    rw [Bytes32.toBytes_ofBytes hlength]
  rw [insertForwarded, hread _ _ hblock, ok_bind, hread _ _ htx, ok_bind]
  rfl

theorem insertAssignment_wellFormed {address : Bytes} (actorId : ActorId)
    (message : String) (hlength : address.length = 20) :
    (∀ prior, replay.pendingAssignments[actorId]? = some prior →
        prior = BitVec.ofNat 160 (beValue address)) ∧
      replay.insertAssignment lineNumber address actorId message =
        .ok (replay.collect actorId (BitVec.ofNat 160 (beValue address))) ∨
    (∃ prior, replay.pendingAssignments[actorId]? = some prior ∧
      prior ≠ BitVec.ofNat 160 (beValue address) ∧
      ∃ error, replay.insertAssignment lineNumber address actorId message = .error error) := by
  rw [insertAssignment, readAddress, if_pos hlength, ok_bind]
  cases hprior : replay.pendingAssignments[actorId]? with
  | none => exact .inl ⟨by simp, rfl⟩
  | some prior =>
    by_cases hsame : prior = BitVec.ofNat 160 (beValue address)
    · refine .inl ⟨?_, ?_⟩
      · rintro _ ⟨⟩
        exact hsame
      · simp only
        rw [if_neg (not_not.mpr hsame)]
        rfl
    · refine .inr ⟨prior, rfl, hsame, ?_⟩
      simp only
      rw [if_pos hsame]
      exact ⟨_, rfl⟩

theorem apply_wellFormed (hrecord : record.WellFormed) :
    (record.assignment? = none ∧ replay.apply lineNumber record = .ok (replay.note record)) ∨
    ∃ id address, record.assignment? = some (id, address) ∧
      ((∀ prior, replay.pendingAssignments[id]? = some prior → prior = address) ∧
        replay.apply lineNumber record = .ok ((replay.note record).collect id address) ∨
      ∃ prior, replay.pendingAssignments[id]? = some prior ∧ prior ≠ address ∧
        ∃ error, replay.apply lineNumber record = .error error) := by
  cases record with
  | forwarded =>
    refine .inl ⟨rfl, ?_⟩
    exact insertForwarded_wellFormed hrecord.1 hrecord.2
  | confirmed => exact .inl ⟨rfl, rfl⟩
  | addressAssigned _ actorId =>
    exact .inr ⟨_, _, rfl, insertAssignment_wellFormed actorId _ hrecord⟩
  | nonceProgressed =>
    refine .inl ⟨rfl, ?_⟩
    rw [apply, raiseNonce, note]
    split_ifs with hraise
    all_goals simp [StateRecord.nonce?, StateRecord.key?, StateRecord.confirmed?, hraise]
  | submitted blockHash txHash logIndex nextNonce assigned =>
    have hnoted : (({ replay with state := { replay.state with
        forwarded := insert ⟨.ofBytes blockHash, .ofBytes txHash, logIndex⟩
          replay.state.forwarded } } : Replay).raiseNonce nextNonce) =
        replay.note (.submitted blockHash txHash logIndex nextNonce assigned) := by
      rw [raiseNonce, note]
      split_ifs with hraise
      all_goals
        simp [StateRecord.nonce?, StateRecord.key?, StateRecord.confirmed?, hraise]
    rw [apply, insertForwarded_wellFormed hrecord.1 hrecord.2.1, ok_bind]
    simp only [hnoted]
    cases assigned with
    | none => exact .inl ⟨rfl, rfl⟩
    | some assignment =>
      have hcollected := @insertAssignment_wellFormed
        (replay.note (.submitted blockHash txHash logIndex nextNonce
          (some assignment))) lineNumber _ assignment.actorId
        "submitted.assigned.address must be 20 bytes"
        (hrecord.2.2 assignment rfl)
      exact .inr ⟨_, _, rfl, hcollected⟩

theorem Gathers.note (hgathers : replay.Gathers records) :
    (replay.note record).state.addressBook = .new ∧
    (∀ key, key ∈ (replay.note record).state.forwarded ↔
      key ∈ (records ++ [record]).filterMap StateRecord.key?) ∧
    ((replay.note record).state.nextNonce ∈
        0 :: (records ++ [record]).filterMap StateRecord.nonce? ∧
      ∀ nonce ∈ (records ++ [record]).filterMap StateRecord.nonce?,
        nonce ≤ (replay.note record).state.nextNonce) ∧
    (replay.note record).state.lastConfirmedBlock =
      ((records ++ [record]).filterMap StateRecord.confirmed?).getLast? := by
  obtain ⟨_, hforwarded, ⟨hnonce, hgreatest⟩, hconfirmed, hbook⟩ := hgathers
  simp only [filterMap_append]
  refine ⟨hbook, ?_, ?_, ?_⟩
  · intro key
    cases hkey : record.key? with
    | none => simp [Replay.note, hkey, hforwarded]
    | some => simp [Replay.note, hkey, hforwarded, or_comm]
  · cases hrecorded : record.nonce? with
    | none =>
      have hnext : (replay.note record).state.nextNonce = replay.state.nextNonce := by
        simp [Replay.note, hrecorded]
      have hlist : [record].filterMap StateRecord.nonce? = [] := by
        simp [hrecorded]
      rw [hnext, hlist, append_nil]
      exact ⟨hnonce, hgreatest⟩
    | some nonce =>
      have hnext : (replay.note record).state.nextNonce =
          if replay.state.nextNonce < nonce then nonce
          else replay.state.nextNonce := by
        simp [Replay.note, hrecorded]
      have hlist : [record].filterMap StateRecord.nonce? = [nonce] := by
        simp [hrecorded]
      rw [hnext, hlist]
      split_ifs with hraise
      · refine ⟨by simp, ?_⟩
        intro other hother
        rcases mem_append.mp hother with hold | hnew
        · exact BitVec.le_trans (hgreatest other hold) (BitVec.le_of_lt hraise)
        · rw [mem_singleton.mp hnew]
          exact BitVec.le_refl nonce
      · refine ⟨?_, ?_⟩
        · rcases mem_cons.mp hnonce with hzero | hold
          · rw [hzero]
            exact mem_cons_self
          · exact mem_cons_of_mem _ (mem_append_left _ hold)
        · intro other hother
          rcases mem_append.mp hother with hold | hnew
          · exact hgreatest other hold
          · rw [mem_singleton.mp hnew]
            exact BitVec.not_lt.mp hraise
  · cases hnumber : record.confirmed? with
    | none => simpa [Replay.note, hnumber] using hconfirmed
    | some => simp [Replay.note, hnumber]

theorem assignmentsOf_concat (records : List StateRecord) (record : StateRecord) :
    assignmentsOf (records ++ [record]) = assignmentsOf records ++ record.assignment?.toList := by
  cases hfound : record.assignment? with
  | none | some => simp [assignmentsOf, hfound]

theorem Gathers.apply (hgathers : replay.Gathers records) (hrecord : record.WellFormed) :
    (∃ next, replay.apply lineNumber record = .ok next ∧
      next.Gathers (records ++ [record])) ∨
    ((∃ error, replay.apply lineNumber record = .error error) ∧
      ∃ id address other, address ≠ other ∧ (id, address) ∈ assignmentsOf (records ++ [record]) ∧
        (id, other) ∈ assignmentsOf (records ++ [record])) := by
  obtain ⟨hbook, hforwarded, hnonce, hconfirmed⟩ := @hgathers.note _ _ record
  rcases apply_wellFormed hrecord with ⟨hnone, happly⟩ |
    ⟨id, address, hsome, ⟨hprior, happly⟩ | ⟨prior, hprior, hother, happly⟩⟩
  · refine .inl ⟨_, happly, ?_, hforwarded, hnonce, hconfirmed, hbook⟩
    intro id address
    rw [assignmentsOf_concat, hnone, Option.toList_none, append_nil]
    exact hgathers.pending id address
  · refine .inl ⟨_, happly, ?_, hforwarded, hnonce, hconfirmed, hbook⟩
    intro other found
    rw [assignmentsOf_concat, hsome, Option.toList_some, mem_append,
      mem_singleton, Prod.mk.injEq, ← hgathers.pending]
    have hinsert : ((replay.note record).collect id address).pendingAssignments[
        other]? = if id = other then some address
          else replay.pendingAssignments[other]? := by
      rw [collect, Std.ExtTreeMap.getElem?_insert]
      simp only [Std.LawfulEqCmp.compare_eq_iff_eq]
      rfl
    rw [hinsert]
    by_cases hsame : id = other
    · subst hsame
      rw [if_pos rfl, Option.some.injEq]
      constructor
      · intro heq
        exact .inr ⟨rfl, heq.symm⟩
      · rintro (hold | ⟨_, heq⟩)
        · exact (hprior found hold).symm
        · exact heq.symm
    · rw [if_neg hsame]
      constructor
      · exact .inl
      · rintro (hold | ⟨heq, _⟩)
        · exact hold
        · exact absurd heq.symm hsame
  · refine .inr ⟨happly, id, prior, address, hother, ?_, ?_⟩
    · rw [assignmentsOf_concat]
      exact mem_append_left _ ((hgathers.pending id prior).mp hprior)
    · rw [assignmentsOf_concat, hsome]
      simp

theorem applyAll_wellFormed (hrecords : ∀ record ∈ records, record.WellFormed) :
    (∃ replay, Replay.start.applyAll 1 records = .ok replay ∧ replay.Gathers records) ∨
    ((∃ error, Replay.start.applyAll 1 records = .error error) ∧
      ∃ id address other, address ≠ other ∧ (id, address) ∈ assignmentsOf records ∧
        (id, other) ∈ assignmentsOf records) := by
  induction records using List.reverseRecOn with
  | nil => exact .inl ⟨_, rfl, gathers_start⟩
  | append_singleton _ record ih =>
    rw [applyAll_concat]
    rcases ih (fun earlier hmem => hrecords earlier (by simp [hmem])) with
      ⟨replay, hreplay, hgathers⟩ | ⟨⟨error, hreplay⟩, id, address, other, hne, hfirst, hsecond⟩
    · rw [hreplay, ok_bind]
      exact hgathers.apply (hrecords record (by simp))
    · refine .inr ⟨⟨error, by rw [hreplay]; rfl⟩, id, address, other, hne, ?_, ?_⟩
      · rw [assignmentsOf_concat]
        exact mem_append_left _ hfirst
      · rw [assignmentsOf_concat]
        exact mem_append_left _ hsecond

end Step

end Replay

/-! ## Books filled in order, from both sides -/

theorem lookup_bookOf_iff {addresses : List Address} {id : ActorId}
    {address : Address} (hnodup : addresses.Nodup) (hroom : addresses.length < 2 ^ 64) :
    (bookOf addresses).lookup address = some id ↔ (bookOf addresses).reverse id = some address := by
  rw [reverse_bookOf_iff hroom]
  constructor
  · intro hlookup
    by_cases hmem : address ∈ addresses
    · rw [lookup_bookOf_of_mem hmem, Option.some.injEq] at hlookup
      refine ⟨addresses.idxOf address, hlookup.symm, ?_⟩
      rw [List.getElem?_eq_getElem (idxOf_lt_length_of_mem hmem), getElem_idxOf]
    · rw [lookup_bookOf_of_notMem hmem] at hlookup
      cases hlookup
  · rintro ⟨i, rfl, haddress⟩
    obtain ⟨hi, hget⟩ := List.getElem?_eq_some_iff.mp haddress
    have hindex : addresses.idxOf address = i := by
      rw [← hget]
      exact hnodup.idxOf_getElem i hi
    rw [lookup_bookOf_of_mem (mem_of_getElem? haddress), hindex]

theorem numbered_of_rebuild {front : List Address}
    {entries : List (ActorId × Address)} {book : AddressBook}
    (hnodup : front.Nodup) (hroom : front.length + 1 < 2 ^ 64)
    (hsorted : entries.Pairwise fun entry later => entry.1 < later.1)
    (hfront : front ≠ [] → ∀ entry ∈ entries, front.length < entry.1.toNat)
    (hrebuild : Replay.rebuild (bookOf front) entries = .ok book) :
    ∃ addresses, entries = numbered (front.length + 1) addresses ∧ (front ++ addresses).Nodup ∧
      (front ++ addresses).length + 1 < 2 ^ 64 ∧ book = bookOf (front ++ addresses) := by
  induction entries generalizing front with
  | nil =>
    cases hrebuild
    exact ⟨[], rfl, by rwa [append_nil], by rwa [append_nil], by rw [append_nil]⟩
  | cons entry _ ih =>
    obtain ⟨id, address⟩ := entry
    have hlater := pairwise_cons.mp hsorted
    rw [Replay.rebuild] at hrebuild
    by_cases hmem : address ∈ front
    · -- The book answers with the old id, which is too small.
      exfalso
      have hassign : (bookOf front).tryAssign address =
          .ok (UInt64.ofNat (front.idxOf address + 1), bookOf front) := by
        rw [AddressBook.tryAssign, show (bookOf front).forward address = _
          from lookup_bookOf_of_mem hmem]
      have hid := hfront (ne_nil_of_mem hmem) _ mem_cons_self
      have hindex := idxOf_lt_length_of_mem hmem
      have hne : UInt64.ofNat (front.idxOf address + 1) ≠ id := by
        intro heq
        rw [← heq, UInt64.toNat_ofNat_of_lt'
          (show front.idxOf address + 1 < 2 ^ 64 by omega)] at hid
        omega
      simp only [hassign] at hrebuild
      rw [if_pos hne] at hrebuild
      cases hrebuild
    · rcases Nat.lt_or_ge (front.length + 2) (2 ^ 64) with hlt | hge
      · simp only [tryAssign_bookOf hmem hlt] at hrebuild
        split_ifs at hrebuild with hne
        have heq : UInt64.ofNat (front.length + 1) = id := not_not.mp hne
        have hnat : id.toNat = front.length + 1 := by
          rw [← heq]
          exact UInt64.toNat_ofNat_of_lt' (show front.length + 1 < 2 ^ 64 by omega)
        have hnodup' : (front ++ [address]).Nodup := by
          rw [← concat_eq_append]
          exact hnodup.concat hmem
        obtain ⟨addresses, hrest, hall, hlength, hbook⟩ := ih hnodup' (by simp; omega) hlater.2 (by
            intro _ later hlaterMem
            have hless : id.toNat < later.1.toNat :=
              UInt64.lt_iff_toNat_lt.mp (hlater.1 later hlaterMem)
            simp only [length_append, length_singleton]
            omega)
          hrebuild
        refine ⟨address :: addresses, ?_, ?_, ?_, ?_⟩
        · rw [numbered, heq, hrest, length_append, length_singleton]
        all_goals rwa [append_cons]
      · have hfull : front.length + 2 = 2 ^ 64 := by omega
        simp only [tryAssign_bookOf_full hmem hfull] at hrebuild
        cases hrebuild

/-! ## The replay as a whole -/

theorem assignable_of_book {assignments : List (ActorId × Address)}
    {addresses : List Address} (hnodup : addresses.Nodup) (hroom : addresses.length < 2 ^ 64)
    (hassignments : ∀ id address, (id, address) ∈ assignments ↔
      (bookOf addresses).reverse id = some address) : Assignable assignments addresses.length where
  functional id address other hfirst hsecond := by
    rw [hassignments] at hfirst hsecond
    rw [hfirst] at hsecond
    exact Option.some.inj hsecond
  injective id other address hfirst hsecond := by
    rw [hassignments, ← lookup_bookOf_iff hnodup hroom] at hfirst hsecond
    rw [hfirst] at hsecond
    exact Option.some.inj hsecond
  ids id := by
    simp only [hassignments, reverse_bookOf_iff hroom]
    constructor
    · rintro ⟨address, i, rfl, haddress⟩
      have hi := (List.getElem?_eq_some_iff.mp haddress).1
      rw [UInt64.toNat_ofNat_of_lt' (show i + 1 < 2 ^ 64 by omega)]
      omega
    · rintro ⟨hone, hle⟩
      refine ⟨_, id.toNat - 1, ?_,
        List.getElem?_eq_getElem (show id.toNat - 1 < addresses.length by omega)⟩
      rw [Nat.sub_add_cancel hone, UInt64.ofNat_toNat]

namespace Replay

variable {replay : Replay} {records : List StateRecord}

theorem Gathers.of_finish (hgathers : replay.Gathers records)
    {state : WatcherState} (hfinish : replay.finish = .ok state) :
    ∃ addresses, addresses.Nodup ∧ addresses.length + 1 < 2 ^ 64 ∧
      (∀ id address, (id, address) ∈ assignmentsOf records ↔
        (bookOf addresses).reverse id = some address) ∧
      state = { replay.state with addressBook := bookOf addresses } := by
  obtain ⟨book, hrebuild, hstate⟩ := bind_eq_ok.mp hfinish
  rw [hgathers.book, ← bookOf_nil] at hrebuild
  have hsorted : replay.pendingAssignments.toList.Pairwise
      fun entry later => entry.1 < later.1 := by
    apply (Std.ExtTreeMap.ordered_keys_toList (t := replay.pendingAssignments)).imp
    intro entry later hlt
    exact Std.compare_eq_lt.mp hlt
  obtain ⟨addresses, hlist, hnodup, hroom, hbook⟩ := numbered_of_rebuild .nil
    (by decide) hsorted (fun hne => absurd rfl hne) hrebuild
  rw [nil_append] at hnodup hroom hbook
  refine ⟨addresses, hnodup, hroom, ?_, ?_⟩
  · intro id address
    rw [← hgathers.pending, ← Std.ExtTreeMap.mem_toList_iff_getElem?_eq_some, hlist,
      mem_numbered, reverse_bookOf_iff (by omega)]
    simp only [length_nil, Nat.zero_add, Nat.add_comm 1]
  · rw [← hbook]
    exact (pure_eq_ok.mp hstate).symm

theorem Gathers.collects (hgathers : replay.Gathers records) {n : ℕ}
    (hn : n < 2 ^ 64 - 1) (hassignable : Assignable (assignmentsOf records) n) :
    ∃ addresses, addresses.Nodup ∧ addresses.length = n ∧ replay.Collects addresses := by
  have hbounded : ∀ i < n, (UInt64.ofNat (i + 1)).toNat = i + 1 := fun i hi =>
    UInt64.toNat_ofNat_of_lt' (show i + 1 < 2 ^ 64 by omega)
  have hfound : ∀ i < n, ∃ address, (UInt64.ofNat (i + 1), address) ∈ assignmentsOf records := by
    intro i hi
    rw [hassignable.ids, hbounded i hi]
    omega
  have hget : ∀ i < n, (UInt64.ofNat (i + 1),
      (replay.pendingAssignments[UInt64.ofNat (i + 1)]?).getD 0) ∈ assignmentsOf records := by
    intro i hi
    obtain ⟨address, hmem⟩ := hfound i hi
    rw [(hgathers.pending _ _).mpr hmem]
    exact hmem
  have hindex : ∀ i address, ((List.range n).map fun i =>
      (replay.pendingAssignments[UInt64.ofNat (i + 1)]?).getD 0)[i]? = some address ↔
      i < n ∧ (UInt64.ofNat (i + 1), address) ∈ assignmentsOf records := by
    intro i address
    rw [List.getElem?_map, Option.map_eq_some_iff]
    constructor
    · rintro ⟨j, hj, rfl⟩
      obtain ⟨hi, hji⟩ := List.getElem?_eq_some_iff.mp hj
      rw [getElem_range] at hji
      rw [length_range] at hi
      subst hji
      exact ⟨hi, hget i hi⟩
    · rintro ⟨hi, hmem⟩
      refine ⟨i, List.getElem?_range hi, ?_⟩
      exact hassignable.functional _ _ _ (hget i hi) hmem
  refine ⟨(List.range n).map fun i =>
    (replay.pendingAssignments[UInt64.ofNat (i + 1)]?).getD 0, ?_, by simp, ?_⟩
  · apply List.Nodup.map_on _ nodup_range
    intro i hi j hj heq
    rw [mem_range] at hi hj
    have hfirst := hget i hi
    rw [heq] at hfirst
    have hids := hassignable.injective _ _ _ hfirst (hget j hj)
    have hnat := congrArg UInt64.toNat hids
    rw [hbounded i hi, hbounded j hj] at hnat
    omega
  · intro id
    apply Option.ext
    intro address
    rw [hgathers.pending, reverse_bookOf_iff (by simp; omega)]
    simp only [hindex]
    constructor
    · intro hmem
      have hid := (hassignable.ids id).mp ⟨address, hmem⟩
      have hback : UInt64.ofNat (id.toNat - 1 + 1) = id := by
        rw [Nat.sub_add_cancel hid.1, UInt64.ofNat_toNat]
      refine ⟨id.toNat - 1, hback.symm, by omega, ?_⟩
      rwa [hback]
    · rintro ⟨i, rfl, _, hmem⟩
      exact hmem

theorem Gathers.finish (hgathers : replay.Gathers records) {n : ℕ}
    (hn : n < 2 ^ 64 - 1) (hassignable : Assignable (assignmentsOf records) n) :
    ∃ state, replay.finish = .ok state := by
  obtain ⟨addresses, hnodup, hlength, hcollects⟩ := hgathers.collects hn hassignable
  have hrebuild := @rebuild_numbered [] addresses hnodup (by rw [nil_append]; omega)
  rw [bookOf_nil, nil_append] at hrebuild
  rw [Replay.finish, hgathers.book, hcollects.toList (by omega)]
  exact ⟨_, bind_eq_ok.mpr ⟨_, hrebuild, rfl⟩⟩

end Replay

theorem replayRecords_iff {records : List StateRecord}
    (hrecords : ∀ record ∈ records, record.WellFormed) :
    (∃ state, replayRecords records = .ok state) ↔
      ∃ n < 2 ^ 64 - 1, Assignable (assignmentsOf records) n := by
  rcases Replay.applyAll_wellFormed hrecords with ⟨replay, hreplay, hgathers⟩ |
    ⟨⟨error, hreplay⟩, id, address, other, hne, hfirst, hsecond⟩
  · rw [replayRecords, hreplay, ok_bind]
    constructor
    · rintro ⟨state, hfinish⟩
      obtain ⟨addresses, hnodup, hroom, hassignments, _⟩ := hgathers.of_finish hfinish
      exact ⟨addresses.length, by omega, assignable_of_book hnodup (by omega) hassignments⟩
    · rintro ⟨n, hn, hassignable⟩
      exact hgathers.finish hn hassignable
  · rw [replayRecords, hreplay]
    constructor
    · rintro ⟨state, hstate⟩
      cases hstate
    · rintro ⟨n, _, hassignable⟩
      exact absurd (hassignable.functional id address other hfirst hsecond) hne

theorem Assignable.congr {assignments others : List (ActorId × Address)} {n : ℕ}
    (hsame : ∀ entry, entry ∈ assignments ↔ entry ∈ others)
    (hassignable : Assignable assignments n) : Assignable others n where
  functional id address other hfirst hsecond :=
    hassignable.functional id address other ((hsame _).mpr hfirst) ((hsame _).mpr hsecond)
  injective id other address hfirst hsecond :=
    hassignable.injective id other address ((hsame _).mpr hfirst) ((hsame _).mpr hsecond)
  ids id := by
    simp only [← hsame]
    exact hassignable.ids id

/-- The replay of well-formed records succeeds exactly when their assignments are one
to one with the ids from 1 to some `n` below the last 64-bit id, in whatever order the
records are; and then it restores the book of the assignments, the highest nonce, the
set of the keys and the last finished block. -/
theorem replayRecords_spec {records : List StateRecord}
    (hrecords : ∀ record ∈ records, record.WellFormed) :
    ((∃ state, replayRecords records = .ok state) ↔
      ∃ n < 2 ^ 64 - 1, Assignable (assignmentsOf records) n) ∧
    (∀ permuted : List StateRecord, permuted.Perm records →
      ((∃ state, replayRecords permuted = .ok state) ↔
        ∃ state, replayRecords records = .ok state)) ∧
    ∀ state, replayRecords records = .ok state →
      ∃ n < 2 ^ 64 - 1, Assignable (assignmentsOf records) n ∧
        (∀ address id, state.addressBook.lookup address = some id ↔
          (id, address) ∈ assignmentsOf records) ∧
        (∀ id address, state.addressBook.reverse id = some address ↔
          (id, address) ∈ assignmentsOf records) ∧ state.addressBook.nextActorId.toNat = n + 1 ∧
        (state.nextNonce ∈ 0 :: records.filterMap StateRecord.nonce? ∧
          ∀ nonce ∈ records.filterMap StateRecord.nonce?, nonce ≤ state.nextNonce) ∧
        (∀ key, key ∈ state.forwarded ↔ key ∈ records.filterMap StateRecord.key?) ∧
        state.lastConfirmedBlock = (records.filterMap StateRecord.confirmed?).getLast? := by
  refine ⟨replayRecords_iff hrecords, ?_, ?_⟩
  · intro permuted hperm
    have hpermuted : ∀ record ∈ permuted, record.WellFormed := fun record hmem =>
      hrecords record (hperm.mem_iff.mp hmem)
    have hsame : ∀ entry, entry ∈ assignmentsOf permuted ↔
        entry ∈ assignmentsOf records := fun entry =>
      (hperm.filterMap StateRecord.assignment?).mem_iff
    rw [replayRecords_iff hrecords, replayRecords_iff hpermuted]
    constructor
    · rintro ⟨n, hn, hassignable⟩
      exact ⟨n, hn, hassignable.congr hsame⟩
    · rintro ⟨n, hn, hassignable⟩
      exact ⟨n, hn, hassignable.congr fun entry => (hsame entry).symm⟩
  · intro state hstate
    obtain ⟨replay, hreplay, hfinish⟩ := bind_eq_ok.mp hstate
    have hgathers : replay.Gathers records := by
      rcases Replay.applyAll_wellFormed hrecords with
        ⟨found, hfound, hgathers⟩ | ⟨⟨error, herror⟩, _⟩
      · rw [hfound] at hreplay
        cases hreplay
        exact hgathers
      · rw [herror] at hreplay
        cases hreplay
    obtain ⟨addresses, hnodup, hroom, hassignments, rfl⟩ := hgathers.of_finish hfinish
    refine ⟨addresses.length, by omega,
      assignable_of_book hnodup (by omega) hassignments, ?_, ?_, ?_,
      hgathers.nonce, hgathers.forwarded, hgathers.confirmed⟩
    · intro address id
      rw [hassignments]
      exact lookup_bookOf_iff hnodup (by omega)
    · intro id address
      exact (hassignments id address).symm
    · exact UInt64.toNat_ofNat_of_lt' hroom

def mixedRecords : List StateRecord :=
  [.addressAssigned (beBytes 20 8) 2, .nonceProgressed 5, .confirmed 3,
    .submitted (List.replicate 32 1) (List.replicate 32 2) 0 1 (some ⟨beBytes 20 7, 1⟩)]

theorem mixedRecords_wellFormed : ∀ record ∈ mixedRecords, record.WellFormed := by
  intro record hmem
  simp only [mixedRecords, mem_cons, not_mem_nil, or_false] at hmem
  rcases hmem with rfl | rfl | rfl | rfl
  · exact beBytes_length _ _
  · exact trivial
  · exact trivial
  · refine ⟨rfl, rfl, ?_⟩
    rintro _ ⟨⟩
    exact beBytes_length _ _

theorem replayRecords_spec_mixed :
    ∃ state, replayRecords mixedRecords = .ok state ∧ state.addressBook.lookup 7 = some 1 ∧
      state.addressBook.lookup 8 = some 2 ∧ state.lastConfirmedBlock = some 3 := by
  obtain ⟨state, hstate⟩ : ∃ state, replayRecords mixedRecords = .ok state := ⟨_, rfl⟩
  obtain ⟨_, _, _, hlookup, _, _, _, _, hconfirmed⟩ :=
    (replayRecords_spec mixedRecords_wellFormed).2.2 state hstate
  exact ⟨state, hstate, (hlookup 7 1).mpr (by decide), (hlookup 8 2).mpr (by decide), hconfirmed⟩

def assignedRecords (count : ℕ) : List StateRecord := (List.range count).map fun i =>
    .addressAssigned (beBytes 20 i) (UInt64.ofNat (i + 1))

theorem assignable_assignedRecords {count : ℕ} (hcount : count < 2 ^ 64) :
    Assignable (assignmentsOf (assignedRecords count)) count := by
  have haddress : ∀ i < count, (BitVec.ofNat 160 i).toNat = i := fun i hi => by
    rw [BitVec.toNat_ofNat, Nat.mod_eq_of_lt (by omega)]
  have hvalue : ∀ i < count, beValue (beBytes 20 i) = i := fun i hi =>
    beValue_beBytes 20 i (by omega)
  have hnodup : ((List.range count).map (BitVec.ofNat 160)).Nodup := by
    apply List.Nodup.map_on _ nodup_range
    intro i hi j hj heq
    have hnat := congrArg BitVec.toNat heq
    rwa [haddress i (mem_range.mp hi), haddress j (mem_range.mp hj)] at hnat
  have hbook := @assignable_of_book (assignmentsOf (assignedRecords count)) _ hnodup
    (by simpa using hcount)
  rw [length_map, length_range] at hbook
  apply hbook
  intro id address
  rw [reverse_bookOf_iff (by simpa using hcount)]
  simp only [assignmentsOf, assignedRecords, mem_filterMap, mem_map, mem_range,
    List.getElem?_map, Option.map_eq_some_iff, List.getElem?_eq_some_iff, length_range,
    getElem_range]
  constructor
  · rintro ⟨_, ⟨i, hi, rfl⟩, hentry⟩
    cases hentry
    exact ⟨i, rfl, i, ⟨hi, rfl⟩, by rw [hvalue i hi]⟩
  · rintro ⟨i, rfl, _, ⟨hi, rfl⟩, rfl⟩
    refine ⟨_, ⟨i, hi, rfl⟩, ?_⟩
    rw [StateRecord.assignment?, hvalue i hi]

/-- With all ids up to the last one the records are as they should be, and yet they
cannot be replayed. -/
theorem not_replayRecords_of_all_ids :
    ∃ records n, (∀ record ∈ records, record.WellFormed) ∧ Assignable (assignmentsOf records) n ∧
      ¬∃ state, replayRecords records = .ok state := by
  have hwell : ∀ count, ∀ record ∈ assignedRecords count, record.WellFormed := by
    intro count record hmem
    obtain ⟨i, _, rfl⟩ := mem_map.mp hmem
    exact beBytes_length _ _
  have hlast : (2 ^ 64 - 1 : ℕ) < 2 ^ 64 := by decide
  refine ⟨_, _, hwell (2 ^ 64 - 1), assignable_assignedRecords hlast, ?_⟩
  rw [replayRecords_iff (hwell _)]
  rintro ⟨n, hn, hassignable⟩
  have hnat : (UInt64.ofNat (2 ^ 64 - 1)).toNat = 2 ^ 64 - 1 := UInt64.toNat_ofNat_of_lt' hlast
  have hid := ((assignable_assignedRecords hlast).ids
    (UInt64.ofNat (2 ^ 64 - 1))).mpr (by rw [hnat]; omega)
  have hle := ((hassignable.ids _).mp hid).2
  omega

end Ingest
end Canon
