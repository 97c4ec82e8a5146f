import Canon.WatcherSessions

/-!
# No event is accepted twice

The host accepts an action only with the next nonce.  The actions accepted before the
nonce of the memory, and before the nonce of the file, have their events among the
forwarded ones there.
-/

namespace Canon
namespace Ingest

open List

structure Covers (accepted : List Submission) (state : WatcherState) : Prop where
  le_length : state.nextNonce.toNat ≤ accepted.length
  forwarded : ∀ entry ∈ accepted.take state.nextNonce.toNat, entry.origin ∈ state.forwarded

structure Counted (world : World) : Prop where
  nodup : ((acceptedOf world.submissions).map fun entry => entry.origin).Nodup
  bound : (acceptedOf world.submissions).length ≤ 2 ^ 64
  memory : Covers (acceptedOf world.submissions) world.watcher.toWatcherState
  file : ∀ replay, Replay.start.applyAll 1 world.file = .ok replay →
    Covers (acceptedOf world.submissions) replay.state ∧
      world.watcher.nextNonce.toNat ≤ replay.state.nextNonce.toNat

/-! ## The records -/

section Records

variable {records : List StateRecord} {replay : Replay} {origin : ForwardedKey}

theorem applyAll_confirmed {number : UInt64}
    (hreplay : Replay.start.applyAll 1 (records ++ [.confirmed number]) = .ok replay) :
    ∃ before, Replay.start.applyAll 1 records = .ok before ∧
      replay.state.forwarded = before.state.forwarded ∧
      replay.state.nextNonce = before.state.nextNonce := by
  rw [Replay.applyAll_concat, bind_eq_ok] at hreplay
  obtain ⟨before, hbefore, happly⟩ := hreplay
  cases happly
  exact ⟨before, hbefore, rfl, rfl⟩

theorem applyAll_forwarded
    (hreplay : Replay.start.applyAll 1 (records ++ [forwardedRecord origin]) = .ok replay) :
    ∃ before, Replay.start.applyAll 1 records = .ok before ∧
      replay.state.forwarded = insert origin before.state.forwarded ∧
      replay.state.nextNonce = before.state.nextNonce := by
  rw [Replay.applyAll_concat, bind_eq_ok] at hreplay
  obtain ⟨before, hbefore, happly⟩ := hreplay
  rw [forwardedRecord, Replay.apply, Restores.insertForwarded_key] at happly
  cases happly
  exact ⟨before, hbefore, rfl, rfl⟩

theorem state_of_insertAssignment {before : Replay} {lineNumber : ℕ}
    {address : Bytes} {actorId : ActorId} {message : String}
    (hinsert : before.insertAssignment lineNumber address actorId message =
      .ok replay) : replay.state = before.state := by
  rw [Replay.insertAssignment, bind_eq_ok] at hinsert
  obtain ⟨addr, _, hinsert⟩ := hinsert
  split at hinsert
  · split at hinsert
    · cases hinsert
    · cases hinsert
      rfl
  · cases hinsert
    rfl

theorem applyAll_submitted {nextNonce : Nonce} {assigned : Option (Address × ActorId)}
    (hreplay : Replay.start.applyAll 1
      (records ++ [submittedRecord origin nextNonce assigned]) = .ok replay) :
    ∃ before, Replay.start.applyAll 1 records = .ok before ∧
      replay.state.forwarded = insert origin before.state.forwarded ∧
      replay.state.nextNonce =
        if before.state.nextNonce < nextNonce then nextNonce
        else before.state.nextNonce := by
  rw [Replay.applyAll_concat, bind_eq_ok] at hreplay
  obtain ⟨before, hbefore, happly⟩ := hreplay
  refine ⟨before, hbefore, ?_⟩
  rw [submittedRecord, Replay.apply, Restores.insertForwarded_key, ok_bind] at happly
  have hstate : replay.state = (Replay.raiseNonce { before with
      state := { before.state with
        forwarded := insert origin before.state.forwarded } } nextNonce).state := by
    cases assigned with
    | none =>
      cases happly
      rfl
    | some => exact state_of_insertAssignment happly
  rw [hstate, Replay.raiseNonce]
  by_cases hlt : before.state.nextNonce < nextNonce
  · simp only [if_pos hlt]
    exact ⟨trivial, trivial⟩
  · simp only [if_neg hlt]
    exact ⟨trivial, trivial⟩

end Records

/-! ## One event -/

section Counting

variable {env : Environment} {config : WatcherConfig} {key : BridgeActorKey}
  {world : World} {origin : ForwardedKey} {state : WatcherState} {unsigned : UnsignedAction}
  {event : IngestedEvent}

theorem Covers.of_forwarded {accepted : List Submission} {other : WatcherState}
    (hcovers : Covers accepted state) (hnonce : other.nextNonce = state.nextNonce)
    (hforwarded : state.forwarded ⊆ other.forwarded) :
    Covers accepted other where
  le_length := by
    rw [hnonce]
    exact hcovers.le_length
  forwarded := by
    rw [hnonce]
    exact fun entry hentry => hforwarded (hcovers.forwarded entry hentry)

theorem Covers.behind {accepted : List Submission} (hcovers : Covers accepted state)
    (entry : Submission) :
    Covers (accepted ++ [entry]) state where
  le_length := by
    rw [length_append]
    exact Nat.le_add_right_of_le hcovers.le_length
  forwarded := by
    rw [take_append_of_le_length hcovers.le_length]
    exact hcovers.forwarded

theorem Covers.next {accepted : List Submission} {state other : WatcherState}
    (hcovers : Covers accepted state)
    (hall : accepted.length ≤ state.nextNonce.toNat) {entry : Submission}
    (hforwarded : other.forwarded = insert entry.origin state.forwarded)
    (hnonce : other.nextNonce.toNat = accepted.length + 1) :
    Covers (accepted ++ [entry]) other where
  le_length := by
    rw [hnonce, length_append]
    exact le_refl _
  forwarded := by
    intro known hknown
    rw [hforwarded]
    rcases mem_append.mp (mem_of_mem_take hknown) with hold | hnew
    · apply Finset.mem_insert_of_mem
      apply hcovers.forwarded known
      rwa [take_of_length_le hall]
    · rw [mem_singleton.mp hnew]
      exact Finset.mem_insert_self _ _

theorem Counted.of_acceptedOf_eq (hcounted : Counted world)
    {submissions : List Submission} (clock : ℕ)
    (heq : acceptedOf submissions = acceptedOf world.submissions) :
    Counted (world.sent submissions clock) where
  nodup := heq ▸ hcounted.nodup
  bound := heq ▸ hcounted.bound
  memory := heq ▸ hcounted.memory
  file := heq ▸ hcounted.file

theorem Counted.tick (hcounted : Counted world) : Counted world.tick :=
  ⟨hcounted.nodup, hcounted.bound, hcounted.memory, hcounted.file⟩

theorem Counted.note (hcounted : Counted world) (origin : ForwardedKey) :
    Counted (world.mapWatcher (·.insertForwarded origin)) where
  nodup := hcounted.nodup
  bound := hcounted.bound
  memory := hcounted.memory.of_forwarded rfl (Finset.subset_insert _ _)
  file := hcounted.file

theorem Counted.addForwarded (hcounted : Counted world) (origin : ForwardedKey) :
    Counted (world.addRecord (forwardedRecord origin)) where
  nodup := hcounted.nodup
  bound := hcounted.bound
  memory := hcounted.memory
  file := by
    intro replay hreplay
    obtain ⟨before, hbefore, hforwarded, hnonce⟩ := applyAll_forwarded hreplay
    obtain ⟨hcovers, hle⟩ := hcounted.file before hbefore
    refine ⟨hcovers.of_forwarded hnonce ?_, ?_⟩
    · rw [hforwarded]
      exact Finset.subset_insert _ _
    · rw [hnonce]
      exact hle

theorem Counted.addConfirmed (hcounted : Counted world) (number : UInt64) :
    Counted (world.addRecord (.confirmed number)) where
  nodup := hcounted.nodup
  bound := hcounted.bound
  memory := hcounted.memory
  file := by
    intro replay hreplay
    obtain ⟨before, hbefore, hforwarded, hnonce⟩ := applyAll_confirmed hreplay
    obtain ⟨hcovers, hle⟩ := hcounted.file before hbefore
    refine ⟨hcovers.of_forwarded hnonce hforwarded.ge, ?_⟩
    rw [hnonce]
    exact hle

section Accepting

variable {unsigned : UnsignedAction} {signed : SignedActionForSubmit}
  {submissions : List Submission} (hhosted : env.Hosted) (hcounted : Counted world)
  (hsign : sign config key unsigned = .ok signed)
  (hnonce : unsigned.nonce = world.watcher.nextNonce)
  (haccepts : Accepts env origin signed world.submissions submissions)
include hhosted hcounted hsign hnonce haccepts

theorem Counted.length_accepted :
    world.watcher.nextNonce = BitVec.ofNat 128 (acceptedOf world.submissions).length ∧
      (acceptedOf world.submissions).length < 2 ^ 64 := by
  obtain ⟨tried, time, htries, hanswer, _⟩ := haccepts
  obtain ⟨hunsigned, hsmall⟩ := of_sign_ok hsign
  have hcount := hhosted.accepted _ _ _ hanswer
  have hbound := hcounted.bound
  rw [hunsigned, hnonce, htries.acceptedOf_eq] at hcount
  refine ⟨hcount, ?_⟩
  rw [hnonce, hcount, BitVec.toNat_ofNat, Nat.mod_eq_of_lt (by omega)] at hsmall
  exact hsmall

theorem Counted.toNat_nextNonce :
    world.watcher.nextNonce.toNat = (acceptedOf world.submissions).length := by
  obtain ⟨hcount, hlt⟩ := hcounted.length_accepted hhosted hsign hnonce haccepts
  rw [hcount, BitVec.toNat_ofNat, Nat.mod_eq_of_lt (by omega)]

theorem Counted.toNat_saturatingSucc :
    (saturatingSucc world.watcher.nextNonce).toNat = (acceptedOf world.submissions).length + 1 := by
  obtain ⟨hcount, hlt⟩ := hcounted.length_accepted hhosted hsign hnonce haccepts
  rw [hcount, saturatingSucc_ofNat hlt.le, BitVec.toNat_ofNat, Nat.mod_eq_of_lt (by omega)]

theorem Counted.accepted (hfresh : origin ∉ world.watcher.forwarded)
    (clock : ℕ) : Counted (world.sent submissions clock) := by
  have hnat := hcounted.toNat_nextNonce hhosted hsign hnonce haccepts
  have hlt := (hcounted.length_accepted hhosted hsign hnonce haccepts).2
  have heq := haccepts.acceptedOf_eq
  constructor
  · change ((acceptedOf submissions).map fun entry => entry.origin).Nodup
    rw [heq, map_append, map_singleton, nodup_append]
    refine ⟨hcounted.nodup, nodup_singleton _, ?_⟩
    intro known hknown other hother hsame
    obtain ⟨entry, hentry, rfl⟩ := mem_map.mp hknown
    have horigin : entry.origin = origin := hsame.trans (mem_singleton.mp hother)
    apply hfresh
    rw [← horigin]
    apply hcounted.memory.forwarded entry
    rwa [hnat, take_length]
  · change (acceptedOf submissions).length ≤ 2 ^ 64
    rw [heq, length_append]
    exact hlt
  · change Covers (acceptedOf submissions) _
    rw [heq]
    exact hcounted.memory.behind _
  · intro replay hreplay
    change Covers (acceptedOf submissions) _ ∧ _
    obtain ⟨hcovers, hle⟩ := hcounted.file replay hreplay
    rw [heq]
    exact ⟨hcovers.behind _, hle⟩

theorem Counted.file_submitted {assigned : Option (Address × ActorId)} {replay : Replay}
    (hreplay : Replay.start.applyAll 1 (world.file ++ [submittedRecord origin
      (saturatingSucc world.watcher.nextNonce) assigned]) = .ok replay) :
    Covers (acceptedOf submissions) replay.state ∧
      replay.state.nextNonce.toNat = (acceptedOf world.submissions).length + 1 := by
  have hnat := hcounted.toNat_nextNonce hhosted hsign hnonce haccepts
  have hsucc := hcounted.toNat_saturatingSucc hhosted hsign hnonce haccepts
  obtain ⟨before, hbefore, hforwarded, hnext⟩ := applyAll_submitted hreplay
  obtain ⟨hcovers, hle⟩ := hcounted.file before hbefore
  have hupper := hcovers.le_length
  have hraise : before.state.nextNonce < saturatingSucc world.watcher.nextNonce := by
    rw [BitVec.lt_def, hsucc]
    omega
  rw [if_pos hraise] at hnext
  have hnonceNext : replay.state.nextNonce.toNat = (acceptedOf world.submissions).length + 1 := by
    rw [hnext, hsucc]
  refine ⟨?_, hnonceNext⟩
  rw [haccepts.acceptedOf_eq]
  exact hcovers.next (by omega) hforwarded hnonceNext

theorem Counted.recorded (hfresh : origin ∉ world.watcher.forwarded)
    (clock : ℕ) (assigned : Option (Address × ActorId)) :
    Counted ((world.sent submissions clock).addRecord (submittedRecord origin
      (saturatingSucc world.watcher.nextNonce) assigned)) := by
  have hsent := hcounted.accepted hhosted hsign hnonce haccepts hfresh clock
  refine ⟨hsent.nodup, hsent.bound, hsent.memory, ?_⟩
  intro replay hreplay
  obtain ⟨hcovers, hnext⟩ := hcounted.file_submitted hhosted hsign hnonce haccepts hreplay
  refine ⟨hcovers, ?_⟩
  change world.watcher.nextNonce.toNat ≤ _
  rw [hnext, hcounted.toNat_nextNonce hhosted hsign hnonce haccepts]
  exact Nat.le_succ _

theorem Counted.committed (hfresh : origin ∉ world.watcher.forwarded)
    (clock : ℕ) (assigned : Option (Address × ActorId)) (book : AddressBook) :
    Counted (((world.sent submissions clock).addRecord (submittedRecord origin
      (saturatingSucc world.watcher.nextNonce) assigned)).mapWatcher
        fun watcher => watcher.commitForwarded origin book) := by
  have hsent := hcounted.accepted hhosted hsign hnonce haccepts hfresh clock
  have hsucc := hcounted.toNat_saturatingSucc hhosted hsign hnonce haccepts
  refine ⟨hsent.nodup, hsent.bound, ?_, ?_⟩
  · change Covers (acceptedOf submissions) _
    rw [haccepts.acceptedOf_eq]
    exact hcounted.memory.next (hcounted.toNat_nextNonce hhosted hsign hnonce haccepts).ge rfl hsucc
  · intro replay hreplay
    obtain ⟨hcovers, hnext⟩ := hcounted.file_submitted hhosted hsign hnonce haccepts hreplay
    refine ⟨hcovers, ?_⟩
    change (saturatingSucc world.watcher.nextNonce).toNat ≤ _
    rw [hnext, hsucc]

end Accepting

variable {result : Except Ending Unit} {after : World}

theorem ForwardEffect.counted (hhosted : env.Hosted) {assigned : Option (Address × ActorId)}
    (heffect : ForwardEffect env config key origin unsigned assigned world result after)
    (hcounted : Counted world) (hnonce : unsigned.nonce = world.watcher.nextNonce)
    (hfresh : origin ∉ world.watcher.forwarded) :
    Counted after ∧ ∀ entry ∈ acceptedOf after.submissions,
      entry ∈ acceptedOf world.submissions ∨ entry.origin = origin := by
  have hlast : ∀ {signed submissions}, Accepts env origin signed world.submissions submissions →
      ∀ entry ∈ acceptedOf submissions,
        entry ∈ acceptedOf world.submissions ∨ entry.origin = origin := by
    intro signed submissions haccepts entry hentry
    rw [haccepts.acceptedOf_eq] at hentry
    rcases mem_append.mp hentry with hold | hnew
    · exact .inl hold
    · rw [mem_singleton.mp hnew]
      exact .inr rfl
  cases heffect with
  | unsigned => exact ⟨hcounted, fun _ h => .inl h⟩
  | refused _ htries =>
    have heq := htries.acceptedOf_eq
    exact ⟨hcounted.of_acceptedOf_eq _ heq, fun _ h => .inl (heq ▸ h)⟩
  | unrecorded hsign haccepts =>
    exact ⟨hcounted.accepted hhosted hsign hnonce haccepts hfresh _, hlast haccepts⟩
  | uncommitted hsign haccepts =>
    exact ⟨hcounted.recorded hhosted hsign hnonce haccepts hfresh _ _, hlast haccepts⟩
  | committed hsign haccepts =>
    exact ⟨hcounted.committed hhosted hsign hnonce haccepts hfresh _ _ _, hlast haccepts⟩

theorem NoteEffect.counted
    (heffect : NoteEffect env origin world result after) (hcounted : Counted world) :
    Counted after ∧ after.submissions = world.submissions := by
  have hsent : ∀ clock, Counted (world.sent world.submissions clock) :=
    fun clock => hcounted.of_acceptedOf_eq clock rfl
  cases heffect with
  | unwritten => exact ⟨(hsent _).note origin, rfl⟩
  | interrupted | noted => exact ⟨((hsent _).addForwarded origin).note origin, rfl⟩

theorem previewIngest_nonce {book : AddressBook} {nonce : Nonce}
    (hunsigned : (previewIngest book event nonce).unsigned = some unsigned) :
    unsigned.nonce = nonce ∧ event.registration.isSome := by
  cases hevent : event.registration with
  | none =>
    rw [previewIngest_of_none book nonce hevent] at hunsigned
    cases hunsigned
  | some =>
    rw [previewIngest_of_some book nonce hevent, previewRegistration_unsigned] at hunsigned
    cases hunsigned
    exact ⟨rfl, rfl⟩

theorem EventEffect.counted (hhosted : env.Hosted) {blockHash : Bytes32}
    (heffect : EventEffect env config key event blockHash world result after)
    (hcounted : Counted world) :
    Counted after ∧ ∀ entry ∈ acceptedOf after.submissions, entry ∈ acceptedOf world.submissions ∨
        entry.origin = forwardedKey blockHash event ∧ event.registration.isSome := by
  cases heffect with
  | skipped => exact ⟨hcounted, fun _ h => .inl h⟩
  | noted _ _ hnote =>
    obtain ⟨hafter, hsame⟩ := hnote.counted hcounted
    rw [hsame]
    exact ⟨hafter, fun _ h => .inl h⟩
  | replaced hfresh hpreview hforward | registered hfresh hpreview hforward =>
    obtain ⟨hnonce, hsome⟩ := previewIngest_nonce (congrArg Translated.unsigned hpreview)
    obtain ⟨hafter, hentries⟩ := hforward.counted hhosted hcounted hnonce hfresh
    exact ⟨hafter, fun entry h => (hentries entry h).imp_right (⟨·, hsome⟩)⟩

end Counting

end Ingest
end Canon
