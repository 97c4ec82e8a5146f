import Canon.IngestChain
import Canon.StateReplay

/-!
# One identity for each address

The action for a registration is previewed before it is submitted, and the id which the
preview has named is taken only when the submission has succeeded.  Any number of
previews may be dropped in between.
-/

namespace Canon
namespace Ingest

open List

structure Attempt where
  event : IngestedEvent
  nonce : Nonce
  committed : Bool

def Attempt.address? (attempt : Attempt) : Option Address := attempt.event.registration.map Prod.fst

/-- The book, the committed addresses in their order, and the actions which were
committed or needed no commit, each with the address it is for. -/
structure IdentityStream where
  book : AddressBook
  committed : List Address
  actions : List (Address × Action)

namespace IdentityStream

def start : IdentityStream := ⟨.new, [], []⟩

def attempt (stream : IdentityStream) (next : Attempt) : Except CommitError IdentityStream :=
  match previewIngest stream.book next.event next.nonce with
  | .noAction => .ok stream
  | .emit unsigned =>
    .ok { stream with
      actions := stream.actions ++
        next.address?.toList.map fun address => (address, unsigned.action) }
  | .emitWithAssignment unsigned address newActorId =>
    if next.committed then do
      let (_, book) ← commitAssignment stream.book address newActorId
      return ⟨book, stream.committed ++ [address], stream.actions ++ [(address, unsigned.action)]⟩
    else .ok stream

def attemptAll (stream : IdentityStream) : List Attempt → Except CommitError IdentityStream
  | [] => .ok stream
  | next :: rest => do
      let stream ← stream.attempt next
      stream.attemptAll rest

def actionsFor (stream : IdentityStream) (address : Address) : List Action :=
  (stream.actions.filter fun entry => entry.1 = address).map Prod.snd

def Enrolled (id : ActorId) (actions : List Action) : Prop := ∃ pk, ∃ keys : List Bytes,
    actions = .registerIdentity id pk :: keys.map (.replaceKey id)

structure Sound (stream : IdentityStream) : Prop where
  book : stream.book = bookOf stream.committed
  nodup : stream.committed.Nodup
  enrolled : ∀ address ∈ stream.committed, ∀ id, stream.book.lookup address = some id →
      Enrolled id (stream.actionsFor address)
  others : ∀ address ∉ stream.committed, stream.actionsFor address = []

theorem sound_start : start.Sound where
  book := bookOf_nil.symm
  nodup := .nil
  enrolled _ hmem := absurd hmem not_mem_nil
  others _ _ := rfl

section Attempts

variable {stream : IdentityStream} {next : Attempt} {address : Address} {pk : Bytes}

def Room (stream : IdentityStream) (address : Address) : Prop :=
  address ∉ stream.committed → stream.committed.length + 2 < 2 ^ 64

theorem attempt_of_none (hnone : next.event.registration = none) :
    stream.attempt next = .ok stream := by
  rw [attempt, previewIngest_of_none _ _ hnone]

theorem Sound.attempt_of_mem (hsound : stream.Sound)
    (hevent : next.event.registration = some (address, pk)) (hmem : address ∈ stream.committed) :
    stream.attempt next = .ok { stream with
      actions := stream.actions ++ [(address,
        .replaceKey (UInt64.ofNat (stream.committed.idxOf address + 1)) pk)] } := by
  rw [attempt, hsound.book, previewIngest_of_mem _ hevent hmem]
  simp [Attempt.address?, hevent]

theorem Sound.commit (hsound : stream.Sound) (hroom : stream.Room address)
    (hmem : address ∉ stream.committed) :
    commitAssignment stream.book address (UInt64.ofNat (stream.committed.length + 1)) =
      .ok (UInt64.ofNat (stream.committed.length + 1), bookOf (stream.committed ++ [address])) := by
  rw [hsound.book]
  exact commitAssignment_bookOf hmem (hroom hmem)

theorem Sound.attempt_of_notMem (hsound : stream.Sound) (hroom : stream.Room address)
    (hevent : next.event.registration = some (address, pk)) (hmem : address ∉ stream.committed) :
    stream.attempt next = .ok (if next.committed then
      ⟨bookOf (stream.committed ++ [address]), stream.committed ++ [address],
        stream.actions ++ [(address,
          .registerIdentity (UInt64.ofNat (stream.committed.length + 1)) pk)]⟩
      else stream) := by
  have hpreview := @previewIngest_of_notMem next.event address pk stream.committed
    next.nonce hevent hmem
  rw [← hsound.book] at hpreview
  rw [attempt, hpreview]
  simp only
  split_ifs
  · rw [hsound.commit hroom hmem, ok_bind]
    rfl
  · rfl

theorem actionsFor_concat (book : AddressBook) (committed : List Address)
    (action : Action) (other : Address) :
    (⟨book, committed, stream.actions ++ [(address, action)]⟩ : IdentityStream).actionsFor other =
      stream.actionsFor other ++ if address = other then [action] else [] := by
  simp only [actionsFor, filter_append, map_append]
  split_ifs with hsame
  all_goals simp [hsame]

theorem Sound.replaced (hsound : stream.Sound) (hmem : address ∈ stream.committed) :
    ({ stream with actions := stream.actions ++ [(address,
      .replaceKey (UInt64.ofNat (stream.committed.idxOf address + 1)) pk)] } :
        IdentityStream).Sound where
  book := hsound.book
  nodup := hsound.nodup
  enrolled other hother id hlookup := by
    obtain ⟨first, keys, hactions⟩ := hsound.enrolled other hother id hlookup
    rw [actionsFor_concat, hactions]
    by_cases hsame : address = other
    · have hid : UInt64.ofNat (stream.committed.idxOf address + 1) = id := by
        simp only [hsound.book, ← hsame, lookup_bookOf_of_mem hmem, Option.some.injEq] at hlookup
        exact hlookup
      rw [if_pos hsame, hid]
      exact ⟨first, keys ++ [pk], by simp⟩
    · rw [if_neg hsame]
      exact ⟨first, keys, by simp⟩
  others other hother := by
    have hne : address ≠ other := fun hsame => hother (hsame ▸ hmem)
    rw [actionsFor_concat, if_neg hne, append_nil]
    exact hsound.others other hother

theorem Sound.registered (hsound : stream.Sound) (hmem : address ∉ stream.committed) :
    (⟨bookOf (stream.committed ++ [address]), stream.committed ++ [address],
      stream.actions ++ [(address,
        .registerIdentity (UInt64.ofNat (stream.committed.length + 1)) pk)]⟩ :
          IdentityStream).Sound where
  book := rfl
  nodup := by
    rw [← concat_eq_append]
    exact hsound.nodup.concat hmem
  enrolled other hother id hlookup := by
    rw [actionsFor_concat]
    rw [lookup_bookOf_of_mem hother, Option.some.injEq] at hlookup
    rcases mem_append.mp hother with hold | hnew
    · have hne : address ≠ other := fun hsame => hmem (hsame ▸ hold)
      rw [idxOf_append_of_mem hold] at hlookup
      rw [if_neg hne, append_nil]
      apply hsound.enrolled other hold id
      rw [hsound.book, lookup_bookOf_of_mem hold, hlookup]
    · rw [mem_singleton.mp hnew] at hlookup ⊢
      rw [idxOf_append_of_notMem hmem] at hlookup
      rw [if_pos rfl, hsound.others address hmem, ← hlookup]
      exact ⟨pk, [], by simp⟩
  others other hother := by
    simp only [mem_append, mem_singleton, not_or] at hother
    rw [actionsFor_concat, if_neg (Ne.symm hother.2), append_nil]
    exact hsound.others other hother.1

theorem Sound.attempt (hsound : stream.Sound)
    (hroom : ∀ address ∈ next.address?, stream.Room address) :
    ∃ after, stream.attempt next = .ok after ∧ after.Sound ∧
      ∀ address ∈ after.committed, address ∈ stream.committed ∨ next.address? = some address := by
  cases hevent : next.event.registration with
  | none => exact ⟨stream, attempt_of_none hevent, hsound, fun _ => .inl⟩
  | some entry =>
    obtain ⟨address, pk⟩ := entry
    have haddress : next.address? = some address := by
      rw [Attempt.address?, hevent]
      rfl
    by_cases hmem : address ∈ stream.committed
    · exact ⟨_, hsound.attempt_of_mem hevent hmem, hsound.replaced hmem, fun _ => .inl⟩
    · refine ⟨_, hsound.attempt_of_notMem (hroom address haddress) hevent hmem, ?_⟩
      split_ifs
      · refine ⟨hsound.registered hmem, ?_⟩
        intro other hother
        rcases mem_append.mp hother with hold | hnew
        · exact .inl hold
        · rw [mem_singleton.mp hnew]
          exact .inr haddress
      · exact ⟨hsound, fun _ => .inl⟩

end Attempts

variable {attempts : List Attempt} {address : Address} {next : Attempt}

theorem attemptAll_concat (stream : IdentityStream) (attempts : List Attempt) (next : Attempt) :
    stream.attemptAll (attempts ++ [next]) =
      (stream.attemptAll attempts >>= fun middle => middle.attempt next) := by
  induction attempts generalizing stream with
  | nil =>
    simp only [nil_append, attemptAll, ok_bind]
    cases stream.attempt next <;> rfl
  | cons first _ ih =>
    simp only [cons_append, attemptAll]
    cases stream.attempt first with
    | error => rfl
    | ok middle =>
      exact ih middle

def addressesOf (attempts : List Attempt) : Finset Address :=
  (attempts.filterMap Attempt.address?).toFinset

theorem addressesOf_mono {attempts more : List Attempt} :
    addressesOf attempts ⊆ addressesOf (attempts ++ more) := by
  intro address hmem
  simp only [addressesOf, mem_toFinset, filterMap_append, mem_append] at hmem ⊢
  exact .inl hmem

theorem room_of_few {stream : IdentityStream} (hsound : stream.Sound)
    (hfew : (addressesOf attempts).card < 2 ^ 64 - 1)
    (hknown : ∀ address ∈ stream.committed, address ∈ addressesOf attempts)
    (haddress : address ∈ addressesOf attempts) : stream.Room address := by
  intro hmem
  have hcard : (insert address stream.committed.toFinset).card ≤ (addressesOf attempts).card := by
    apply Finset.card_le_card
    intro other hother
    rcases Finset.mem_insert.mp hother with hself | hold
    · rwa [hself]
    · exact hknown other (mem_toFinset.mp hold)
  rw [Finset.card_insert_of_notMem (by rwa [mem_toFinset]),
    toFinset_card_of_nodup hsound.nodup] at hcard
  omega

theorem mem_addressesOf_concat (haddress : next.address? = some address) :
    address ∈ addressesOf (attempts ++ [next]) := by
  simp [addressesOf, haddress]

theorem attemptAll_sound (hfew : (addressesOf attempts).card < 2 ^ 64 - 1) :
    ∃ stream, start.attemptAll attempts = .ok stream ∧ stream.Sound ∧
      ∀ address ∈ stream.committed, address ∈ addressesOf attempts := by
  induction attempts using List.reverseRecOn with
  | nil => exact ⟨start, rfl, sound_start, by simp [start]⟩
  | append_singleton attempts next ih =>
    have hmono := @addressesOf_mono attempts [next]
    obtain ⟨stream, hrun, hsound, hknown⟩ := ih ((Finset.card_le_card hmono).trans_lt hfew)
    obtain ⟨after, hattempt, hafter, hcommitted⟩ := @hsound.attempt _ next
      (fun address haddress => room_of_few hsound hfew
        (fun other hother => hmono (hknown other hother)) (mem_addressesOf_concat haddress))
    refine ⟨after, ?_, hafter, ?_⟩
    · rw [attemptAll_concat, hrun, ok_bind, hattempt]
    · intro address hmem
      rcases hcommitted address hmem with hold | hnew
      · exact hmono (hknown address hold)
      · exact mem_addressesOf_concat hnew

/-! ## The streams -/

theorem Sound.length_lt {stream : IdentityStream}
    (hsound : stream.Sound) (hfew : (addressesOf attempts).card < 2 ^ 64 - 1)
    (hknown : ∀ address ∈ stream.committed, address ∈ addressesOf attempts) :
    stream.committed.length + 1 < 2 ^ 64 := by
  have hcard : stream.committed.toFinset.card ≤ (addressesOf attempts).card :=
    Finset.card_le_card fun address hmem =>
      hknown address (mem_toFinset.mp hmem)
  rw [toFinset_card_of_nodup hsound.nodup] at hcard
  omega

section Books

variable {stream : IdentityStream} (hsound : stream.Sound)
  (hroom : stream.committed.length + 1 < 2 ^ 64)

include hsound in
theorem Sound.lookup_iff_mem (address : Address) :
    (∃ id, stream.book.lookup address = some id) ↔ address ∈ stream.committed := by
  rw [hsound.book]
  by_cases hmem : address ∈ stream.committed
  · simp [lookup_bookOf_of_mem hmem, hmem]
  · simp [lookup_bookOf_of_notMem hmem, hmem]

include hsound hroom in
theorem Sound.lookup_iff_reverse (address : Address) (id : ActorId) :
    stream.book.lookup address = some id ↔ stream.book.reverse id = some address := by
  rw [hsound.book]
  exact lookup_bookOf_iff hsound.nodup (by omega)

include hsound hroom in
theorem Sound.next_toNat : stream.book.nextActorId.toNat = stream.committed.length + 1 := by
  rw [hsound.book]
  exact UInt64.toNat_ofNat_of_lt' (show stream.committed.length + 1 < 2 ^ 64 from hroom)

include hsound hroom in
theorem Sound.ids (id : ActorId) :
    (∃ address, stream.book.reverse id = some address) ↔
      1 ≤ id.toNat ∧ id.toNat < stream.book.nextActorId.toNat := by
  rw [hsound.next_toNat hroom, hsound.book]
  simp only [@reverse_bookOf_iff stream.committed _ _ (by omega)]
  constructor
  · rintro ⟨address, i, rfl, haddress⟩
    have hi := (List.getElem?_eq_some_iff.mp haddress).1
    rw [UInt64.toNat_ofNat_of_lt' (show i + 1 < 2 ^ 64 by omega)]
    omega
  · rintro ⟨hone, hlt⟩
    refine ⟨_, id.toNat - 1, ?_, List.getElem?_eq_getElem (by omega)⟩
    rw [Nat.sub_add_cancel hone, UInt64.ofNat_toNat]

end Books

theorem Sound.preview {stream : IdentityStream} {unsigned : UnsignedAction} {newActorId : ActorId}
    (hsound : stream.Sound) (hpreview : previewIngest stream.book next.event next.nonce =
      .emitWithAssignment unsigned address newActorId) :
    next.address? = some address ∧ address ∉ stream.committed ∧
      newActorId = UInt64.ofNat (stream.committed.length + 1) := by
  rw [hsound.book] at hpreview
  cases hevent : next.event.registration with
  | none =>
    rw [previewIngest_of_none _ _ hevent] at hpreview
    cases hpreview
  | some entry =>
    obtain ⟨registrant, pk⟩ := entry
    by_cases hmem : registrant ∈ stream.committed
    · rw [previewIngest_of_mem _ hevent hmem] at hpreview
      cases hpreview
    · rw [previewIngest_of_notMem _ hevent hmem] at hpreview
      cases hpreview
      refine ⟨?_, hmem, rfl⟩
      rw [Attempt.address?, hevent]
      rfl

/-- With fewer than `2 ^ 64 - 1` addresses every commit succeeds with the previewed id.
After any number of attempts the two maps of the book agree, its addresses are the
committed ones, and its ids are those from `1` to the next one.  Each committed address
was registered once, under an id of no other address, and all its other actions replace
the key of this id. -/
theorem identities_registered_once {attempts earlier later : List Attempt}
    (hfew : (addressesOf attempts).card < 2 ^ 64 - 1) (hsplit : attempts = earlier ++ later) :
    ∃ stream, start.attemptAll earlier = .ok stream ∧
      (∀ next ∈ later.head?, ∀ unsigned address newActorId,
        previewIngest stream.book next.event next.nonce =
            .emitWithAssignment unsigned address newActorId →
          ∃ book, commitAssignment stream.book address newActorId = .ok (newActorId, book)) ∧
      (∀ address id, stream.book.lookup address = some id ↔ stream.book.reverse id = some address) ∧
      (∀ address, (∃ id, stream.book.lookup address = some id) ↔ address ∈ stream.committed) ∧
      (∀ id, (∃ address, stream.book.reverse id = some address) ↔
        1 ≤ id.toNat ∧ id.toNat < stream.book.nextActorId.toNat) ∧
      (∀ address ∈ stream.committed, ∃ id pk, ∃ keys : List Bytes,
        stream.book.lookup address = some id ∧
        stream.actionsFor address = .registerIdentity id pk :: keys.map (.replaceKey id) ∧
        ∀ other ∈ stream.committed, stream.book.lookup other = some id → other = address) ∧
      ∀ address ∉ stream.committed, stream.actionsFor address = [] := by
  subst hsplit
  have hmono := @addressesOf_mono earlier later
  obtain ⟨stream, hrun, hsound, hknown⟩ :=
    attemptAll_sound ((Finset.card_le_card hmono).trans_lt hfew)
  have hroom := hsound.length_lt ((Finset.card_le_card hmono).trans_lt hfew) hknown
  refine ⟨stream, hrun, ?_, hsound.lookup_iff_reverse hroom, hsound.lookup_iff_mem,
    hsound.ids hroom, ?_, hsound.others⟩
  · intro next hnext unsigned address newActorId hpreview
    obtain ⟨haddress, hmem, rfl⟩ := hsound.preview hpreview
    have hlater : address ∈ addressesOf (earlier ++ later) := by
      simp only [addressesOf, mem_toFinset, mem_filterMap]
      exact ⟨next, mem_append_right _ (mem_of_mem_head? hnext), haddress⟩
    exact ⟨_, hsound.commit (room_of_few hsound hfew
      (fun other hother => hmono (hknown other hother)) hlater) hmem⟩
  · intro address hmem
    obtain ⟨id, hlookup⟩ := (hsound.lookup_iff_mem address).mpr hmem
    obtain ⟨pk, keys, hactions⟩ := hsound.enrolled address hmem id hlookup
    refine ⟨id, pk, keys, hlookup, hactions, ?_⟩
    intro other _ hother
    rw [hsound.lookup_iff_reverse hroom] at hlookup hother
    exact Option.some.inj (hother.symm.trans hlookup)

def registrationBy (i : ℕ) (committed : Bool) : Attempt :=
  ⟨.registeredEcdsa (BitVec.ofNat 160 i) [4] sampleOrigin, 0, committed⟩

theorem identities_registered_once_retried :
    ∃ stream, start.attemptAll [registrationBy 1 false, registrationBy 2 true,
        registrationBy 1 true] = .ok stream ∧
      ∀ address ∈ stream.committed, ∃ id pk, ∃ keys : List Bytes,
        stream.book.lookup address = some id ∧
        stream.actionsFor address = .registerIdentity id pk :: keys.map (.replaceKey id) := by
  obtain ⟨stream, hrun, _, _, _, _, hcommitted, _⟩ := @identities_registered_once
      [registrationBy 1 false, registrationBy 2 true, registrationBy 1 true, registrationBy 1 true]
      [registrationBy 1 false, registrationBy 2 true, registrationBy 1 true]
      [registrationBy 1 true] (by decide) rfl
  refine ⟨stream, hrun, ?_⟩
  intro address hmem
  obtain ⟨id, pk, keys, hlookup, hactions, _⟩ := hcommitted address hmem
  exact ⟨id, pk, keys, hlookup, hactions⟩

/-! ## All ids taken -/

def registrations (count : ℕ) : List Attempt :=
  (List.range count).map fun i => registrationBy i true

theorem registrations_succ (count : ℕ) :
    registrations (count + 1) = registrations count ++ [registrationBy count true] := by
  simp [registrations, range_succ]

theorem addressesOf_registrations (count : ℕ) :
    (addressesOf (registrations count)).card ≤ count := by
  have hlength : ((registrations count).filterMap Attempt.address?).length ≤
      count := by
    apply (length_filterMap_le _ _).trans
    simp [registrations]
  exact (toFinset_card_le _).trans hlength

theorem notMem_registrants {count : ℕ} (hcount : count < 2 ^ 160) :
    BitVec.ofNat 160 count ∉ (List.range count).map (BitVec.ofNat 160) := by
  intro hmem
  obtain ⟨i, hi, heq⟩ := mem_map.mp hmem
  have hlt := mem_range.mp hi
  have hnat := congrArg BitVec.toNat heq
  rw [BitVec.toNat_ofNat, BitVec.toNat_ofNat, Nat.mod_eq_of_lt (by omega),
    Nat.mod_eq_of_lt hcount] at hnat
  omega

theorem attemptAll_registrations {count : ℕ} (hcount : count + 1 < 2 ^ 64) :
    ∃ stream, start.attemptAll (registrations count) = .ok stream ∧ stream.Sound ∧
      stream.committed = (List.range count).map (BitVec.ofNat 160) := by
  induction count with
  | zero => exact ⟨start, rfl, sound_start, rfl⟩
  | succ count ih =>
    obtain ⟨stream, hrun, hsound, hcommitted⟩ := ih (by omega)
    have hmem := notMem_registrants (show count < 2 ^ 160 by omega)
    rw [← hcommitted] at hmem
    have hroom : stream.Room (BitVec.ofNat 160 count) := by
      intro _
      rw [hcommitted, length_map, length_range]
      exact hcount
    have hevent : (registrationBy count true).event.registration =
        some (BitVec.ofNat 160 count, [4]) := rfl
    refine ⟨_, ?_, @hsound.registered _ _ [4] hmem, ?_⟩
    · rw [registrations_succ, attemptAll_concat, hrun, ok_bind,
        hsound.attempt_of_notMem hroom hevent hmem]
      rfl
    · simp only [hcommitted, range_succ, map_append, map_cons, map_nil]

theorem attemptAll_of_all_ids :
    ∃ attempts, (addressesOf attempts).card < 2 ^ 64 ∧
      start.attemptAll attempts = .error .overflow := by
  have hgeneral : ∀ count, count + 2 = 2 ^ 64 →
      start.attemptAll (registrations (count + 1)) = .error .overflow := by
    intro count hcount
    obtain ⟨stream, hrun, hsound, hcommitted⟩ := @attemptAll_registrations count (by omega)
    have hmem := notMem_registrants (show count < 2 ^ 160 by omega)
    rw [← hcommitted] at hmem
    have hpreview := @previewIngest_of_notMem (registrationBy count true).event
      (BitVec.ofNat 160 count) [4] stream.committed (registrationBy count true).nonce
      rfl hmem
    have hfull := commitAssignment_bookOf_full hmem
      (by rw [hcommitted, length_map, length_range]; exact hcount)
      (UInt64.ofNat (stream.committed.length + 1))
    rw [registrations_succ, attemptAll_concat, hrun, ok_bind, attempt, hsound.book, hpreview]
    simp only [registrationBy, if_true, hfull]
    rfl
  refine ⟨registrations (2 ^ 64 - 2 + 1), ?_, hgeneral _ (by norm_num)⟩
  exact (addressesOf_registrations _).trans_lt (by norm_num)

end IdentityStream
end Ingest
end Canon
