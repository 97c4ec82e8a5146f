import Canon.LogDecoding
import Canon.SignatureAgreement

/-!
# From a registration to an identity on the second layer

The ingestor translates a decoded registration into an action of the bridge
actor.  An address which the book does not know is given the next actor id and
registered; a known one gets its key replaced.  The key bytes are passed through
from the log.
-/

namespace Canon
namespace Ingest

open Dispute Registry

/-! ## The address book -/

structure AddressBook where
  forward : Address → Option ActorId
  reverse : ActorId → Option Address
  nextActorId : ActorId

def bridgeActorId : ActorId := 0

def AddressBook.new : AddressBook where
  forward := fun _ => none
  reverse := fun _ => none
  nextActorId := 1

def AddressBook.lookup (book : AddressBook) (address : Address) : Option ActorId :=
  book.forward address

inductive CommitError where
  | overflow
  | expectedIdMismatch (expected actual : ActorId)
  deriving DecidableEq

/-- The id of an address and the book which has it.  A known address keeps its
id; the counter stops before it would wrap around. -/
def AddressBook.tryAssign (book : AddressBook) (address : Address) :
    Except CommitError (ActorId × AddressBook) :=
  match book.forward address with
  | some existing => .ok (existing, book)
  | none =>
    if book.nextActorId.toNat + 1 < 2 ^ 64 then
      .ok (book.nextActorId, {
        forward := Function.update book.forward address (some book.nextActorId)
        reverse := Function.update book.reverse book.nextActorId (some address)
        nextActorId := book.nextActorId + 1 })
    else .error .overflow

def commitAssignment (book : AddressBook) (address : Address)
    (expectedId : ActorId) : Except CommitError (ActorId × AddressBook) := do
  let (assigned, next) ← book.tryAssign address
  revertIf (assigned ≠ expectedId) (.expectedIdMismatch expectedId assigned)
  return (assigned, next)

variable {book next : AddressBook} {address : Address} {expectedId assigned : ActorId}

theorem lookup_of_commitAssignment
    (hcommit : commitAssignment book address expectedId = .ok (assigned, next)) :
    next.lookup address = some expectedId := by
  simp only [commitAssignment, bind_eq_ok, revertIf_eq_ok, exists_const,
    pure_eq_ok, ne_eq, not_not, Prod.exists, Prod.mk.injEq] at hcommit
  obtain ⟨given, found, hassign, hexpected, _, rfl⟩ := hcommit
  unfold AddressBook.tryAssign at hassign
  cases hknown : book.forward address with
  | some =>
    rw [hknown] at hassign
    obtain ⟨rfl, rfl⟩ := Prod.mk.inj (Except.ok.inj hassign)
    rw [AddressBook.lookup, hknown, hexpected]
  | none =>
    rw [hknown] at hassign
    split_ifs at hassign
    obtain ⟨rfl, rfl⟩ := Prod.mk.inj (Except.ok.inj hassign)
    rw [← hexpected]
    exact Function.update_self ..

theorem id_of_commitAssignment (hcommit : commitAssignment book address expectedId =
      .ok (assigned, next)) : assigned = expectedId := by
  simp only [commitAssignment, bind_eq_ok, revertIf_eq_ok, exists_const,
    pure_eq_ok, ne_eq, not_not, Prod.exists, Prod.mk.injEq] at hcommit
  obtain ⟨given, found, _, hexpected, rfl, rfl⟩ := hcommit
  exact hexpected

/-! ## Translation -/

structure UnsignedAction where
  action : Action
  signer : ActorId
  nonce : Nonce
  deriving DecidableEq

inductive Translated where
  | noAction
  | emit (action : UnsignedAction)
  | emitWithAssignment (action : UnsignedAction) (address : Address) (newActorId : ActorId)
  deriving DecidableEq

def Translated.unsigned : Translated → Option UnsignedAction
  | .noAction => none
  | .emit action => some action
  | .emitWithAssignment action _ _ => some action

def previewRegistration (book : AddressBook) (actorAddress : Address)
    (pk : Bytes) (currentNonce : Nonce) : Translated :=
  match book.lookup actorAddress with
  | none =>
    .emitWithAssignment ⟨.registerIdentity book.nextActorId pk, bridgeActorId, currentNonce⟩
      actorAddress book.nextActorId
  | some existingId =>
    .emit ⟨.replaceKey existingId pk, bridgeActorId, currentNonce⟩

def previewIngest (book : AddressBook) (event : IngestedEvent)
    (currentNonce : Nonce) : Translated :=
  match event with
  | .registeredEcdsa actor pubkey _ =>
    previewRegistration book actor pubkey currentNonce
  | .registeredEip1271 actor contractSigner _ =>
    previewRegistration book actor (beBytes 20 contractSigner.toNat) currentNonce
  | .revoked .. => .noAction
  | .depositInitiated .. => .noAction

/-- The decoder and the translation, as the watcher composes them for one
log. -/
def translateLog (book : AddressBook) (log : RawLog) (currentNonce : Nonce) :
    Except LogError Translated := do
  match ← decodeEvent log with
  | none => return .noAction
  | some event => return previewIngest book event currentNonce

/-- The identity action for an address under the book: the address is registered
under a fresh id, or its key is replaced. -/
def identityAction (book : AddressBook) (address : Address) (pk : Bytes) :
    Action :=
  match book.lookup address with
  | none => .registerIdentity book.nextActorId pk
  | some existingId => .replaceKey existingId pk

def Action.key : Action → Option Bytes
  | .registerIdentity _ pk => some pk
  | .replaceKey _ newKey => some newKey
  | _ => none

theorem identityAction_key (book : AddressBook) (address : Address)
    (pk : Bytes) : (identityAction book address pk).key = some pk := by
  unfold identityAction
  cases book.lookup address with
  | none | some => rfl

theorem previewRegistration_unsigned (book : AddressBook) (address : Address)
    (pk : Bytes) (currentNonce : Nonce) :
    (previewRegistration book address pk currentNonce).unsigned =
      some ⟨identityAction book address pk, bridgeActorId, currentNonce⟩ := by
  unfold previewRegistration identityAction
  cases book.lookup address with
  | none | some => rfl

/-! ## The key which reaches the second layer -/

section Keys

variable {sender : Address} {identities next : Identities} {uncompressedPubkey : Bytes}

theorem length_of_registerECDSA
    (haccepted : registerECDSA sender identities uncompressedPubkey = .ok next) :
    uncompressedPubkey.length = 64 := by
  simp only [registerECDSA, bind_eq_ok, revertIf_eq_ok, exists_const, ne_eq, not_not] at haccepted
  exact haccepted.1

theorem translateLog_registered (registry : Address) (origin : Origin)
    (book : AddressBook) (currentNonce : Nonce)
    (haccepted : registerECDSA sender identities uncompressedPubkey = .ok next) :
    ∃ translated, translateLog book (registeredEcdsaLog registry sender uncompressedPubkey origin)
        currentNonce = .ok translated ∧
      translated.unsigned =
        some ⟨identityAction book sender uncompressedPubkey, bridgeActorId, currentNonce⟩ := by
  have hlength := length_of_registerECDSA haccepted
  have hdecoded := @decodeEvent_registeredEcdsaLog registry sender
    uncompressedPubkey origin (by rw [hlength]; decide)
  refine ⟨_, ?_, previewRegistration_unsigned book sender uncompressedPubkey currentNonce⟩
  rw [translateLog, hdecoded]
  rfl

theorem verify_eq_false_of_length {curve : CurveLibrary}
    {pk msg sig : Bytes} (hlength : pk.length ≠ pubkeyLen) : verify curve pk msg sig = false := by
  rw [verify, if_pos hlength]

end Keys

/-- Whatever the registry accepts is decoded and translated to an identity
action of the bridge actor with exactly the registered bytes as key, for a first
registration and for a replacement.  Under these bytes the verification core
accepts no message and no signature, whatever the curve library does: it asks
for 33 bytes and the registry for 64. -/
theorem registered_key_never_accepted {sender : Address} {identities next : Identities}
    {uncompressedPubkey : Bytes}
    (haccepted : registerECDSA sender identities uncompressedPubkey = .ok next)
    (curve : CurveLibrary) (registry : Address) (origin : Origin)
    (book : AddressBook) (currentNonce : Nonce) :
    ∃ translated unsigned key, translateLog book
          (registeredEcdsaLog registry sender uncompressedPubkey origin)
          currentNonce = .ok translated ∧ translated.unsigned = some unsigned ∧
        unsigned.signer = bridgeActorId ∧
        unsigned.action = identityAction book sender uncompressedPubkey ∧
        unsigned.action.key = some key ∧ key = uncompressedPubkey ∧
        ((∃ msg sig, verify curve key msg sig = true) ↔ False) := by
  obtain ⟨translated, htranslated, hunsigned⟩ :=
    translateLog_registered registry origin book currentNonce haccepted
  refine ⟨translated, _, uncompressedPubkey, htranslated, hunsigned, rfl, rfl,
    identityAction_key book sender uncompressedPubkey, rfl, ?_⟩
  rw [iff_false]
  rintro ⟨msg, sig, hverified⟩
  have hlength : uncompressedPubkey.length ≠ pubkeyLen := by
    rw [length_of_registerECDSA haccepted]
    decide
  rw [verify_eq_false_of_length hlength] at hverified
  cases hverified

theorem samplePubkey_registered :
    registerECDSA sampleSigner noIdentities samplePubkey = .ok registeredSigner := by
  have hlength : samplePubkey.length = 64 := by decide +kernel
  simp only [registerECDSA, bind_eq_ok, revertIf_eq_ok, exists_const, pure_eq_ok, ne_eq, not_not]
  exact ⟨hlength, rfl, rfl, rfl⟩

def sampleOrigin : Origin := ⟨100, .zero, 0⟩

/-- The owner of the scalar 0xC0FFEE registers its key.  The first action
registers the actor 1 with the 64 bytes, under which nothing is accepted, while
a signature of the owner is accepted under the compressed key. -/
theorem samplePubkey_unusable :
    (∃ translated, translateLog .new
        (registeredEcdsaLog 0x1DE sampleSigner samplePubkey sampleOrigin) 0 = .ok translated ∧
      translated.unsigned = some ⟨.registerIdentity 1 samplePubkey, 0, 0⟩) ∧
    (∀ msg sig, verify secp256k1 samplePubkey msg sig = false) ∧
    verify secp256k1 (compressedKey samplePubkey) signedDigest.toBytes sampleSignature = true := by
  refine ⟨?_, ?_, ?_⟩
  · exact translateLog_registered 0x1DE sampleOrigin .new 0 samplePubkey_registered
  · intro msg sig
    apply verify_eq_false_of_length
    decide
  · have haccepted := sampleSignature_accepted
    rw [registeredSigner_record, actionDigest_signedEntry] at haccepted
    exact haccepted

/-- After the assignment is committed, a later registration of the same account
replaces the key of the actor 1, again by bytes which nothing is accepted
under. -/
theorem samplePubkey_replaced :
    ∃ book, commitAssignment .new sampleSigner 1 = .ok (1, book) ∧
      ∃ translated unsigned key, translateLog book
            (registeredEcdsaLog 0x1DE sampleSigner samplePubkey sampleOrigin) 1 = .ok translated ∧
          translated.unsigned = some unsigned ∧ unsigned.action = .replaceKey 1 samplePubkey ∧
          unsigned.action.key = some key ∧ ¬∃ msg sig, verify secp256k1 key msg sig = true := by
  have hcommit : ∃ book, commitAssignment .new sampleSigner 1 = .ok (1, book) := ⟨_, rfl⟩
  obtain ⟨book, hbook⟩ := hcommit
  obtain ⟨translated, unsigned, key, htranslated, hunsigned, _, haction,
    hkey, _, hnever⟩ := registered_key_never_accepted samplePubkey_registered
      secp256k1 0x1DE sampleOrigin book 1
  refine ⟨book, hbook, translated, unsigned, key, htranslated, hunsigned, ?_, hkey, hnever.mp⟩
  rw [haction, identityAction, lookup_of_commitAssignment hbook]

end Ingest
end Canon
