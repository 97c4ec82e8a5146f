import Canon.DisputeReplayEvidence

/-!
# The identity registry

Every account registers its own identity: a key whose hash is the account's
address, or a contract which answers a probe as a signer.  The answer of a probed
contract is an argument of a call; `none` stands for a revert.
-/

namespace Canon
namespace Registry

open Dispute Function

inductive RegistryError where
  | pubkeyAddressMismatch (expected derived : Address)
  | wrongPubkeyLength (actual : ℕ)
  | notEip1271Conforming
  | alreadyRegistered (actor : Address)
  | notRegistered (actor : Address)
  deriving DecidableEq, Repr

section Functions

variable (sender : Address) (identities : Identities)

def registerECDSA (uncompressedPubkey : Bytes) : Except RegistryError Identities := do
  revertIf (uncompressedPubkey.length ≠ 64) (.wrongPubkeyLength uncompressedPubkey.length)
  let derived := derivedAddress uncompressedPubkey
  revertIf (derived ≠ sender) (.pubkeyAddressMismatch sender derived)
  revertIf ((identities sender).kind ≠ .unregistered) (.alreadyRegistered sender)
  return update identities sender ⟨.ecdsaEoa, uncompressedPubkey⟩

def registerEIP1271 (contractSigner : Address)
    (probe : Option (BitVec 32)) : Except RegistryError Identities := do
  revertIf (contractSigner = 0) .notEip1271Conforming
  revertIf ((identities sender).kind ≠ .unregistered) (.alreadyRegistered sender)
  match probe with
  | none => .error .notEip1271Conforming
  | some magic => do
      revertIf (magic ≠ 0x1626ba7e ∧ magic ≠ 0) .notEip1271Conforming
      return update identities sender ⟨.eip1271Contract, beBytes 20 contractSigner.toNat⟩

def revoke : Except RegistryError Identities := do
  revertIf ((identities sender).kind = .unregistered) (.notRegistered sender)
  return update identities sender ⟨.unregistered, []⟩

end Functions

inductive RegistryCall where
  | registerECDSA (sender : Address) (uncompressedPubkey : Bytes)
  | registerEIP1271 (sender contractSigner : Address) (probe : Option (BitVec 32))
  | revoke (sender : Address)

def registryStep (identities : Identities) : RegistryCall → Except RegistryError Identities
  | .registerECDSA sender uncompressedPubkey =>
    registerECDSA sender identities uncompressedPubkey
  | .registerEIP1271 sender contractSigner probe =>
    registerEIP1271 sender identities contractSigner probe
  | .revoke sender => revoke sender identities

def RegistryCall.sender : RegistryCall → Address
  | .registerECDSA sender _ | .registerEIP1271 sender _ _ | .revoke sender => sender

def RegistryCall.record : RegistryCall → IdentityRecord
  | .registerECDSA _ uncompressedPubkey => ⟨.ecdsaEoa, uncompressedPubkey⟩
  | .registerEIP1271 _ contractSigner _ => ⟨.eip1271Contract, beBytes 20 contractSigner.toNat⟩
  | .revoke _ => ⟨.unregistered, []⟩

/-- What is asked of a call for the record of its sender. -/
structure RegistryCall.Admitted (identities : Identities) (call : RegistryCall) : Prop where
  turn : (identities call.sender).kind = .unregistered ↔ call.record.kind ≠ .unregistered
  key : call.record.kind = .ecdsaEoa →
    call.record.pubkey.length = 64 ∧ derivedAddress call.record.pubkey = call.sender

/-! ## Registered keys -/

section Keys

variable {identities next : Identities}

def KeysOwned (identities : Identities) : Prop := ∀ owner, (identities owner).kind = .ecdsaEoa →
    (identities owner).pubkey.length = 64 ∧ derivedAddress (identities owner).pubkey = owner

theorem KeysOwned.update {sender : Address} {record : IdentityRecord} (hkeys : KeysOwned identities)
    (hrecord : record.kind = .ecdsaEoa →
      record.pubkey.length = 64 ∧ derivedAddress record.pubkey = sender) :
    KeysOwned (update identities sender record) := by
  intro owner
  by_cases howner : owner = sender
  · subst howner
    rw [update_self]
    exact hrecord
  · rw [update_of_ne howner]
    exact hkeys owner

theorem registryStep_effect {call : RegistryCall} (hstep : registryStep identities call = .ok next) :
    next = update identities call.sender call.record ∧ call.Admitted identities := by
  cases call with
  | registerECDSA =>
    simp only [registryStep, registerECDSA, bind_eq_ok, revertIf_eq_ok,
      exists_const, pure_eq_ok, ne_eq, not_not] at hstep
    obtain ⟨hlength, hderived, hkind, hnext⟩ := hstep
    exact ⟨hnext.symm, by simp [RegistryCall.sender, RegistryCall.record, hkind],
      fun _ => ⟨hlength, hderived⟩⟩
  | registerEIP1271 _ _ probe =>
    cases probe <;> simp only [registryStep, registerEIP1271, bind_eq_ok, revertIf_eq_ok,
      exists_const, pure_eq_ok, ne_eq, not_not, reduceCtorEq, and_false] at hstep
    obtain ⟨_, hkind, _, hnext⟩ := hstep
    refine ⟨hnext.symm, by simp [RegistryCall.sender, RegistryCall.record, hkind], ?_⟩
    intro hkey
    cases hkey
  | revoke =>
    simp only [registryStep, revoke, bind_eq_ok, revertIf_eq_ok, exists_const, pure_eq_ok] at hstep
    obtain ⟨hkind, hnext⟩ := hstep
    refine ⟨hnext.symm, by simpa [RegistryCall.sender, RegistryCall.record] using hkind, ?_⟩
    intro hkey
    cases hkey

theorem KeysOwned.step {call : RegistryCall} (hstep : registryStep identities call = .ok next)
    (hkeys : KeysOwned identities) : KeysOwned next := by
  obtain ⟨rfl, hadmitted⟩ := registryStep_effect hstep
  exact hkeys.update hadmitted.key

theorem KeysOwned.of_reachable (hreach : Reachable registryStep noIdentities identities) :
    KeysOwned identities := by
  refine hreach.invariant (fun _ _ _ hstep hkeys => hkeys.step hstep) ?_
  intro owner hkind
  cases hkind

theorem reachable_registered {pubkey : Bytes} (hlength : pubkey.length = 64) :
    Reachable registryStep noIdentities
      (update noIdentities (derivedAddress pubkey) ⟨.ecdsaEoa, pubkey⟩) := by
  have hstep : registryStep noIdentities (.registerECDSA (derivedAddress pubkey) pubkey) =
        .ok (update noIdentities (derivedAddress pubkey) ⟨.ecdsaEoa, pubkey⟩) := by
    simp only [registryStep, registerECDSA, bind_eq_ok, revertIf_eq_ok,
      exists_const, pure_eq_ok, ne_eq, not_not, noIdentities, and_true]
    exact hlength
  exact (Reachable.refl _).tail hstep

end Keys

/-! ## The calls of one account -/

/-- The record of an account is what the last of its own calls has written, it registers
only without a record and revokes only with one, and no key belongs to two accounts. -/
theorem identities_of_run {identities : Identities} {trace : List (Identities × RegistryCall)}
    (hrun : Run registryStep noIdentities trace identities) :
    (∀ owner, identities owner = ((trace.filter fun entry => entry.2.sender = owner).getLast?.map
      fun entry => entry.2.record).getD ⟨.unregistered, []⟩) ∧
    (∀ entry ∈ trace, entry.2.Admitted entry.1) ∧
    ∀ owner other, (identities owner).kind = .ecdsaEoa → (identities other).kind = .ecdsaEoa →
      (identities owner).pubkey = (identities other).pubkey → owner = other := by
  refine ⟨fun owner => ?_, ?_, fun owner other howner hother hpubkey => ?_⟩
  · induction hrun with
    | nil => rfl
    | @snoc _ _ _ call _ hlast ih =>
      obtain ⟨rfl, _⟩ := registryStep_effect hlast
      by_cases hsender : call.sender = owner
      · simp [List.filter_append, hsender]
      · simp [List.filter_append, hsender, update_of_ne (Ne.symm hsender), ih]
  · rintro ⟨before, call⟩ hmem
    obtain ⟨_, _, _, _, _, hcall, _⟩ := hrun.split hmem
    exact (registryStep_effect hcall).2
  · have hkeys := KeysOwned.of_reachable ⟨trace, hrun⟩
    rw [← (hkeys owner howner).2, hpubkey, (hkeys other hother).2]

theorem identities_of_two_registrations :
    ∃ trace identities, Run registryStep noIdentities trace identities ∧
      (identities 7).kind = .eip1271Contract ∧ ∀ entry ∈ trace, entry.2.Admitted entry.1 := by
  obtain ⟨trace, identities, hrun, hkind⟩ := exists_run_of_traceOf registryStep noIdentities
    [.registerEIP1271 7 5 (some 0), .revoke 7, .registerEIP1271 7 6 (some 0x1626ba7e)]
    (fun _ identities => (identities 7).kind = .eip1271Contract) (by decide +kernel)
  exact ⟨trace, identities, hrun, hkind, (identities_of_run hrun).2.1⟩

end Registry
end Canon
