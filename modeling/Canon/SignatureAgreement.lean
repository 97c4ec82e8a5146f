import Canon.IdentityRegistry
import Canon.Secp256k1

/-!
# Signatures on both layers

The verification core of the ledger side takes 64 bytes, the two scalars of the
signature.  The dispute verifier takes 65 bytes, with the parity of the signature's
point at the end, and holds every other length to be invalid.

The curve library of the verification core is a parameter; `secp256k1` is the
executable curve, and `ecdsaRecover` the recovery over it.
-/

namespace Canon
namespace Dispute

open Registry

/-! ## The verification core of the ledger side -/

structure CurveLibrary where
  Key : Type
  Signature : Type
  fromSec1Bytes : Bytes → Option Key
  fromSlice : Bytes → Option Signature
  sIsHigh : Signature → Bool
  verifyPrehash : Key → Bytes → Signature → Bool

def pubkeyLen : ℕ := 33

def messageLen : ℕ := 32

def signatureLen : ℕ := 64

def sec1TagEven : UInt8 := 0x02

def sec1TagOdd : UInt8 := 0x03

def verify (curve : CurveLibrary) (pk msg sig : Bytes) : Bool :=
  if pk.length ≠ pubkeyLen then false
  else if msg.length ≠ messageLen then false
  else if sig.length ≠ signatureLen then false
  else if pk.getD 0 0 ≠ sec1TagEven ∧ pk.getD 0 0 ≠ sec1TagOdd then false
  else
    match curve.fromSec1Bytes pk with
    | none => false
    | some verifyingKey =>
      match curve.fromSlice sig with
      | none => false
      | some signature =>
        if curve.sIsHigh signature then false
        else curve.verifyPrehash verifyingKey msg signature

theorem length_of_verify {curve : CurveLibrary} {pk msg sig : Bytes}
    (haccepted : verify curve pk msg sig = true) : sig.length = 64 := by
  by_contra hlength
  simp [verify, signatureLen, hlength] at haccepted

/-- The compressed form of a registered key: the parity of its second
coordinate and the first coordinate. -/
def compressedKey (uncompressedPubkey : Bytes) : Bytes :=
  (if (uncompressedPubkey.getD 63 0).toNat % 2 = 0 then sec1TagEven
    else sec1TagOdd) :: uncompressedPubkey.take 32

/-! ## The verdict on an accepted entry -/

section Verdicts

variable {recover : Recover} {deployment : Deployment}
  {identities : Identities} {entry : LogEntry} {owner : Address}

theorem readLogEntry_encode (hsize : entry.sig.length < 2 ^ 64) :
    readLogEntry entry.encode 0 = .ok (entry, 0 + entry.encode.length) :=
  readLogEntry_of_drop hsize (List.append_nil _).symm

def Known (identities : Identities) (owner : Address) : Prop :=
  owner ≠ 0 ∧ (identities owner).kind = .ecdsaEoa ∧ derivedAddress (identities owner).pubkey = owner

theorem checkSignatureInvalid_of_length
    (hsize : entry.sig.length < 2 ^ 64) (hlength : entry.sig.length ≠ 65) :
    checkSignatureInvalid recover deployment identities entry.encode owner = .ok .upheld ↔
      Known identities owner := by
  have hread := readLogEntry_encode hsize
  unfold Known
  simp only [checkSignatureInvalid, hread, Except.mapError, ok_bind]
  by_cases hkind : (identities owner).kind = .ecdsaEoa
  · by_cases hderived : derivedAddress (identities owner).pubkey = owner
    · simp [hkind, hderived, hlength, pure, Except.pure]
    · simp [hkind, hderived, pure, Except.pure]
  · simp [hkind, pure, Except.pure]

theorem checkSignatureInvalid_of_recover
    (hknown : Known identities owner) (hlength : entry.sig.length = 65)
    (hrecover : recover (actionDigest deployment entry) entry.sig = some owner) :
    checkSignatureInvalid recover deployment identities entry.encode owner = .ok .rejected := by
  obtain ⟨hzero, hkind, hderived⟩ := hknown
  have hread := readLogEntry_encode (show entry.sig.length < 2 ^ 64 by rw [hlength]; norm_num)
  simp only [checkSignatureInvalid, hread, Except.mapError, ok_bind, hzero,
    hkind, hderived, hlength, hrecover, ne_eq, not_true_eq_false, if_false, if_true]
  rfl

end Verdicts

/-- The dispute verifier spares a registered account for a signature which the
ledger side has accepted exactly when the account is the zero address. -/
theorem checkSignatureInvalid_accepted_iff
    {curve : CurveLibrary} {recover : Recover} {deployment : Deployment}
    {identities : Identities} {owner : Address} {entry : LogEntry}
    (hreach : Reachable registryStep noIdentities identities)
    (hkind : (identities owner).kind = .ecdsaEoa)
    (haccepted : verify curve (compressedKey (identities owner).pubkey)
      (actionDigest deployment entry).toBytes entry.sig = true) :
    checkSignatureInvalid recover deployment identities entry.encode owner ≠ .ok .upheld ↔
      owner = 0 := by
  have hlength := length_of_verify haccepted
  have howned := (KeysOwned.of_reachable hreach owner hkind).2
  rw [Ne, checkSignatureInvalid_of_length (by rw [hlength]; norm_num) (by rw [hlength]; norm_num)]
  unfold Known
  constructor
  · intro hunknown
    by_contra hzero
    exact hunknown ⟨hzero, hkind, howned⟩
  · rintro hzero ⟨hne, _⟩
    exact hne hzero

/-! ## A signature over the real curve -/

def secp256k1 : CurveLibrary where
  Key := Secp256k1.Point
  Signature := Secp256k1.Signature
  fromSec1Bytes := Secp256k1.keyFromSec1Bytes
  fromSlice := Secp256k1.signatureFromSlice
  sIsHigh := Secp256k1.Signature.sIsHigh
  verifyPrehash := Secp256k1.verifyPrehash

/-- `ECDSA.recover`: 65 bytes with a low second scalar and 27 or 28 at the
end. -/
def ecdsaRecover : Recover := fun digest sig =>
  if sig.length ≠ 65 then none
  else
    (Secp256k1.signatureFromSlice (sig.take 64)).bind fun signature =>
      if signature.sIsHigh then none
      else if sig.getD 64 0 ≠ 27 ∧ sig.getD 64 0 ≠ 28 then none
      else
        (Secp256k1.recoverKey digest.toBytes signature (sig.getD 64 0 = 28)).map fun key =>
            derivedAddress (beBytes 32 key.affineX ++ beBytes 32 key.affineY)

def samplePubkey : Bytes := beBytes 32
      0x2a5bbcb0eede528e6abe5f2ec50ad7887eb5677af383a460b05ee23bf892dfe5 ++
    beBytes 32 0x52c93747550eda8404c8b473786c00dfd8fd1ef4bc033f359ccf5b77bd656d21

def sampleSigner : Address := derivedAddress samplePubkey

def registeredSigner : Identities :=
  Function.update noIdentities sampleSigner ⟨.ecdsaEoa, samplePubkey⟩

def sampleSignature : Bytes := beBytes 32
      0xb9d0c3b40ecdcef0cb5b8f538a45fdf2b922727e55b8814a791d324b34b4ea0b ++
    beBytes 32 0x7b7d113cde1e6a56391d441dfdeb96b53a524fd6187916d8500d211f8c1a7028

def signedEntry (sig : Bytes) : LogEntry := ⟨.zero, .zero, 7, 0, sig⟩

def signedDigest : Bytes32 := .ofBytes (beBytes 32
    9077438121920281165281506363594560576581069668781364521969522673550585182081)

theorem actionDigest_signedEntry (sig : Bytes) :
    actionDigest sampleDeployment (signedEntry sig) = signedDigest := by
  have hdigest : actionDigest sampleDeployment (signedEntry []) =
      signedDigest := by
    decide +kernel
  exact hdigest

theorem sampleSigner_ne_zero : sampleSigner ≠ 0 := by
  decide +kernel

theorem registeredSigner_record : registeredSigner sampleSigner = ⟨.ecdsaEoa, samplePubkey⟩ :=
  Function.update_self _ _ _

theorem sampleSignature_accepted :
    verify secp256k1 (compressedKey (registeredSigner sampleSigner).pubkey)
      (actionDigest sampleDeployment (signedEntry sampleSignature)).toBytes
      (signedEntry sampleSignature).sig = true := by
  have haccepted : verify secp256k1 (compressedKey samplePubkey)
      signedDigest.toBytes sampleSignature = true := by
    decide +kernel
  rw [registeredSigner_record, actionDigest_signedEntry]
  exact haccepted

theorem registeredSigner_reachable : Reachable registryStep noIdentities registeredSigner :=
  reachable_registered (by decide +kernel)

theorem sampleSignature_spared_iff :
    checkSignatureInvalid ecdsaRecover sampleDeployment registeredSigner
        (signedEntry sampleSignature).encode sampleSigner ≠ .ok .upheld ↔ sampleSigner = 0 :=
  checkSignatureInvalid_accepted_iff registeredSigner_reachable
    (by rw [registeredSigner_record]) sampleSignature_accepted

theorem sampleSigner_known : Known registeredSigner sampleSigner := by
  refine ⟨sampleSigner_ne_zero, ?_, ?_⟩
  · rw [registeredSigner_record]
  · rw [registeredSigner_record]
    rfl

/-- A registered key, and a signature which the ledger side accepts for an
entry: the dispute verifier upholds the claim that it is invalid, and rejects
the claim when the byte for the parity is appended. -/
theorem acceptedSignature_upheld :
    (registeredSigner sampleSigner).kind = .ecdsaEoa ∧
      verify secp256k1 (compressedKey (registeredSigner sampleSigner).pubkey)
        (actionDigest sampleDeployment (signedEntry sampleSignature)).toBytes
        sampleSignature = true ∧
      checkSignatureInvalid ecdsaRecover sampleDeployment registeredSigner
        (signedEntry sampleSignature).encode sampleSigner = .ok .upheld ∧
      checkSignatureInvalid ecdsaRecover sampleDeployment registeredSigner
        (signedEntry (sampleSignature ++ [28])).encode sampleSigner = .ok .rejected := by
  have hrecover : ecdsaRecover signedDigest (sampleSignature ++ [28]) = some sampleSigner := by
    decide +kernel
  refine ⟨by rw [registeredSigner_record], sampleSignature_accepted, ?_, ?_⟩
  · exact (checkSignatureInvalid_of_length (by decide +kernel)
      (by decide +kernel)).mpr sampleSigner_known
  · apply checkSignatureInvalid_of_recover sampleSigner_known (by decide +kernel)
    rw [actionDigest_signedEntry]
    exact hrecover

end Dispute
end Canon
