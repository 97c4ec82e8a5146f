import Canon.ActionEncoding
import Canon.SelfDelimiting

/-!
# Actions are read back in one way

The tag of an action determines the kinds of its fields, and a field of a known kind ends
where its bytes say.  So the bytes of an action determine the action and what follows it,
and so do the signing input and a submitted frame.
-/

namespace Canon
namespace Ingest

open List

/-- The kinds of fields, which the bytes do not tell apart by themselves. -/
inductive WireKind where
  | u64
  | u128
  | bytes
  deriving DecidableEq

def WireField.kind : WireField → WireKind
  | .u64 _ => .u64
  | .u128 _ => .u128
  | .bytes _ => .bytes

/-! ## Fields -/

variable {front rest : Bytes} {first second : Action} {action : Action} {encoded : Bytes}
  {signer otherSigner : ActorId} {nonce otherNonce : Nonce}

theorem encodeHead_append_inj {tag : UInt8} {first second : UInt64}
    (heq : Cbe.encodeHead tag first ++ front =
      Cbe.encodeHead tag second ++ rest) : first = second ∧ front = rest := by
  obtain ⟨hhead, hrest⟩ := SelfDelimiting.append_inj_of_length
    (by rw [Cbe.encodeHead_length, Cbe.encodeHead_length]) heq
  refine ⟨?_, hrest⟩
  have hbytes : leBytes 8 first.toNat = leBytes 8 second.toNat := (List.cons.inj hhead).2
  have hvalue := congrArg leValue hbytes
  have hbound : ∀ value : UInt64, value.toNat < 256 ^ 8 := by
    intro value
    have hlt := value.toNat_lt
    exact hlt
  rw [leValue_leBytes 8 _ (hbound first), leValue_leBytes 8 _ (hbound second)] at hvalue
  exact UInt64.toNat_inj.mp hvalue

theorem encodeBytes_append_inj {first second : Bytes}
    (hfirst : first.length < 2 ^ 64) (hsecond : second.length < 2 ^ 64)
    (heq : Cbe.encodeBytes first ++ front = Cbe.encodeBytes second ++ rest) :
    first = second ∧ front = rest := by
  obtain ⟨hhead, hrest⟩ := encodeHead_append_inj heq
  have hlength := congrArg UInt64.toNat hhead
  rw [UInt64.toNat_ofNat_of_lt' hfirst, UInt64.toNat_ofNat_of_lt' hsecond] at hlength
  exact SelfDelimiting.append_inj_of_length hlength hrest

theorem selfDelimiting_wireField :
    SelfDelimiting WireField.kind WireField.Bounded WireField.toBytes := by
  intro first second front rest hfirst hsecond hkind heq
  cases first with
  | u64 =>
    cases second with
    | u64 =>
      obtain ⟨rfl, hrest⟩ := encodeHead_append_inj heq
      exact ⟨rfl, hrest⟩
    | u128 | bytes => cases hkind
  | u128 =>
    cases second with
    | u64 | bytes => cases hkind
    | u128 =>
      obtain ⟨hvalue, hrest⟩ := encodeHead_append_inj heq
      have hnat := congrArg UInt64.toNat hvalue
      rw [UInt64.toNat_ofNat_of_lt' hfirst, UInt64.toNat_ofNat_of_lt' hsecond] at hnat
      exact ⟨congrArg WireField.u128 (BitVec.eq_of_toNat_eq hnat), hrest⟩
  | bytes =>
    cases second with
    | u64 | u128 => cases hkind
    | bytes =>
      obtain ⟨rfl, hrest⟩ := encodeBytes_append_inj hfirst hsecond heq
      exact ⟨rfl, hrest⟩

/-! ## Actions -/

def kindsOfTag (tag : UInt64) : List WireKind :=
  if tag = 0 then [.u64, .u64, .u64, .u128]
  else if tag = 3 ∨ tag = 9 ∨ tag = 11 then [.u64]
  else if tag = 4 ∨ tag = 12 then [.u64, .bytes]
  else if tag = 13 then [.u64, .u64, .u128, .u64]
  else if tag = 14 then [.u64, .u64, .u128, .bytes]
  else if tag = 16 then []
  else if tag = 17 then [.bytes, .u64, .u64, .bytes]
  else if tag = 18 then [.bytes, .u128, .u64, .u64]
  else [.u64, .u64, .u128]

theorem kinds_fields (action : Action) :
    action.fields.map WireField.kind = kindsOfTag action.tag := by
  cases action <;> rfl

def Action.ofFields (tag : UInt64) : List WireField → Option Action
  | [.u64 r, .u64 sender, .u64 receiver, .u128 amount] =>
    if tag = 0 then some (.transfer r sender receiver amount) else none
  | [.u64 first, .u64 second, .u128 amount] =>
    if tag = 1 then some (.mint first second amount)
    else if tag = 2 then some (.burn first second amount)
    else if tag = 5 then some (.reward first second amount)
    else if tag = 6 then some (.distributeOthers first second amount)
    else if tag = 7 then some (.proportionalDilute first second amount)
    else none
  | [.u64 value] =>
    if tag = 3 then some (.freezeResource value)
    else if tag = 9 then some (.disputeWithdraw value)
    else if tag = 11 then some (.rollback value)
    else none
  | [.u64 actor, .bytes key] =>
    if tag = 4 then some (.replaceKey actor key)
    else if tag = 12 then some (.registerIdentity actor key)
    else none
  | [.u64 r, .u64 recipient, .u128 amount, .u64 depositId] =>
    if tag = 13 then some (.deposit r recipient amount depositId) else none
  | [.u64 r, .u64 sender, .u128 amount, .bytes recipient] =>
    if tag = 14 then
      some (.withdraw r sender amount (BitVec.ofNat 160 (beValue recipient)))
    else none
  | [] => if tag = 16 then some .revokeLocalPolicy else none
  | [.bytes binding, .u64 start, .u64 finish, .bytes commit] =>
    if tag = 17 then some (.faultProofChallenge binding start finish commit)
    else none
  | [.bytes binding, .u128 gameId, .u64 winner, .u64 revertFrom] =>
    if tag = 18 then
      some (.faultProofResolution binding gameId winner revertFrom)
    else none
  | _ => none

theorem ofFields_fields (action : Action) :
    Action.ofFields action.tag action.fields = some action := by
  cases action with
  | withdraw r sender amount recipientL1 =>
    have hlt : recipientL1.toNat < 256 ^ 20 := recipientL1.isLt
    have haddress : BitVec.ofNat 160 (beValue (beBytes 20 recipientL1.toNat)) = recipientL1 := by
      rw [beValue_beBytes 20 _ hlt, BitVec.ofNat_toNat, BitVec.setWidth_eq]
    exact congrArg (fun address =>
      some (Action.withdraw r sender amount address)) haddress
  | _ => rfl

theorem items_append_inj (hfirst : ∀ field ∈ first.items, field.Bounded)
    (hsecond : ∀ field ∈ second.items, field.Bounded)
    (heq : first.items.flatMap WireField.toBytes ++ front =
      second.items.flatMap WireField.toBytes ++ rest) :
    first = second ∧ front = rest := by
  rw [Action.items, forall_mem_cons] at hfirst hsecond
  obtain ⟨htag, hfields⟩ := encodeHead_append_inj heq
  have hkinds : first.fields.map WireField.kind = second.fields.map WireField.kind := by
    rw [kinds_fields, kinds_fields, htag]
  obtain ⟨hsame, hrest⟩ := selfDelimiting_wireField.flatMap hfirst.2 hsecond.2 hkinds hfields
  refine ⟨?_, hrest⟩
  have hback := ofFields_fields first
  rw [htag, hsame, ofFields_fields second] at hback
  exact (Option.some.inj hback).symm

theorem encodeAction_eq_items (hencode : encodeAction action = .ok encoded) :
    (∀ field ∈ action.items, field.Bounded) ∧ encoded = action.items.flatMap WireField.toBytes := by
  obtain ⟨hbounded, rfl⟩ := encodeAction_eq_ok.mp hencode
  refine ⟨?_, rfl⟩
  rw [Action.items, forall_mem_cons]
  exact ⟨trivial, hbounded⟩

theorem encodeAction_starts {longer : Bytes} (hfirst : encodeAction first = .ok encoded)
    (hsecond : encodeAction second = .ok longer) (hstarts : encoded <+: longer) :
    first = second := by
  obtain ⟨hfirstBounded, rfl⟩ := encodeAction_eq_items hfirst
  obtain ⟨hsecondBounded, rfl⟩ := encodeAction_eq_items hsecond
  obtain ⟨rest, hrest⟩ := hstarts
  rw [← append_nil (second.items.flatMap _)] at hrest
  exact (items_append_inj hfirstBounded hsecondBounded hrest).1

/-! ## Signing inputs and frames -/

theorem signingItems_flatMap_inj {deploymentId otherId : Bytes}
    (hfirst : ∀ field ∈ signingItems first signer nonce deploymentId, field.Bounded)
    (hsecond : ∀ field ∈ signingItems second otherSigner otherNonce otherId, field.Bounded)
    (heq : (signingItems first signer nonce deploymentId).flatMap WireField.toBytes =
      (signingItems second otherSigner otherNonce otherId).flatMap WireField.toBytes) :
    first = second ∧ signer = otherSigner ∧ nonce = otherNonce ∧ deploymentId = otherId := by
  simp only [signingItems, forall_mem_append] at hfirst hsecond
  obtain ⟨⟨hfirstFront, hfirstItems⟩, hfirstBack⟩ := hfirst
  obtain ⟨⟨hsecondFront, hsecondItems⟩, hsecondBack⟩ := hsecond
  simp only [signingItems, flatMap_append, append_assoc] at heq
  obtain ⟨hfront, hrest⟩ := selfDelimiting_wireField.flatMap hfirstFront hsecondFront rfl heq
  obtain ⟨haction, hback⟩ := items_append_inj hfirstItems hsecondItems hrest
  have hlast : [WireField.u64 signer, .u128 nonce] = [.u64 otherSigner, .u128 otherNonce] := by
    exact (selfDelimiting_wireField.flatMap hfirstBack hsecondBack rfl hback).1
  simp only [List.cons.injEq, WireField.u64.injEq, WireField.u128.injEq,
    WireField.bytes.injEq, and_true, true_and] at hfront hlast
  exact ⟨haction, hlast.1, hlast.2, hfront⟩

theorem signedItems_flatMap_inj {sig otherSig : Bytes}
    (hfirst : ∀ field ∈ signedItems first signer nonce sig, field.Bounded)
    (hsecond : ∀ field ∈ signedItems second otherSigner otherNonce otherSig, field.Bounded)
    (heq : (signedItems first signer nonce sig).flatMap WireField.toBytes =
      (signedItems second otherSigner otherNonce otherSig).flatMap WireField.toBytes) :
    first = second ∧ signer = otherSigner ∧ nonce = otherNonce ∧ sig = otherSig := by
  simp only [signedItems, forall_mem_append] at hfirst hsecond
  obtain ⟨hfirstItems, hfirstBack⟩ := hfirst
  obtain ⟨hsecondItems, hsecondBack⟩ := hsecond
  simp only [signedItems, flatMap_append] at heq
  obtain ⟨haction, hback⟩ := items_append_inj hfirstItems hsecondItems heq
  have hlast : [WireField.u64 signer, .u128 nonce, .bytes sig] =
      [.u64 otherSigner, .u128 otherNonce, .bytes otherSig] := by
    rw [← append_nil (List.flatMap _ [WireField.u64 signer, _, _]),
      ← append_nil (List.flatMap _ [WireField.u64 otherSigner, _, _])] at hback
    exact (selfDelimiting_wireField.flatMap hfirstBack hsecondBack rfl hback).1
  simp only [List.cons.injEq, WireField.u64.injEq, WireField.u128.injEq,
    WireField.bytes.injEq, and_true] at hlast
  exact ⟨haction, hlast⟩

/-! ## The wire format -/

def WireField.number : WireField → Option ℕ
  | .u64 value => some value.toNat
  | .u128 value => some value.toNat
  | .bytes _ => none

/-- The byte strings of the action have the length of stored ones. -/
def Action.Stored (action : Action) : Prop :=
  ∀ payload, WireField.bytes payload ∈ action.fields → payload.length < 2 ^ 63

theorem bounded_iff_number (hstored : action.Stored) :
    (∀ field ∈ action.fields, field.Bounded) ↔
      ∀ field ∈ action.fields, ∀ n ∈ field.number, n < 2 ^ 64 := by
  refine forall₂_congr fun field hfield => ?_
  cases field with
  | u64 value => simp [WireField.Bounded, WireField.number, value.toNat_lt]
  | u128 => simp [WireField.Bounded, WireField.number]
  | bytes payload =>
    have hlength := hstored payload hfield
    simp only [WireField.Bounded, WireField.number, Option.mem_def,
      reduceCtorEq, false_implies, implies_true, iff_true]
    omega

/-- An action is encoded exactly when its numbers fit, no encoding starts another one, and
signing inputs and frames determine all of their parts. -/
theorem action_wire_format :
    (∀ action : Action, action.Stored →
      ((∃ encoded, encodeAction action = .ok encoded) ↔
        ∀ field ∈ action.fields, ∀ n ∈ field.number, n < 2 ^ 64)) ∧
    (∀ first second encoded longer, encodeAction first = .ok encoded →
      encodeAction second = .ok longer → encoded <+: longer →
        first = second) ∧
    (∀ first second signer otherSigner nonce otherNonce deploymentId otherId encoded,
      signingInput first signer nonce deploymentId = .ok encoded →
      signingInput second otherSigner otherNonce otherId = .ok encoded →
        first = second ∧ signer = otherSigner ∧ nonce = otherNonce ∧ deploymentId = otherId) ∧
    ∀ first second signer otherSigner nonce otherNonce sig otherSig encoded,
      encodeSignedAction first signer nonce sig = .ok encoded →
      encodeSignedAction second otherSigner otherNonce otherSig = .ok encoded →
        first = second ∧ signer = otherSigner ∧ nonce = otherNonce ∧ sig = otherSig := by
  refine ⟨?_, ?_, ?_, ?_⟩
  · intro action hstored
    rw [← bounded_iff_number hstored]
    constructor
    · rintro ⟨encoded, hencode⟩
      exact (encodeAction_eq_ok.mp hencode).1
    · exact fun hbounded => ⟨_, encodeAction_eq_ok.mpr ⟨hbounded, rfl⟩⟩
  · exact fun _ _ _ _ hfirst hsecond => encodeAction_starts hfirst hsecond
  · intro _ _ _ _ _ _ _ _ _ hfirst hsecond
    obtain ⟨hfirstBounded, rfl⟩ := signingInput_eq_ok.mp hfirst
    obtain ⟨hsecondBounded, heq⟩ := signingInput_eq_ok.mp hsecond
    exact signingItems_flatMap_inj hfirstBounded hsecondBounded heq
  · intro _ _ _ _ _ _ _ _ _ hfirst hsecond
    obtain ⟨hfirstBounded, rfl⟩ := encodeSignedAction_eq_ok.mp hfirst
    obtain ⟨hsecondBounded, heq⟩ := encodeSignedAction_eq_ok.mp hsecond
    exact signedItems_flatMap_inj hfirstBounded hsecondBounded heq

theorem action_wire_format_freeze : (∃ encoded, encodeAction (.replaceKey 1 [2]) = .ok encoded) ∧
    (∃ encoded longer, encodeAction (.freezeResource 7) = .ok encoded ∧
      encodeAction (.rollback 7) = .ok longer ∧ ¬encoded <+: longer) ∧
    (∃ encoded, signingInput (.freezeResource 7) 1 2 [3] = .ok encoded ∧
      signingInput (.freezeResource 7) 1 2 [4] ≠ .ok encoded) ∧
    ∃ encoded, encodeSignedAction (.freezeResource 7) 1 2 [3] = .ok encoded ∧
      encodeSignedAction (.freezeResource 7) 1 2 [4] ≠ .ok encoded := by
  obtain ⟨hencodes, hstarts, hsigning, hsigned⟩ := action_wire_format
  refine ⟨?_, ⟨_, _, rfl, rfl, ?_⟩, ⟨_, rfl, ?_⟩, ⟨_, rfl, ?_⟩⟩
  · refine (hencodes (.replaceKey 1 [2]) ?_).mpr ?_
    · intro payload hpayload
      simp [Action.fields] at hpayload
      simp [hpayload]
    · simp [Action.fields, WireField.number]
  · intro hstart
    cases hstarts (.freezeResource 7) (.rollback 7) _ _ rfl rfl hstart
  · intro hsame
    cases (hsigning (.freezeResource 7) _ 1 _ 2 _ [3] _ _ rfl hsame).2.2.2
  · intro hsame
    cases (hsigned (.freezeResource 7) _ 1 _ 2 _ [3] _ _ rfl hsame).2.2.2

end Ingest
end Canon
