import Canon.LogDecoding

/-!
# Logs as the contracts emit them

The arguments of an event which are not indexed are encoded in two parts: one slot for
each argument, and behind these the contents of the arguments of type `bytes`, whose
slots only have the offset.

The decoder runs on logs which anyone may have written.  So it is modelled once more
with each operation which could stop the process.
-/

namespace Canon
namespace Ingest

open List

/-! ## The encoding of arguments -/

inductive AbiArgument where
  | word (slot : Bytes32)
  | bytes (payload : Bytes)

def AbiArgument.tail : AbiArgument → Bytes
  | .word _ => []
  | .bytes payload => abiWord payload.length ++ (payload ++
      List.replicate ((32 - payload.length % 32) % 32) 0)

/-- The slots of the arguments, where the next contents are at the given offset. -/
def abiHeads (offset : ℕ) : List AbiArgument → Bytes
  | [] => []
  | .word slot :: rest => slot.toBytes ++ abiHeads offset rest
  | .bytes payload :: rest => abiWord offset ++
      abiHeads (offset + (AbiArgument.bytes payload).tail.length) rest

def abiEncode (arguments : List AbiArgument) : Bytes :=
  abiHeads (32 * arguments.length) arguments ++ arguments.flatMap AbiArgument.tail

theorem abiEncode_bytes (payload : Bytes) :
    abiEncode [.bytes payload] = abiEncodeBytes payload := by
  simp [abiEncode, abiHeads, AbiArgument.tail, abiEncodeBytes]

def IngestedEvent.topic : IngestedEvent → EventTopic
  | .registeredEcdsa .. => .registeredEcdsa
  | .registeredEip1271 .. => .registeredEip1271
  | .revoked .. => .revoked
  | .depositInitiated .. => .depositInitiated

def IngestedEvent.indexed : IngestedEvent → List Bytes32
  | .registeredEcdsa actor _ _ => [abiSlot actor.toNat]
  | .registeredEip1271 actor _ _ => [abiSlot actor.toNat]
  | .revoked actor _ => [abiSlot actor.toNat]
  | .depositInitiated depositor resourceId _ _ _ _ _ =>
    [abiSlot depositor.toNat, abiSlot resourceId.toNat]

def IngestedEvent.arguments : IngestedEvent → List AbiArgument
  | .registeredEcdsa _ pubkey _ => [.bytes pubkey]
  | .registeredEip1271 _ contractSigner _ => [.word (abiSlot contractSigner.toNat)]
  | .revoked _ _ => []
  | .depositInitiated _ _ token amount depositorNonce receiptHash _ =>
    [.word (abiSlot token.toNat), .word amount,
      .word (abiSlot depositorNonce.toNat), .word receiptHash]

def emittedLog (contract : Address) (event : IngestedEvent) : RawLog where
  address := contract
  topics := event.topic.hash :: event.indexed
  data := abiEncode event.arguments
  origin := event.origin

/-! ## Reading back -/

def EventTopic.firstByte : EventTopic → UInt8
  | .registeredEcdsa => 206
  | .registeredEip1271 => 41
  | .revoked => 182
  | .depositInitiated => 84

theorem EventTopic.head_hash (topic : EventTopic) :
    topic.hash.toBytes.head? = some topic.firstByte := by
  cases topic <;> decide +kernel

theorem EventTopic.hash_injective {topic other : EventTopic}
    (hhash : topic.hash = other.hash) : topic = other := by
  have hhead := topic.head_hash
  rw [hhash, other.head_hash, Option.some.injEq] at hhead
  cases topic <;> cases other <;> first | rfl | cases hhead

theorem EventTopic.fromHash_hash (topic : EventTopic) :
    EventTopic.fromHash topic.hash = some topic := by
  have hsome : (EventTopic.fromHash topic.hash).isSome := by
    rw [EventTopic.fromHash, List.find?_isSome]
    exact ⟨topic, by cases topic <;> decide, by simp⟩
  obtain ⟨variant, hvariant⟩ := Option.isSome_iff_exists.mp hsome
  rw [EventTopic.fromHash] at hvariant
  have hhash := List.find?_some hvariant
  rw [decide_eq_true_eq] at hhash
  rw [EventTopic.fromHash, hvariant, hash_injective hhash]

theorem decodeAbiU64_abiSlot (value : UInt64) (offset : ℕ) :
    decodeAbiU64 (abiSlot value.toNat) offset = .ok value := by
  rw [decodeAbiU64, slotValue_abiSlot value.toNat_lt]
  simp

section Decoded

variable {log : RawLog} {actor : Address} {topics : List Bytes32}

theorem decodeRegisteredEip1271_of {contractSigner : Address} {topic : Bytes32}
    (htopics : log.topics = [topic, abiSlot actor.toNat])
    (hdata : log.data = (abiSlot contractSigner.toNat).toBytes) :
    decodeRegisteredEip1271 log = .ok (.registeredEip1271 actor contractSigner log.origin) := by
  have hslot : readSlot log.data 0 = .ok (abiSlot contractSigner.toNat) :=
    @readSlot_of_drop _ [] 0 _ (by simp [hdata]) (by decide)
  rw [decodeRegisteredEip1271, topicCount, revertIf_of_not (by simp [htopics]), ok_bind, htopics]
  simp only [getD_cons_succ, getD_cons_zero]
  rw [decodeAbiAddress_abiSlot, ok_bind, hslot, ok_bind, decodeAbiAddress_abiSlot]
  rfl

theorem decodeRevoked_of {topic : Bytes32} (htopics : log.topics = [topic, abiSlot actor.toNat]) :
    decodeRevoked log = .ok (.revoked actor log.origin) := by
  rw [decodeRevoked, topicCount, revertIf_of_not (by simp [htopics]), ok_bind, htopics]
  simp only [getD_cons_succ, getD_cons_zero]
  rw [decodeAbiAddress_abiSlot]
  rfl

theorem decodeDepositInitiated_of {topic amount receiptHash : Bytes32}
    {resourceId depositorNonce : UInt64} {token : Address}
    (htopics : log.topics = [topic, abiSlot actor.toNat, abiSlot resourceId.toNat])
    (hdata : log.data = (abiSlot token.toNat).toBytes ++ (amount.toBytes ++
      ((abiSlot depositorNonce.toNat).toBytes ++ receiptHash.toBytes))) :
    decodeDepositInitiated log =
      .ok (.depositInitiated actor resourceId token amount depositorNonce receiptHash
        log.origin) := by
  have hfirst : log.data.drop 32 = amount.toBytes ++
      ((abiSlot depositorNonce.toNat).toBytes ++ receiptHash.toBytes) := by
    rw [hdata]
    exact drop_left' (Bytes32.length_toBytes _)
  have hsecond : log.data.drop 64 =
      (abiSlot depositorNonce.toNat).toBytes ++ receiptHash.toBytes := by
    rw [show 64 = 32 + 32 from rfl, ← drop_drop, hfirst]
    exact drop_left' (Bytes32.length_toBytes _)
  have hthird : log.data.drop 96 = receiptHash.toBytes ++ [] := by
    rw [show 96 = 64 + 32 from rfl, ← drop_drop, hsecond, append_nil]
    exact drop_left' (Bytes32.length_toBytes _)
  have htoken : readSlot log.data 0 = .ok (abiSlot token.toNat) :=
    readSlot_of_drop hdata (by decide)
  have hamount : readSlot log.data 32 = .ok amount := readSlot_of_drop hfirst (by decide)
  have hnonce : readSlot log.data 64 = .ok (abiSlot depositorNonce.toNat) :=
    readSlot_of_drop hsecond (by decide)
  have hreceipt : readSlot log.data 96 = .ok receiptHash := readSlot_of_drop hthird (by decide)
  rw [decodeDepositInitiated, topicCount, revertIf_of_not (by simp [htopics]), ok_bind, htopics]
  simp only [getD_cons_succ, getD_cons_zero]
  rw [decodeAbiAddress_abiSlot, ok_bind, decodeAbiU64_abiSlot, ok_bind, htoken,
    ok_bind, decodeAbiAddress_abiSlot, ok_bind, hamount, ok_bind, hnonce, ok_bind,
    decodeAbiU64_abiSlot, ok_bind, hreceipt]
  rfl

end Decoded

variable {event : IngestedEvent} {bytes : Bytes} {slot : Bytes32} {offset : ℕ} {log : RawLog}

theorem decodeEvent_emittedLog (contract : Address)
    (hfits : (emittedLog contract event).data.length ≤ usizeMax) :
    decodeEvent (emittedLog contract event) = .ok (some event) := by
  have htopic : (emittedLog contract event).topics.head? = some event.topic.hash := rfl
  cases event with
  | registeredEcdsa actor pubkey origin =>
    have hlog : emittedLog contract (.registeredEcdsa actor pubkey origin) =
        registeredEcdsaLog contract actor pubkey origin := by
      simp only [emittedLog, IngestedEvent.arguments, abiEncode_bytes]
      rfl
    rw [hlog] at hfits ⊢
    apply decodeEvent_registeredEcdsaLog
    simp only [registeredEcdsaLog, abiEncodeBytes, abiWord, length_append, beBytes_length] at hfits
    omega
  | registeredEip1271 actor contractSigner =>
    rw [decodeEvent, htopic]
    simp only [EventTopic.fromHash_hash, IngestedEvent.topic]
    rw [@decodeRegisteredEip1271_of (emittedLog contract _) actor contractSigner _ rfl
      (by simp [emittedLog, IngestedEvent.arguments, abiEncode, abiHeads, AbiArgument.tail])]
    rfl
  | revoked actor =>
    rw [decodeEvent, htopic]
    simp only [EventTopic.fromHash_hash, IngestedEvent.topic]
    rw [@decodeRevoked_of (emittedLog contract _) actor _ rfl]
    rfl
  | depositInitiated depositor resourceId token amount depositorNonce receiptHash =>
    rw [decodeEvent, htopic]
    simp only [EventTopic.fromHash_hash, IngestedEvent.topic]
    rw [@decodeDepositInitiated_of (emittedLog contract _) depositor _ amount
      receiptHash resourceId depositorNonce token rfl
      (by simp [emittedLog, IngestedEvent.arguments, abiEncode, abiHeads, AbiArgument.tail])]
    rfl

/-! ## Arguments which do not fit -/

theorem beValue_zeros_append (high : ℕ) (low : Bytes) :
    beValue (List.replicate high 0 ++ low) = beValue low := by
  have hlow := beValue_lt low
  have hbytes := beBytes_add_of_lt high hlow
  rw [beBytes_beValue] at hbytes
  rw [← hbytes]
  apply beValue_beBytes
  exact hlow.trans_le (Nat.pow_le_pow_right (by decide) (by omega))

theorem eq_zeros_of_any_eq_false (hzero : bytes.any (· ≠ 0) = false) :
    bytes = List.replicate bytes.length 0 := by
  apply eq_replicate_iff.mpr
  refine ⟨rfl, ?_⟩
  intro byte hbyte
  have hne := any_eq_false.mp hzero byte hbyte
  simpa using hne

/-- A slot with zeros in front has the value of its low bytes, and otherwise at least
`2 ^ 64`. -/
theorem slotValue_eq (slot : Bytes32) : slotValue slot = if beValue slot.toBytes < 2 ^ 64 then
      some (beValue slot.toBytes) else none := by
  have hlow : (slot.toBytes.drop 24).length = 8 := by
    rw [length_drop, slot.length_toBytes]
  rw [slotValue]
  cases hzero : (slot.toBytes.take 24).any (· ≠ 0) with
  | false =>
    have hvalue : beValue slot.toBytes = beValue (slot.toBytes.drop 24) := by
      conv_lhs => rw [← take_append_drop 24 slot.toBytes, eq_zeros_of_any_eq_false hzero]
      exact beValue_zeros_append _ _
    have hlt := beValue_lt (slot.toBytes.drop 24)
    rw [hlow, ← hvalue, show 256 ^ 8 = 2 ^ 64 from rfl] at hlt
    rw [if_neg (by decide), if_pos hlt, hvalue]
  | true =>
    rw [if_pos rfl, if_neg]
    intro hlt
    obtain ⟨hhigh, _⟩ := @abiSlot_toBytes 24 8 (beValue slot.toBytes) rfl hlt
    have hslot : (abiSlot (beValue slot.toBytes)).toBytes = slot.toBytes := by
      have hbytes := beBytes_beValue slot.toBytes
      rwa [slot.length_toBytes] at hbytes
    rw [hslot, hzero] at hhigh
    cases hhigh

theorem decodeAbiU64_eq_ok {value : UInt64} :
    decodeAbiU64 slot offset = .ok value ↔ beValue slot.toBytes = value.toNat := by
  rw [decodeAbiU64, slotValue_eq]
  by_cases hlt : beValue slot.toBytes < 2 ^ 64
  · rw [if_pos hlt]
    simp only [Except.ok.injEq]
    constructor
    · rintro rfl
      exact (UInt64.toNat_ofNat_of_lt' hlt).symm
    · intro hvalue
      rw [hvalue, UInt64.ofNat_toNat]
  · rw [if_neg hlt]
    have hvalue := value.toNat_lt
    constructor
    · intro herror
      cases herror
    · intro heq
      omega

theorem toBytes_ofBytes_of_le (hlength : 32 ≤ bytes.length) :
    (Bytes32.ofBytes bytes).toBytes = bytes.take 32 := take_append_of_le_length hlength

theorem readSlot_eq_ok {data : Bytes} (hread : readSlot data offset = .ok slot) :
    slot.toBytes = (data.drop offset).take 32 := by
  rw [readSlot] at hread
  split_ifs at hread with hmax hshort
  cases hread
  apply toBytes_ofBytes_of_le
  rw [length_drop]
  omega

theorem decodeDepositInitiated_uint64 (hdecode : decodeDepositInitiated log = .ok event) :
    ∃ depositor resourceId token amount depositorNonce receiptHash,
      event = .depositInitiated depositor resourceId token amount depositorNonce
        receiptHash log.origin ∧ beValue (log.topics.getD 2 .zero).toBytes = resourceId.toNat ∧
      beValue ((log.data.drop 64).take 32) = depositorNonce.toNat := by
  simp only [decodeDepositInitiated, bind_eq_ok, pure_eq_ok] at hdecode
  obtain ⟨_, _, depositor, _, resourceId, hresource, _, _, token, _, amount, _,
    nonceSlot, hslot, depositorNonce, hnonce, receiptHash, _, hevent⟩ := hdecode
  refine ⟨depositor, resourceId, token, amount, depositorNonce, receiptHash,
    hevent.symm, decodeAbiU64_eq_ok.mp hresource, ?_⟩
  rw [← readSlot_eq_ok hslot]
  exact decodeAbiU64_eq_ok.mp hnonce

theorem decodeEvent_of_deposit (htopic : log.topics.head? = some EventTopic.depositInitiated.hash) :
    decodeEvent log = some <$> decodeDepositInitiated log := by
  rw [decodeEvent, htopic]
  simp only [EventTopic.fromHash_hash]

theorem decodeEvent_of_overflow (htopic : log.topics.head? = some EventTopic.depositInitiated.hash)
    (hlarge : 2 ^ 64 ≤ beValue (log.topics.getD 2 .zero).toBytes ∨
      2 ^ 64 ≤ beValue ((log.data.drop 64).take 32)) : ∃ error, decodeEvent log = .error error := by
  rw [decodeEvent_of_deposit htopic]
  cases hdecode : decodeDepositInitiated log with
  | error error => exact ⟨error, rfl⟩
  | ok =>
    obtain ⟨_, resourceId, _, _, depositorNonce, _, _, hresource, hnonce⟩ :=
      decodeDepositInitiated_uint64 hdecode
    have hfirst := resourceId.toNat_lt
    have hsecond := depositorNonce.toNat_lt
    omega

/-! ## The decoder with the operations that can panic -/

inductive Fault where
  | outOfBounds
  | lengthMismatch
  | underflow
  | rejected (error : LogError)

namespace Guarded

/-- `bytes[start..stop]`. -/
def slice (bytes : Bytes) (start stop : ℕ) : Except Fault Bytes :=
  if stop < start ∨ bytes.length < stop then .error .outOfBounds
  else .ok ((bytes.drop start).take (stop - start))

/-- `buf.copy_from_slice(source)` for a buffer of the given width. -/
def copyFromSlice (width : ℕ) (source : Bytes) : Except Fault Bytes :=
  if source.length ≠ width then .error .lengthMismatch else .ok source

def subtract (left right : ℕ) : Except Fault ℕ :=
  if left < right then .error .underflow else .ok (left - right)

def topicAt (log : RawLog) (index : ℕ) : Except Fault Bytes32 :=
  match log.topics[index]? with
  | none => .error .outOfBounds
  | some topic => .ok topic

def refuse {α : Type} (error : LogError) : Except Fault α := .error (.rejected error)

/-- The low 8 bytes of a slot, where the high 24 bytes must be zero. -/
def slotValue (slot : Bytes32) (error : LogError) : Except Fault ℕ := do
  if (← slice slot.toBytes 0 24).any (· ≠ 0) then
    refuse error
  else
    let buf ← copyFromSlice 8 (← slice slot.toBytes 24 32)
    return beValue buf

def decodeAbiU64 (slot : Bytes32) (offset : ℕ) : Except Fault UInt64 := do
  let value ← slotValue slot (.uint64Overflow offset)
  return UInt64.ofNat value

def decodeAbiAddress (slot : Bytes32) (location : String) : Except Fault Address := do
  if (← slice slot.toBytes 0 12).any (· ≠ 0) then
    refuse (.invalidAddress location)
  else
    let buf ← copyFromSlice 20 (← slice slot.toBytes 12 32)
    return BitVec.ofNat 160 (beValue buf)

def readSlot (data : Bytes) (offset : ℕ) : Except Fault Bytes32 := do
  let stop ← checkedAdd 64 (.rejected (.lengthOverflow 32 offset)) offset 32
  if data.length < stop then
    refuse (.unexpectedEnd offset (← subtract stop data.length))
  else
    let slot ← copyFromSlice 32 (← slice data offset stop)
    return .ofBytes slot

def decodeAbiBytes (data : Bytes) (offsetPos : ℕ) : Except Fault Bytes := do
  let header ← readSlot data offsetPos
  let tailOffset ← slotValue header (.offsetOutOfRange usizeMax data.length)
  revertIf (data.length < tailOffset) (.rejected (.offsetOutOfRange tailOffset data.length))
  let lengthSlot ← readSlot data tailOffset
  let len ← slotValue lengthSlot (.lengthOverflow usizeMax tailOffset)
  let payloadStart ← checkedAdd 64 (.rejected (.lengthOverflow len tailOffset)) tailOffset 32
  let payloadEnd ← checkedAdd 64 (.rejected (.lengthOverflow len payloadStart)) payloadStart len
  if data.length < payloadEnd then
    refuse (.unexpectedEnd payloadStart (← subtract payloadEnd data.length))
  else
    slice data payloadStart payloadEnd

def topicCount (log : RawLog) (event : String) (expected : ℕ) : Except Fault Unit :=
  revertIf (log.topics.length ≠ expected)
    (.rejected (.topicCountMismatch event expected log.topics.length))

def decodeRegisteredEcdsa (log : RawLog) : Except Fault IngestedEvent := do
  topicCount log "RegisteredECDSA" 2
  let actor ← decodeAbiAddress (← topicAt log 1) "topic 1"
  let pubkey ← decodeAbiBytes log.data 0
  return .registeredEcdsa actor pubkey log.origin

def decodeRegisteredEip1271 (log : RawLog) : Except Fault IngestedEvent := do
  topicCount log "RegisteredEIP1271" 2
  let actor ← decodeAbiAddress (← topicAt log 1) "topic 1"
  let slot ← readSlot log.data 0
  let contractSigner ← decodeAbiAddress slot "data offset 0"
  return .registeredEip1271 actor contractSigner log.origin

def decodeRevoked (log : RawLog) : Except Fault IngestedEvent := do
  topicCount log "Revoked" 2
  let actor ← decodeAbiAddress (← topicAt log 1) "topic 1"
  return .revoked actor log.origin

def decodeDepositInitiated (log : RawLog) : Except Fault IngestedEvent := do
  topicCount log "DepositInitiated" 3
  let depositor ← decodeAbiAddress (← topicAt log 1) "topic 1"
  let resourceId ← decodeAbiU64 (← topicAt log 2) 0
  let tokenSlot ← readSlot log.data 0
  let token ← decodeAbiAddress tokenSlot "data offset 0 (token)"
  let amount ← readSlot log.data 32
  let nonceSlot ← readSlot log.data 64
  let depositorNonce ← decodeAbiU64 nonceSlot 64
  let receiptHash ← readSlot log.data 96
  return .depositInitiated depositor resourceId token amount depositorNonce receiptHash log.origin

def decodeEvent (log : RawLog) : Except Fault (Option IngestedEvent) :=
  match log.topics.head? with
  | none => refuse .noTopics
  | some topic0 =>
    match EventTopic.fromHash topic0 with
    | none => .ok none
    | some .registeredEcdsa => some <$> decodeRegisteredEcdsa log
    | some .registeredEip1271 => some <$> decodeRegisteredEip1271 log
    | some .revoked => some <$> decodeRevoked log
    | some .depositInitiated => some <$> decodeDepositInitiated log

/-! ### No panic -/

def lift {α : Type} (call : Except LogError α) : Except Fault α := call.mapError .rejected

section Lift

variable {α β : Type}

theorem lift_bind (call : Except LogError α) (rest : α → Except LogError β) :
    lift (call >>= rest) = lift call >>= fun value => lift (rest value) := by
  cases call <;> rfl

theorem lift_pure (value : α) : lift (pure value) = pure value := rfl

theorem lift_map (f : α → β) (call : Except LogError α) : lift (f <$> call) = f <$> lift call := by
  cases call <;> rfl

theorem lift_revertIf (condition : Prop) [Decidable condition] (error : LogError) :
    lift (revertIf condition error) = revertIf condition (.rejected error) := by
  by_cases hcondition : condition
  all_goals simp [revertIf, hcondition, lift, Except.mapError]

end Lift

theorem slice_of_le {start stop : ℕ} (hstart : start ≤ stop) (hstop : stop ≤ bytes.length) :
    slice bytes start stop = .ok ((bytes.drop start).take (stop - start)) := by
  rw [slice, if_neg (by omega)]

theorem copyFromSlice_of_eq {width : ℕ} {source : Bytes} (hlength : source.length = width) :
    copyFromSlice width source = .ok source := by
  rw [copyFromSlice, if_neg (by omega)]

theorem subtract_of_le {left right : ℕ} (hle : right ≤ left) :
    subtract left right = .ok (left - right) := by
  rw [subtract, if_neg (by omega)]

section Slots

variable (slot : Bytes32) {high : ℕ} (hhigh : high ≤ 32)

include hhigh in
theorem slice_high : slice slot.toBytes 0 high = .ok (slot.toBytes.take high) := by
  rw [slice_of_le (Nat.zero_le _) (by rw [slot.length_toBytes]; exact hhigh),
    drop_zero, Nat.sub_zero]

include hhigh in
theorem slice_low : slice slot.toBytes high 32 = .ok (slot.toBytes.drop high) := by
  rw [slice_of_le hhigh (by rw [slot.length_toBytes]), take_of_length_le]
  rw [length_drop, slot.length_toBytes]

theorem copy_low (width : ℕ) (hwidth : high + width = 32) :
    copyFromSlice width (slot.toBytes.drop high) = .ok (slot.toBytes.drop high) := by
  apply copyFromSlice_of_eq
  rw [length_drop, slot.length_toBytes]
  omega

end Slots

theorem slotValue_eq_match (slot : Bytes32) (error : LogError) :
    slotValue slot error =
      match Ingest.slotValue slot with
      | none => refuse error
      | some value => .ok value := by
  rw [slotValue, slice_high slot (by decide), ok_bind, slice_low slot (by decide),
    ok_bind, copy_low slot 8 rfl, ok_bind, Ingest.slotValue]
  split_ifs <;> rfl

theorem decodeAbiU64_eq (slot : Bytes32) (offset : ℕ) :
    decodeAbiU64 slot offset = lift (Ingest.decodeAbiU64 slot offset) := by
  rw [decodeAbiU64, slotValue_eq_match, Ingest.decodeAbiU64]
  cases Ingest.slotValue slot <;> rfl

theorem decodeAbiAddress_eq (slot : Bytes32) (location : String) :
    decodeAbiAddress slot location = lift (Ingest.decodeAbiAddress slot location) := by
  rw [decodeAbiAddress, slice_high slot (by decide), ok_bind,
    slice_low slot (by decide), ok_bind, copy_low slot 20 rfl, ok_bind, Ingest.decodeAbiAddress]
  split_ifs <;> rfl

theorem readSlot_eq (data : Bytes) (offset : ℕ) :
    readSlot data offset = lift (Ingest.readSlot data offset) := by
  have hmax : usizeMax = 2 ^ 64 - 1 := rfl
  rw [readSlot, Ingest.readSlot, checkedAdd]
  by_cases hadd : offset + 32 < 2 ^ 64
  · rw [if_pos hadd, if_neg (by omega), ok_bind]
    by_cases hshort : data.length < offset + 32
    · rw [if_pos hshort, if_pos hshort, subtract_of_le (by omega)]
      rfl
    · have hdrop : 32 ≤ (data.drop offset).length := by
        rw [length_drop]
        omega
      have hwindow : ((data.drop offset).take 32).length = 32 := by
        rw [length_take]
        omega
      have hslot : Bytes32.ofBytes ((data.drop offset).take 32) =
          Bytes32.ofBytes (data.drop offset) := by
        apply Bytes32.toBytes_injective
        rw [Bytes32.toBytes_ofBytes hwindow, toBytes_ofBytes_of_le hdrop]
      rw [if_neg hshort, if_neg hshort, slice_of_le (by omega) (by omega), ok_bind,
        Nat.add_sub_cancel_left, copyFromSlice_of_eq hwindow, ok_bind, hslot]
      rfl
  · rw [if_neg hadd, if_pos (by omega)]
    rfl

variable {α : Type} {log : RawLog}

theorem checkedAdd_bind (error : LogError) (left right : ℕ) (rest : ℕ → Except Fault α) :
    (checkedAdd 64 (.rejected error) left right >>= rest) =
      revertIf (usizeMax < left + right) (.rejected error) >>= fun _ =>
        rest (left + right) := by
  have hmax : usizeMax = 2 ^ 64 - 1 := rfl
  rw [checkedAdd]
  by_cases hadd : left + right < 2 ^ 64
  · rw [if_pos hadd, revertIf_of_not (by omega)]
    rfl
  · rw [if_neg hadd, revertIf_of_pos (by omega)]
    rfl

theorem payload_eq {data : Bytes} {start len : ℕ} : (if data.length < start + len then do
        refuse (.unexpectedEnd start (← subtract (start + len) data.length))
      else slice data start (start + len)) =
      lift (do
        revertIf (data.length < start + len) (.unexpectedEnd start (start + len - data.length))
        return (data.drop start).take len) := by
  by_cases hshort : data.length < start + len
  · rw [if_pos hshort, revertIf_of_pos hshort, subtract_of_le (by omega)]
    rfl
  · rw [if_neg hshort, revertIf_of_not hshort, slice_of_le (by omega) (by omega),
      Nat.add_sub_cancel_left]
    rfl

theorem decodeAbiBytes_eq (data : Bytes) (offsetPos : ℕ) :
    decodeAbiBytes data offsetPos = lift (Ingest.decodeAbiBytes data offsetPos) := by
  rw [decodeAbiBytes, Ingest.decodeAbiBytes, lift_bind, readSlot_eq]
  congr 1
  funext header
  rw [slotValue_eq_match]
  cases Ingest.slotValue header with
  | none => rfl
  | some =>
    simp only [ok_bind]
    rw [lift_bind, lift_revertIf]
    congr 1
    funext _
    rw [lift_bind, readSlot_eq]
    congr 1
    funext lengthSlot
    rw [slotValue_eq_match]
    cases Ingest.slotValue lengthSlot with
    | none => rfl
    | some =>
      simp only [ok_bind, checkedAdd_bind, payload_eq, lift_bind, lift_revertIf]

theorem topicAt_eq {count index : ℕ} (hcount : log.topics.length = count) (hindex : index < count) :
    topicAt log index = .ok (log.topics.getD index .zero) := by
  rw [topicAt, getD_eq_getElem?_getD, List.getElem?_eq_getElem (by omega)]
  rfl

theorem topicCount_bind {event : String} {expected : ℕ} {guarded : Except Fault α}
    {plain : Except LogError α} (hrest : log.topics.length = expected → guarded = lift plain) :
    (topicCount log event expected >>= fun _ => guarded) =
      lift (Ingest.topicCount log event expected >>= fun _ => plain) := by
  rw [lift_bind, topicCount, Ingest.topicCount, lift_revertIf]
  by_cases hcount : log.topics.length = expected
  · rw [revertIf_of_not (not_not.mpr hcount), ok_bind, ok_bind, hrest hcount]
  · rw [revertIf_of_pos hcount]
    rfl

theorem decodeEvent_eq (log : RawLog) : decodeEvent log = lift (Ingest.decodeEvent log) := by
  rw [decodeEvent, Ingest.decodeEvent]
  cases log.topics.head? with
  | none => rfl
  | some topic0 =>
    simp only
    cases EventTopic.fromHash topic0 with
    | none => rfl
    | some topic =>
      cases topic with
      | registeredEcdsa =>
        simp only [lift_map]
        congr 1
        apply topicCount_bind
        intro hcount
        rw [topicAt_eq hcount (by decide)]
        simp only [ok_bind, lift_bind, decodeAbiAddress_eq, decodeAbiBytes_eq, lift_pure]
      | registeredEip1271 =>
        simp only [lift_map]
        congr 1
        apply topicCount_bind
        intro hcount
        rw [topicAt_eq hcount (by decide)]
        simp only [ok_bind, lift_bind, decodeAbiAddress_eq, readSlot_eq, lift_pure]
      | revoked =>
        simp only [lift_map]
        congr 1
        apply topicCount_bind
        intro hcount
        rw [topicAt_eq hcount (by decide)]
        simp only [ok_bind, lift_bind, decodeAbiAddress_eq, lift_pure]
      | depositInitiated =>
        simp only [lift_map]
        congr 1
        apply topicCount_bind
        intro hcount
        rw [topicAt_eq hcount (by decide), topicAt_eq hcount (by decide)]
        simp only [ok_bind, lift_bind, decodeAbiAddress_eq, decodeAbiU64_eq, readSlot_eq, lift_pure]

end Guarded

/-- The decoder inverts the encoding of the four events.  For any log it returns an
event, none, or one of its errors, with every slice in range and no difference below
zero.  A deposit whose resource or nonce has more than 64 bits is refused. -/
theorem decodeEvent_inverts_abi :
    (∀ contract event, (emittedLog contract event).data.length ≤ usizeMax →
      decodeEvent (emittedLog contract event) = .ok (some event)) ∧
    (∀ log, Guarded.decodeEvent log = (decodeEvent log).mapError .rejected) ∧
    ∀ log, log.topics.head? = some EventTopic.depositInitiated.hash →
      2 ^ 64 ≤ beValue (log.topics.getD 2 .zero).toBytes ∨
        2 ^ 64 ≤ beValue ((log.data.drop 64).take 32) → ∃ error, decodeEvent log = .error error :=
  ⟨fun contract _ hfits => decodeEvent_emittedLog contract hfits,
    Guarded.decodeEvent_eq, fun _ htopic hlarge =>
      decodeEvent_of_overflow htopic hlarge⟩

def oversizedDeposit : RawLog where
  address := 5
  topics := [EventTopic.depositInitiated.hash, abiSlot 7, abiSlot (2 ^ 64)]
  data := []
  origin := ⟨1, abiSlot 2, 3⟩

theorem decodeEvent_inverts_abi_sample :
    decodeEvent (emittedLog 5 (.registeredEcdsa 7 [1, 2, 3] ⟨1, abiSlot 2, 3⟩)) =
        .ok (some (.registeredEcdsa 7 [1, 2, 3] ⟨1, abiSlot 2, 3⟩)) ∧
      ∃ error, decodeEvent oversizedDeposit = .error error := by
  refine ⟨decodeEvent_inverts_abi.1 5 _ ?_, decodeEvent_inverts_abi.2.2 _ rfl ?_⟩
  · decide
  · left
    decide

end Ingest
end Canon
