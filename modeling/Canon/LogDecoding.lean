import Canon.ActionEncoding
import Canon.Eip712Digests

/-!
# Decoding the logs of the first layer

The first topic of a raw log selects one of four event signatures; the indexed
arguments are the other topics, and the data has the remaining ones in slots of 32
bytes.  Offsets are machine words of 64 bits, so every addition to one is checked.
-/

namespace Canon
namespace Ingest

open List

/-- Where a log comes from: the key under which forwarded events are
remembered. -/
structure Origin where
  blockNumber : UInt64
  txHash : Bytes32
  logIndex : UInt64
  deriving DecidableEq

structure RawLog where
  address : Address
  topics : List Bytes32
  data : Bytes
  origin : Origin

inductive EventTopic where
  | registeredEcdsa
  | registeredEip1271
  | revoked
  | depositInitiated
  deriving DecidableEq

def EventTopic.signature : EventTopic → String
  | .registeredEcdsa => "RegisteredECDSA(address,bytes)"
  | .registeredEip1271 => "RegisteredEIP1271(address,address)"
  | .revoked => "Revoked(address)"
  | .depositInitiated =>
    "DepositInitiated(address,uint64,address,uint256,uint64,bytes32)"

def EventTopic.hash (topic : EventTopic) : Bytes32 := keccak256 (asciiBytes topic.signature)

def EventTopic.fromHash (hash : Bytes32) : Option EventTopic :=
  [.registeredEcdsa, .registeredEip1271, .revoked, .depositInitiated].find?
    fun variant => variant.hash = hash

inductive IngestedEvent where
  | registeredEcdsa (actor : Address) (pubkey : Bytes) (origin : Origin)
  | registeredEip1271 (actor contractSigner : Address) (origin : Origin)
  | revoked (actor : Address) (origin : Origin)
  | depositInitiated (depositor : Address) (resourceId : UInt64)
      (token : Address) (amount : Bytes32) (depositorNonce : UInt64)
      (receiptHash : Bytes32) (origin : Origin)
  deriving DecidableEq

def IngestedEvent.origin : IngestedEvent → Origin
  | .registeredEcdsa _ _ origin => origin
  | .registeredEip1271 _ _ origin => origin
  | .revoked _ origin => origin
  | .depositInitiated _ _ _ _ _ _ origin => origin

inductive LogError where
  | noTopics
  | invalidAddress (location : String)
  | topicCountMismatch (event : String) (expected actual : ℕ)
  | offsetOutOfRange (offset dataLen : ℕ)
  | lengthOverflow (len offset : ℕ)
  | unexpectedEnd (offset needed : ℕ)
  | uint64Overflow (offset : ℕ)
  deriving DecidableEq

/-! ## Slots -/

def usizeMax : ℕ := 2 ^ 64 - 1

def slotValue (slot : Bytes32) : Option ℕ :=
  if (slot.toBytes.take 24).any (· ≠ 0) then none
  else some (beValue (slot.toBytes.drop 24))

def decodeAbiU64 (slot : Bytes32) (offset : ℕ) : Except LogError UInt64 :=
  match slotValue slot with
  | none => .error (.uint64Overflow offset)
  | some value => .ok (UInt64.ofNat value)

def decodeAbiAddress (slot : Bytes32) (location : String) : Except LogError Address :=
  if (slot.toBytes.take 12).any (· ≠ 0) then .error (.invalidAddress location)
  else .ok (BitVec.ofNat 160 (beValue (slot.toBytes.drop 12)))

def readSlot (data : Bytes) (offset : ℕ) : Except LogError Bytes32 :=
  if usizeMax < offset + 32 then .error (.lengthOverflow 32 offset)
  else if data.length < offset + 32 then
    .error (.unexpectedEnd offset (offset + 32 - data.length))
  else .ok (.ofBytes (data.drop offset))

def decodeAbiBytes (data : Bytes) (offsetPos : ℕ) : Except LogError Bytes := do
  let header ← readSlot data offsetPos
  match slotValue header with
  | none => .error (.offsetOutOfRange usizeMax data.length)
  | some tailOffset => do
      revertIf (data.length < tailOffset) (.offsetOutOfRange tailOffset data.length)
      let lengthSlot ← readSlot data tailOffset
      match slotValue lengthSlot with
      | none => .error (.lengthOverflow usizeMax tailOffset)
      | some len => do
          revertIf (usizeMax < tailOffset + 32) (.lengthOverflow len tailOffset)
          revertIf (usizeMax < tailOffset + 32 + len) (.lengthOverflow len (tailOffset + 32))
          revertIf (data.length < tailOffset + 32 + len)
            (.unexpectedEnd (tailOffset + 32) (tailOffset + 32 + len - data.length))
          return (data.drop (tailOffset + 32)).take len

/-! ## Events -/

def topicCount (log : RawLog) (event : String) (expected : ℕ) : Except LogError Unit :=
  revertIf (log.topics.length ≠ expected) (.topicCountMismatch event expected log.topics.length)

def decodeRegisteredEcdsa (log : RawLog) : Except LogError IngestedEvent := do
  topicCount log "RegisteredECDSA" 2
  let actor ← decodeAbiAddress (log.topics.getD 1 .zero) "topic 1"
  let pubkey ← decodeAbiBytes log.data 0
  return .registeredEcdsa actor pubkey log.origin

def decodeRegisteredEip1271 (log : RawLog) : Except LogError IngestedEvent := do
  topicCount log "RegisteredEIP1271" 2
  let actor ← decodeAbiAddress (log.topics.getD 1 .zero) "topic 1"
  let slot ← readSlot log.data 0
  let contractSigner ← decodeAbiAddress slot "data offset 0"
  return .registeredEip1271 actor contractSigner log.origin

def decodeRevoked (log : RawLog) : Except LogError IngestedEvent := do
  topicCount log "Revoked" 2
  let actor ← decodeAbiAddress (log.topics.getD 1 .zero) "topic 1"
  return .revoked actor log.origin

def decodeDepositInitiated (log : RawLog) : Except LogError IngestedEvent := do
  topicCount log "DepositInitiated" 3
  let depositor ← decodeAbiAddress (log.topics.getD 1 .zero) "topic 1"
  let resourceId ← decodeAbiU64 (log.topics.getD 2 .zero) 0
  let tokenSlot ← readSlot log.data 0
  let token ← decodeAbiAddress tokenSlot "data offset 0 (token)"
  let amount ← readSlot log.data 32
  let nonceSlot ← readSlot log.data 64
  let depositorNonce ← decodeAbiU64 nonceSlot 64
  let receiptHash ← readSlot log.data 96
  return .depositInitiated depositor resourceId token amount depositorNonce receiptHash log.origin

def decodeEvent (log : RawLog) : Except LogError (Option IngestedEvent) :=
  match log.topics.head? with
  | none => .error .noTopics
  | some topic0 =>
    match EventTopic.fromHash topic0 with
    | none => .ok none
    | some .registeredEcdsa => some <$> decodeRegisteredEcdsa log
    | some .registeredEip1271 => some <$> decodeRegisteredEip1271 log
    | some .revoked => some <$> decodeRevoked log
    | some .depositInitiated => some <$> decodeDepositInitiated log

/-! ## The logs which a contract emits -/

def abiSlot (value : ℕ) : Bytes32 := ⟨abiWord value, beBytes_length _ _⟩

/-- The data of an event whose only argument in the data has type `bytes`. -/
def abiEncodeBytes (payload : Bytes) : Bytes := abiWord 32 ++ (abiWord payload.length ++ (payload ++
    List.replicate ((32 - payload.length % 32) % 32) 0))

/-- `emit RegisteredECDSA(actor, pubkey)`. -/
def registeredEcdsaLog (contract actor : Address) (pubkey : Bytes) (origin : Origin) : RawLog where
  address := contract
  topics := [EventTopic.registeredEcdsa.hash, abiSlot actor.toNat]
  data := abiEncodeBytes pubkey
  origin := origin

section Emitted

theorem any_ne_zero_replicate (count : ℕ) :
    (List.replicate count (0 : UInt8)).any (· ≠ 0) = false := by
  rw [any_eq_false]
  intro byte hbyte
  rw [eq_of_mem_replicate hbyte]
  decide

theorem abiSlot_toBytes (high : ℕ) {low value : ℕ} (hwidth : high + low = 32)
    (hvalue : value < 256 ^ low) :
    ((abiSlot value).toBytes.take high).any (· ≠ 0) = false ∧
      beValue ((abiSlot value).toBytes.drop high) = value := by
  have hbytes : (abiSlot value).toBytes = List.replicate high 0 ++ beBytes low value := by
    rw [← beBytes_add_of_lt high hvalue, hwidth]
    rfl
  rw [hbytes]
  constructor
  · rw [take_left' (length_replicate ..)]
    exact any_ne_zero_replicate high
  · rw [drop_left' (length_replicate ..)]
    exact beValue_beBytes low value hvalue

theorem slotValue_abiSlot {value : ℕ} (hvalue : value < 2 ^ 64) :
    slotValue (abiSlot value) = some value := by
  obtain ⟨hhigh, hlow⟩ := @abiSlot_toBytes 24 8 value rfl hvalue
  rw [slotValue, hhigh, hlow]
  rfl

theorem decodeAbiAddress_abiSlot (actor : Address) (location : String) :
    decodeAbiAddress (abiSlot actor.toNat) location = .ok actor := by
  obtain ⟨hhigh, hlow⟩ := @abiSlot_toBytes 12 20 actor.toNat rfl actor.isLt
  rw [decodeAbiAddress, hhigh, hlow, BitVec.ofNat_toNat, BitVec.setWidth_eq]
  rfl

theorem readSlot_of_drop {data rest : Bytes} {offset : ℕ} {slot : Bytes32}
    (hdata : data.drop offset = slot.toBytes ++ rest) (hoffset : offset + 32 ≤ usizeMax) :
    readSlot data offset = .ok slot := by
  have hlength := congrArg List.length hdata
  rw [length_drop, length_append, slot.length_toBytes] at hlength
  rw [readSlot, if_neg (by omega), if_neg (by omega), hdata,
    Bytes32.ofBytes_append slot.length_toBytes]

theorem decodeAbiBytes_encode {payload : Bytes} (hlength : 64 + payload.length ≤ usizeMax) :
    decodeAbiBytes (abiEncodeBytes payload) 0 = .ok payload := by
  have hmax : usizeMax = 2 ^ 64 - 1 := rfl
  have htail : (abiEncodeBytes payload).drop 32 =
      abiWord payload.length ++ (payload ++ List.replicate ((32 - payload.length % 32) % 32) 0) :=
    drop_left' (beBytes_length _ _)
  have hpayload : (abiEncodeBytes payload).drop (32 + 32) = payload ++
      List.replicate ((32 - payload.length % 32) % 32) 0 := by
    rw [← drop_drop, htail]
    exact drop_left' (beBytes_length _ _)
  have hdata : 64 + payload.length ≤ (abiEncodeBytes payload).length := by
    simp only [abiEncodeBytes, abiWord, length_append, beBytes_length]
    omega
  have hheader : readSlot (abiEncodeBytes payload) 0 = .ok (abiSlot 32) :=
    readSlot_of_drop rfl (by omega)
  have hlengthSlot : readSlot (abiEncodeBytes payload) 32 = .ok (abiSlot payload.length) :=
    readSlot_of_drop htail (by omega)
  rw [decodeAbiBytes, hheader, ok_bind, slotValue_abiSlot (by omega)]
  simp only
  rw [revertIf_of_not (by omega), ok_bind, hlengthSlot, ok_bind, slotValue_abiSlot (by omega)]
  simp only
  rw [revertIf_of_not (by omega), ok_bind, revertIf_of_not (by omega),
    ok_bind, revertIf_of_not (by omega), ok_bind, hpayload, take_left]
  rfl

theorem fromHash_registeredEcdsa :
    EventTopic.fromHash EventTopic.registeredEcdsa.hash = some .registeredEcdsa := by
  rw [EventTopic.fromHash, List.find?_cons_of_pos]
  exact decide_eq_true rfl

/-- The log of a registration is decoded to the account and the key bytes as
they were emitted. -/
theorem decodeEvent_registeredEcdsaLog (contract actor : Address) {pubkey : Bytes} (origin : Origin)
    (hlength : 64 + pubkey.length ≤ usizeMax) :
    decodeEvent (registeredEcdsaLog contract actor pubkey origin) =
      .ok (some (.registeredEcdsa actor pubkey origin)) := by
  have hdecoded : decodeRegisteredEcdsa (registeredEcdsaLog contract actor pubkey origin) =
        .ok (.registeredEcdsa actor pubkey origin) := by
    have hactor : decodeAbiAddress ((registeredEcdsaLog contract actor pubkey
        origin).topics.getD 1 .zero) "topic 1" = .ok actor :=
      decodeAbiAddress_abiSlot actor "topic 1"
    have hpubkey : decodeAbiBytes (registeredEcdsaLog contract actor pubkey
        origin).data 0 = .ok pubkey := decodeAbiBytes_encode hlength
    rw [decodeRegisteredEcdsa, topicCount,
      revertIf_of_not (by simp [registeredEcdsaLog]), ok_bind, hactor, ok_bind, hpubkey, ok_bind]
    rfl
  have htopic : (registeredEcdsaLog contract actor pubkey
      origin).topics.head? = some EventTopic.registeredEcdsa.hash := rfl
  rw [decodeEvent, htopic]
  simp only [fromHash_registeredEcdsa]
  rw [hdecoded]
  rfl

end Emitted

end Ingest
end Canon
