import Canon.ByteStrings
import Canon.GuardedCalls

/-!
# The binary encoding shared by the bridge and the dispute verifier

An item is a head, one type tag and eight little-endian value bytes, and for a
byte string the payload after it.  Each decoder is characterised by one equivalence:
it returns a value exactly when the buffer carries the encoding of this value at the
offset.
-/

namespace Canon
namespace Cbe

open List

def tagUint : UInt8 := 0x00

def tagBytes : UInt8 := 0x02

def tagArray : UInt8 := 0x04

inductive DecodeError where
  | unexpectedEof
  | invalidMajorType (got expected : UInt8)
  | invalidLength
  | sizeMismatch (expected actual : ℕ)
  deriving DecidableEq, Repr

def readUint64LE (buf : Bytes) (offset : ℕ) : Except DecodeError (UInt64 × ℕ) := do
  revertIf (buf.length < offset + 8) .unexpectedEof
  return (UInt64.ofNat (orShiftLoop (fun i => buf.getD (offset + i) 0) 8), offset + 8)

def readHead (buf : Bytes) (offset : ℕ) (expectedTag : UInt8) :
    Except DecodeError (UInt64 × ℕ) := do
  revertIf (buf.length ≤ offset) .unexpectedEof
  let gotTag := buf.getD offset 0
  revertIf (gotTag ≠ expectedTag) (.invalidMajorType gotTag expectedTag)
  readUint64LE buf (offset + 1)

def readUint (buf : Bytes) (offset : ℕ) : Except DecodeError (UInt64 × ℕ) :=
  readHead buf offset tagUint

def readBytes (buf : Bytes) (offset : ℕ) : Except DecodeError (Bytes × ℕ) := do
  let (length, afterHead) ← readHead buf offset tagBytes
  revertIf (buf.length < afterHead + length.toNat) .invalidLength
  return ((List.range length.toNat).map
    (fun i => buf.getD (afterHead + i) 0), afterHead + length.toNat)

def readBytesExact (buf : Bytes) (offset expectedSize : ℕ) : Except DecodeError (Bytes × ℕ) := do
  let (payload, nextOffset) ← readBytes buf offset
  revertIf (payload.length ≠ expectedSize) (.sizeMismatch expectedSize payload.length)
  return (payload, nextOffset)

def readBytes32Exact (buf : Bytes) (offset : ℕ) : Except DecodeError (Bytes32 × ℕ) := do
  let (payload, nextOffset) ← readBytesExact buf offset 32
  return (Bytes32.ofBytes payload, nextOffset)

def readAddressExact (buf : Bytes) (offset : ℕ) : Except DecodeError (Address × ℕ) := do
  let (payload, nextOffset) ← readBytesExact buf offset 20
  return (BitVec.ofNat 160 (beValue payload), nextOffset)

def readArrayHead (buf : Bytes) (offset : ℕ) : Except DecodeError (UInt64 × ℕ) :=
  readHead buf offset tagArray

def assertFullyConsumed (buf : Bytes) (consumedTo : ℕ) : Except DecodeError Unit :=
  revertIf (consumedTo ≠ buf.length) .invalidLength

/-! ## The encoders -/

def encodeHead (tag : UInt8) (value : UInt64) : Bytes := tag :: leBytes 8 value.toNat

def encodeUint (value : UInt64) : Bytes := encodeHead tagUint value

def encodeBytes (payload : Bytes) : Bytes :=
  encodeHead tagBytes (UInt64.ofNat payload.length) ++ payload

def encodeBytes32 (word : Bytes32) : Bytes := encodeBytes word.toBytes

def encodeAddress (address : Address) : Bytes := encodeBytes (beBytes 20 address.toNat)

@[simp] theorem encodeHead_length (tag : UInt8) (value : UInt64) :
    (encodeHead tag value).length = 9 := by
  simp [encodeHead]

@[simp] theorem encodeUint_length (value : UInt64) : (encodeUint value).length = 9 := by
  simp [encodeUint]

@[simp] theorem encodeBytes_length (payload : Bytes) :
    (encodeBytes payload).length = 9 + payload.length := by
  simp [encodeBytes]

@[simp] theorem encodeBytes32_length (word : Bytes32) : (encodeBytes32 word).length = 41 := by
  simp [encodeBytes32]

@[simp] theorem encodeAddress_length (address : Address) : (encodeAddress address).length = 29 := by
  simp [encodeAddress]

/-! ## What the decoders accept -/

section Readers

variable {buf : Bytes} {offset next : ℕ}

variable {carried rest : Bytes} {value : UInt64} {size : ℕ} {payload : Bytes}

theorem drop_of_drop_eq_append (hcarries : buf.drop offset = carried ++ rest) :
    buf.drop (offset + carried.length) = rest := by
  rw [← drop_drop, hcarries, drop_left]

theorem carries_of_drop (hsize : carried.length = size)
    (hcarries : buf.drop offset = carried ++ rest) :
    buf.drop offset = carried ++ buf.drop (offset + size) ∧ buf.drop (offset + size) = rest := by
  have hrest := drop_of_drop_eq_append hcarries
  rw [hsize] at hrest
  rw [hrest]
  exact ⟨hcarries, rfl⟩

theorem length_of_drop_eq_append
     (hcarries : buf.drop offset = carried ++ rest) (hne : carried ≠ []) :
    offset + carried.length ≤ buf.length := by
  have hlength := congrArg List.length hcarries
  have hpos := length_pos_iff.mpr hne
  simp only [length_drop, length_append] at hlength
  omega

theorem readUint64LE_eq_ok :
    readUint64LE buf offset = .ok (value, next) ↔
      buf.drop offset = leBytes 8 value.toNat ++ buf.drop next ∧ next = offset + 8 := by
  simp only [readUint64LE, bind_eq_ok, revertIf_eq_ok, exists_const,
    pure_eq_ok, Prod.mk.injEq, not_lt]
  constructor
  · rintro ⟨hlength, hvalue, rfl⟩
    refine ⟨?_, rfl⟩
    rw [orShiftLoop_eq_leValue, map_getD_range buf hlength] at hvalue
    have htake : ((buf.drop offset).take 8).length = 8 := by
      simp
      omega
    have hlt := leValue_lt ((buf.drop offset).take 8)
    rw [htake] at hlt
    have hnat : value.toNat = leValue ((buf.drop offset).take 8) := by
      rw [← hvalue, UInt64.toNat_ofNat']
      exact Nat.mod_eq_of_lt (by omega)
    have hbytes : leBytes 8 value.toNat = (buf.drop offset).take 8 := by
      have hback := leBytes_leValue ((buf.drop offset).take 8)
      rw [htake] at hback
      rw [hnat, hback]
    rw [hbytes, ← drop_drop, take_append_drop]
  · rintro ⟨hcarries, rfl⟩
    have hlength : offset + 8 ≤ buf.length := by
      have hbound := length_of_drop_eq_append hcarries (by simp [← length_pos_iff])
      simpa using hbound
    refine ⟨hlength, ?_, rfl⟩
    rw [orShiftLoop_eq_leValue, map_getD_range buf hlength, hcarries, take_left' (by simp)]
    have hlt : value.toNat < 256 ^ 8 := by
      have := value.toNat_lt
      omega
    rw [leValue_leBytes 8 _ hlt, UInt64.ofNat_toNat]

theorem readHead_eq_ok {tag : UInt8} :
    readHead buf offset tag = .ok (value, next) ↔
      buf.drop offset = encodeHead tag value ++ buf.drop next ∧ next = offset + 9 := by
  simp only [readHead, bind_eq_ok, revertIf_eq_ok, exists_const, not_le,
    ne_eq, not_not, readUint64LE_eq_ok]
  constructor
  · rintro ⟨hlength, htag, hcarries, rfl⟩
    refine ⟨?_, by omega⟩
    rw [drop_eq_getElem_cons hlength, hcarries]
    have hhead : buf[offset] = tag := by
      simpa [List.getD, List.getElem?_eq_getElem hlength] using htag
    simp [encodeHead, hhead]
  · rintro ⟨hcarries, rfl⟩
    have hlength : offset < buf.length := by
      have hbound := length_of_drop_eq_append hcarries (by simp [encodeHead])
      simp only [encodeHead_length] at hbound
      omega
    rw [drop_eq_getElem_cons hlength] at hcarries
    simp only [encodeHead, cons_append, List.cons.injEq] at hcarries
    refine ⟨hlength, ?_, hcarries.2, by omega⟩
    simpa [List.getD, List.getElem?_eq_getElem hlength] using hcarries.1

theorem readUint_eq_ok :
    readUint buf offset = .ok (value, next) ↔
      buf.drop offset = encodeUint value ++ buf.drop next ∧
        next = offset + 9 :=
  readHead_eq_ok

theorem readArrayHead_eq_ok {count : UInt64} :
    readArrayHead buf offset = .ok (count, next) ↔
      buf.drop offset = encodeHead tagArray count ++ buf.drop next ∧
        next = offset + 9 :=
  readHead_eq_ok

theorem readBytes_eq_ok :
    readBytes buf offset = .ok (payload, next) ↔
      payload.length < 2 ^ 64 ∧ buf.drop offset = encodeBytes payload ++ buf.drop next ∧
        next = offset + 9 + payload.length := by
  simp only [readBytes, bind_eq_ok, Prod.exists, readHead_eq_ok,
    revertIf_eq_ok, exists_const, pure_eq_ok, Prod.mk.injEq, not_lt]
  constructor
  · rintro ⟨length, afterHead, ⟨hhead, rfl⟩, hlength, hpayload, rfl⟩
    rw [map_getD_range buf hlength] at hpayload
    have hsize : payload.length = length.toNat := by
      rw [← hpayload]
      simp
      omega
    have hrest := take_append_drop length.toNat (buf.drop (offset + 9))
    rw [hpayload, drop_drop] at hrest
    refine ⟨hsize ▸ length.toNat_lt, ?_, by omega⟩
    rw [hhead, encodeBytes, hsize, UInt64.ofNat_toNat, append_assoc, hrest]
  · rintro ⟨hsize, hcarries, rfl⟩
    have hnat : (UInt64.ofNat payload.length).toNat = payload.length := by
      exact Nat.mod_eq_of_lt hsize
    have hbound : offset + 9 + payload.length ≤ buf.length := by
      have hbound := length_of_drop_eq_append hcarries (by simp [encodeBytes, encodeHead])
      simp only [encodeBytes_length] at hbound
      omega
    rw [encodeBytes, append_assoc] at hcarries
    have hafter := drop_of_drop_eq_append hcarries
    rw [encodeHead_length] at hafter
    refine ⟨UInt64.ofNat payload.length, offset + 9, ⟨?_, rfl⟩, ?_, ?_, ?_⟩
    · rw [hcarries, hafter]
    · rwa [hnat]
    · rw [hnat, map_getD_range buf hbound, hafter, take_left' rfl]
    · rw [hnat]

theorem readBytesExact_eq_ok :
    readBytesExact buf offset size = .ok (payload, next) ↔
      payload.length = size ∧ size < 2 ^ 64 ∧
        buf.drop offset = encodeBytes payload ++ buf.drop next ∧
        next = offset + 9 + size := by
  simp only [readBytesExact, bind_eq_ok, Prod.exists, readBytes_eq_ok,
    revertIf_eq_ok, exists_const, pure_eq_ok, Prod.mk.injEq, ne_eq, not_not]
  constructor
  · rintro ⟨_, _, ⟨hlt, hcarries, hnext⟩, hsize, rfl, rfl⟩
    exact ⟨hsize, hsize ▸ hlt, hcarries, hsize ▸ hnext⟩
  · rintro ⟨hsize, hlt, hcarries, hnext⟩
    exact ⟨payload, next, ⟨hsize ▸ hlt, hcarries, hsize ▸ hnext⟩, hsize, rfl, rfl⟩

theorem readBytes32Exact_eq_ok {word : Bytes32} :
    readBytes32Exact buf offset = .ok (word, next) ↔
      buf.drop offset = encodeBytes32 word ++ buf.drop next ∧ next = offset + 41 := by
  simp only [readBytes32Exact, bind_eq_ok, Prod.exists, readBytesExact_eq_ok,
    pure_eq_ok, Prod.mk.injEq]
  constructor
  · rintro ⟨payload, _, ⟨hsize, _, hcarries, hnext⟩, rfl, rfl⟩
    refine ⟨?_, by omega⟩
    rw [encodeBytes32, Bytes32.toBytes_ofBytes hsize, hcarries]
  · rintro ⟨hcarries, rfl⟩
    refine ⟨word.toBytes, offset + 41, ⟨by simp, by norm_num, hcarries, by omega⟩, ?_, rfl⟩
    exact Bytes32.toBytes_injective (Bytes32.toBytes_ofBytes word.toBytes_length)

theorem readAddressExact_eq_ok {address : Address} :
    readAddressExact buf offset = .ok (address, next) ↔
      buf.drop offset = encodeAddress address ++ buf.drop next ∧ next = offset + 29 := by
  simp only [readAddressExact, bind_eq_ok, Prod.exists, readBytesExact_eq_ok,
    pure_eq_ok, Prod.mk.injEq]
  constructor
  · rintro ⟨payload, _, ⟨hsize, _, hcarries, hnext⟩, haddress, rfl⟩
    have hlt := beValue_lt payload
    rw [hsize] at hlt
    have hnat : address.toNat = beValue payload := by
      rw [← haddress, BitVec.toNat_ofNat]
      exact Nat.mod_eq_of_lt (by norm_num at hlt ⊢; exact hlt)
    have hback := beBytes_beValue payload
    rw [hsize] at hback
    refine ⟨?_, by omega⟩
    rw [encodeAddress, hnat, hback, hcarries]
  · rintro ⟨hcarries, rfl⟩
    refine ⟨beBytes 20 address.toNat, offset + 29,
      ⟨by simp, by norm_num, hcarries, by omega⟩, ?_, rfl⟩
    have hlt : address.toNat < 256 ^ 20 := by
      have hbits := address.isLt
      exact hbits
    rw [beValue_beBytes 20 _ hlt, BitVec.ofNat_toNat, BitVec.setWidth_eq]

@[simp] theorem assertFullyConsumed_eq_ok {consumedTo : ℕ} {done : Unit} :
    assertFullyConsumed buf consumedTo = .ok done ↔ consumedTo = buf.length := by
  simp [assertFullyConsumed]

end Readers

end Cbe
end Canon
