import Canon.ActionEncoding
import Canon.DisputeVerifier
import Canon.WithdrawalProof

/-!
# The encoders of the ingestor against the readers of the contracts

The readers thread an offset through a calldata buffer, so that a reader agrees
with an encoder if it finds the value wherever the encoding stands in a buffer,
and returns the offset just behind it.
-/

namespace Canon
namespace Cbe

open Ingest Bridge Dispute List

section Arrays

variable {α : Type}

/-- The reader returns the value wherever the encoding stands in a buffer. -/
def Reads (read : Bytes → ℕ → Except DecodeError (α × ℕ)) (encoded : Bytes) (value : α) : Prop :=
  ∀ buf offset rest, buf.drop offset = encoded ++ rest →
    read buf offset = .ok (value, offset + encoded.length)

/-- The loop over the elements of an array, with the reader of an element. -/
def readItems (read : Bytes → ℕ → Except DecodeError (α × ℕ)) (buf : Bytes) :
    ℕ → ℕ → Except DecodeError (List α × ℕ)
  | 0, off => .ok ([], off)
  | count + 1, off => do
      let (item, off) ← read buf off
      let (rest, off) ← readItems read buf count off
      return (item :: rest, off)

def readArray (read : Bytes → ℕ → Except DecodeError (α × ℕ)) (buf : Bytes) (offset : ℕ) :
    Except DecodeError (List α × ℕ) := do
  let (count, off) ← readArrayHead buf offset
  readItems read buf count.toNat off

def encodeArray (encode : α → Bytes) (items : List α) : Bytes :=
  encodeHead tagArray (UInt64.ofNat items.length) ++ items.flatMap encode

variable {read : Bytes → ℕ → Except DecodeError (α × ℕ)} {encode : α → Bytes} {items : List α}

theorem readItems_of_drop (hitems : ∀ item ∈ items, Reads read (encode item) item)
    {buf rest : Bytes} {offset : ℕ} (hbuf : buf.drop offset = items.flatMap encode ++ rest) :
    readItems read buf items.length offset =
      .ok (items, offset + (items.flatMap encode).length) := by
  induction items generalizing offset with
  | nil => rfl
  | cons item items ih =>
    rw [flatMap_cons, append_assoc] at hbuf
    have hitem := hitems item mem_cons_self _ _ _ hbuf
    have hrest := ih (fun other hmem => hitems other (mem_cons_of_mem _ hmem))
      (drop_of_drop_eq_append hbuf)
    simp only [length_cons, readItems, bind_eq_ok, Prod.exists, pure_eq_ok]
    refine ⟨item, _, hitem, items, _, hrest, ?_⟩
    rw [flatMap_cons, length_append, Nat.add_assoc]

theorem readArray_reads (hcount : items.length < 2 ^ 64)
    (hitems : ∀ item ∈ items, Reads read (encode item) item) :
    Reads (readArray read) (encodeArray encode items) items := by
  intro buf offset rest hbuf
  obtain ⟨hhead, hrest⟩ := carries_of_drop (encodeHead_length _ _) hbuf
  have hread := readItems_of_drop hitems hrest
  simp only [readArray, bind_eq_ok, Prod.exists, readArrayHead_eq_ok]
  refine ⟨_, _, ⟨hhead, rfl⟩, ?_⟩
  rw [UInt64.toNat_ofNat_of_lt' hcount, hread, encodeArray, length_append, encodeHead_length,
    Nat.add_assoc]

end Arrays

/-- Every reader finds what the encoders write, and the two decoders of the bridge
accept nothing else. -/
theorem cbe_agreement :
    (∀ value, Reads readUint (encodeU64 value) value) ∧
      (∀ payload encoded, encodeBytesChecked payload = some encoded →
        Reads readBytes encoded payload) ∧
      (∀ (address : Address) encoded,
        encodeBytesChecked (beBytes 20 address.toNat) = some encoded →
          Reads readAddressExact encoded address) ∧
      (∀ (word : Bytes32) encoded, encodeBytesChecked word.toBytes = some encoded →
        Reads readBytes32Exact encoded word) ∧
      (∀ (α : Type) (read : Bytes → ℕ → Except DecodeError (α × ℕ)) (encode : α → Bytes)
        (items : List α), items.length < 2 ^ 64 →
          (∀ item ∈ items, Reads read (encode item) item) →
          Reads (readArray read) (encodeArray encode items) items) ∧
      (∀ entry : LogEntry, entry.sig.length < 2 ^ 64 → Reads readLogEntry entry.encode entry) ∧
      (∀ blob wd, decodePendingWithdrawal blob = .ok wd ↔ blob = wd.encode) ∧
      (∀ blob leaf index siblings, decodeWithdrawalProof blob = .ok (leaf, index, siblings) ↔
        siblings.length = smtHeight ∧ leaf.length < 2 ^ 64 ∧
          (∀ sibling ∈ siblings, sibling.length < 2 ^ 64) ∧
          blob = encodeBytes leaf ++ (encodeU64 index ++ encodeArray encodeBytes siblings)) := by
  refine ⟨?_, ?_, ?_, ?_, fun _ _ _ _ => readArray_reads,
    fun _ hsize _ _ _ => readLogEntry_of_drop hsize, fun _ _ => decodePendingWithdrawal_eq_ok, ?_⟩
  · intro value buf offset rest hbuf
    rw [encodeU64_eq_encodeUint] at hbuf ⊢
    exact readUint_eq_ok.mpr ⟨(carries_of_drop rfl hbuf).1, by simp⟩
  · intro payload encoded hencoded buf offset rest hbuf
    obtain ⟨hsize, rfl⟩ := encodeBytesChecked_eq_some.mp hencoded
    refine readBytes_eq_ok.mpr ⟨hsize, (carries_of_drop rfl hbuf).1, ?_⟩
    rw [encodeBytes_length, Nat.add_assoc]
  · intro address encoded hencoded buf offset rest hbuf
    obtain ⟨_, rfl⟩ := encodeBytesChecked_eq_some.mp hencoded
    exact readAddressExact_eq_ok.mpr ⟨(carries_of_drop rfl hbuf).1, by simp⟩
  · intro word encoded hencoded buf offset rest hbuf
    obtain ⟨_, rfl⟩ := encodeBytesChecked_eq_some.mp hencoded
    exact readBytes32Exact_eq_ok.mpr ⟨(carries_of_drop rfl hbuf).1, by simp⟩
  · intro blob leaf index siblings
    rw [decodeWithdrawalProof_eq_ok]
    refine and_congr_right fun hlength => ?_
    rw [encodeArray, hlength]
    rfl

theorem cbe_agreement_bytes : Reads readBytes (0x02 :: 2 :: List.replicate 7 0 ++ [5, 6]) [5, 6] :=
  cbe_agreement.2.1 [5, 6] _ rfl

end Cbe
end Canon
