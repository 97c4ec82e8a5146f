import Mathlib.Tactic

/-!
# Byte strings, words and their fixed-width encodings

The two positional encodings used by the contracts (big-endian for
`abi.encodePacked`, little-endian for the value bytes of the binary encoding)
and the lemmas which recover a number, or the two halves of a concatenation,
from the encoded bytes.
-/

namespace Canon

open List

abbrev Bytes := List UInt8

/-- A `bytes32` word.  The length is part of the value, so that two words can
always be separated again after a concatenation. -/
structure Bytes32 where
  toBytes : Bytes
  length_toBytes : toBytes.length = 32
  deriving DecidableEq

@[simp] theorem Bytes32.toBytes_length (word : Bytes32) : word.toBytes.length = 32 :=
  word.length_toBytes

theorem Bytes32.toBytes_injective : Function.Injective Bytes32.toBytes := by
  rintro ⟨bytes, hbytes⟩ ⟨other, hother⟩ heq
  subst heq
  rfl

@[simp] theorem Bytes32.toBytes_inj {word other : Bytes32} :
    word.toBytes = other.toBytes ↔ word = other := Bytes32.toBytes_injective.eq_iff

def Bytes32.zero : Bytes32 := ⟨List.replicate 32 0, by simp⟩

instance : Inhabited Bytes32 := ⟨Bytes32.zero⟩

def Bytes32.ofBytes (bytes : Bytes) : Bytes32 := ⟨(bytes ++ List.replicate 32 0).take 32, by simp⟩

theorem Bytes32.toBytes_ofBytes {bytes : Bytes}
    (hlength : bytes.length = 32) : (Bytes32.ofBytes bytes).toBytes = bytes :=
  take_left' hlength

theorem Bytes32.ofBytes_append {word rest : Bytes} (hlength : word.length = 32) :
    Bytes32.ofBytes (word ++ rest) = ⟨word, hlength⟩ := by
  apply Bytes32.toBytes_injective
  change ((word ++ rest) ++ List.replicate 32 0).take 32 = word
  rw [append_assoc]
  exact take_left' hlength

/-- Another word than the given one: its first byte is shifted by one. -/
def Bytes32.perturb (word : Bytes32) : Bytes32 := ⟨word.toBytes.modifyHead (· + 1), by simp⟩

abbrev Address := BitVec 160

def leValue : Bytes → ℕ
  | [] => 0
  | byte :: rest => byte.toNat + 256 * leValue rest

/-- The low `width` bytes of a number, least significant first. -/
def leBytes : ℕ → ℕ → Bytes
  | 0, _ => []
  | width + 1, value => UInt8.ofNat value :: leBytes width (value / 256)

/-- The low `width` bytes of a number, most significant first. -/
def beBytes : ℕ → ℕ → Bytes
  | 0, _ => []
  | width + 1, value => beBytes width (value / 256) ++ [UInt8.ofNat value]

@[simp] theorem leBytes_length (width value : ℕ) : (leBytes width value).length = width := by
  induction width generalizing value with
  | zero => rfl
  | succ _ ih => simp [leBytes, ih]

@[simp] theorem beBytes_length (width value : ℕ) : (beBytes width value).length = width := by
  induction width generalizing value with
  | zero => rfl
  | succ _ ih => simp [beBytes, ih]

theorem leValue_lt (bytes : Bytes) : leValue bytes < 256 ^ bytes.length := by
  induction bytes with
  | nil => simp [leValue]
  | cons byte =>
    have hbyte := byte.toNat_lt
    simp only [leValue, length_cons, pow_succ]
    omega

theorem leValue_leBytes (width value : ℕ) (hvalue : value < 256 ^ width) :
    leValue (leBytes width value) = value := by
  induction width generalizing value with
  | zero =>
    simp only [pow_zero, Nat.lt_one_iff] at hvalue
    simp [leBytes, leValue, hvalue]
  | succ width ih =>
    have hrest : value / 256 < 256 ^ width := by
      rw [Nat.div_lt_iff_lt_mul (by norm_num)]
      simpa [pow_succ] using hvalue
    simp only [leBytes, leValue, ih _ hrest, UInt8.toNat_ofNat']
    omega

theorem leBytes_leValue (bytes : Bytes) : leBytes bytes.length (leValue bytes) = bytes := by
  induction bytes with
  | nil => rfl
  | cons byte rest ih =>
    have hbyte := byte.toNat_lt
    have hdiv : (byte.toNat + 256 * leValue rest) / 256 = leValue rest := by
      omega
    have hhead : UInt8.ofNat (byte.toNat + 256 * leValue rest) = byte := by
      apply UInt8.toNat_inj.mp
      rw [UInt8.toNat_ofNat']
      omega
    simp only [length_cons, leValue, leBytes, hdiv, hhead, ih]

theorem leBytes_injective_of_lt {width value other : ℕ}
    (hvalue : value < 256 ^ width) (hother : other < 256 ^ width)
    (heq : leBytes width value = leBytes width other) : value = other := by
  rw [← leValue_leBytes width value hvalue, ← leValue_leBytes width other hother, heq]

theorem leValue_append_singleton (bytes : Bytes) (byte : UInt8) :
    leValue (bytes ++ [byte]) = leValue bytes + 256 ^ bytes.length * byte.toNat := by
  induction bytes with
  | nil => simp [leValue]
  | cons _ _ ih =>
    simp only [cons_append, leValue, ih, length_cons, pow_succ]
    ring

/-- The loop `acc |= byte(i) << (8 * i)` of the little-endian readers. -/
def orShiftLoop (byteAt : ℕ → UInt8) (count : ℕ) : ℕ := (List.range count).foldl
    (fun acc i => acc ||| ((byteAt i).toNat <<< (8 * i))) 0

theorem orShiftLoop_eq_leValue (byteAt : ℕ → UInt8) (count : ℕ) :
    orShiftLoop byteAt count = leValue ((List.range count).map byteAt) := by
  induction count with
  | zero => rfl
  | succ count ih =>
    have hlt : leValue ((List.range count).map byteAt) < 2 ^ (8 * count) := by
      have h := leValue_lt ((List.range count).map byteAt)
      rw [length_map, length_range] at h
      rw [pow_mul]
      exact h
    have hor :
        leValue ((List.range count).map byteAt) ||| ((byteAt count).toNat <<< (8 * count)) =
          leValue ((List.range count).map byteAt) + 256 ^ count * (byteAt count).toNat := by
      rw [Nat.shiftLeft_eq, Nat.mul_comm, Nat.or_comm, ← Nat.two_pow_add_eq_or_of_lt hlt, pow_mul]
      exact Nat.add_comm _ _
    unfold orShiftLoop at ih ⊢
    rw [range_succ, foldl_append, ih, map_append, map_singleton, leValue_append_singleton]
    simpa using hor

theorem map_getD_range (bytes : Bytes) {start count : ℕ} (hlength : start + count ≤ bytes.length) :
    (List.range count).map (fun i => bytes.getD (start + i) 0) = (bytes.drop start).take count := by
  apply ext_getElem
  · simp
    omega
  · intro i hleft hright
    have hi : i < count := by simpa using hleft
    have hbound : start + i < bytes.length := by omega
    simp [List.getElem?_eq_getElem hbound]

theorem leBytes_zero (width : ℕ) : leBytes width 0 = List.replicate width 0 := by
  induction width with
  | zero => rfl
  | succ _ ih =>
    simp only [leBytes, Nat.zero_div, ih, replicate_succ]
    rfl

theorem beBytes_eq_reverse (width value : ℕ) :
    beBytes width value = (leBytes width value).reverse := by
  induction width generalizing value with
  | zero => rfl
  | succ _ ih => simp [beBytes, leBytes, ih]

theorem beBytes_zero (width : ℕ) : beBytes width 0 = List.replicate width 0 := by
  rw [beBytes_eq_reverse, leBytes_zero, reverse_replicate]

theorem beBytes_add_of_lt (high : ℕ) {low value : ℕ} (hvalue : value < 256 ^ low) :
    beBytes (high + low) value = List.replicate high 0 ++ beBytes low value := by
  induction low generalizing value with
  | zero =>
    rw [Nat.lt_one_iff.mp hvalue, Nat.add_zero, beBytes_zero]
    exact (append_nil _).symm
  | succ low ih =>
    have hrest : value / 256 < 256 ^ low := by
      exact Nat.div_lt_of_lt_mul (by omega)
    rw [← Nat.add_assoc, beBytes, ih hrest, beBytes, append_assoc]

theorem beBytes_injective_of_lt {width value other : ℕ}
    (hvalue : value < 256 ^ width) (hother : other < 256 ^ width)
    (heq : beBytes width value = beBytes width other) : value = other := by
  rw [beBytes_eq_reverse, beBytes_eq_reverse, reverse_inj] at heq
  exact leBytes_injective_of_lt hvalue hother heq

/-- The value carried by big-endian bytes, in the accumulating form
`acc = (acc << 8) | byte` of the decoders. -/
def beValue (bytes : Bytes) : ℕ := bytes.foldl (fun acc byte => (acc <<< 8) ||| byte.toNat) 0

theorem shiftLeft_or_byte (acc : ℕ) (byte : UInt8) :
    (acc <<< 8) ||| byte.toNat = 256 * acc + byte.toNat := by
  rw [Nat.shiftLeft_eq, Nat.mul_comm]
  exact (Nat.two_pow_add_eq_or_of_lt byte.toNat_lt acc).symm

theorem beValue_append_singleton (bytes : Bytes) (byte : UInt8) :
    beValue (bytes ++ [byte]) = 256 * beValue bytes + byte.toNat := by
  simp only [beValue, foldl_append, foldl_cons, foldl_nil]
  exact shiftLeft_or_byte _ byte

theorem beValue_append (front back : Bytes) :
    beValue (front ++ back) = 256 ^ back.length * beValue front + beValue back := by
  induction back using List.reverseRecOn with
  | nil => simp [beValue]
  | append_singleton back byte ih =>
    rw [← append_assoc, beValue_append_singleton, ih, beValue_append_singleton]
    simp only [length_append, length_singleton, pow_succ]
    ring

theorem beValue_eq_leValue_reverse (bytes : Bytes) : beValue bytes = leValue bytes.reverse := by
  induction bytes using List.reverseRecOn with
  | nil => rfl
  | append_singleton _ _ ih =>
    rw [beValue_append_singleton, ih]
    simp only [reverse_append, reverse_cons, reverse_nil, nil_append, singleton_append, leValue]
    omega

theorem beValue_beBytes (width value : ℕ) (hvalue : value < 256 ^ width) :
    beValue (beBytes width value) = value := by
  rw [beValue_eq_leValue_reverse, beBytes_eq_reverse, reverse_reverse]
  exact leValue_leBytes width value hvalue

theorem beBytes_beValue (bytes : Bytes) : beBytes bytes.length (beValue bytes) = bytes := by
  rw [beValue_eq_leValue_reverse, beBytes_eq_reverse]
  have hle := leBytes_leValue bytes.reverse
  rw [length_reverse] at hle
  rw [hle, reverse_reverse]

theorem beValue_lt (bytes : Bytes) : beValue bytes < 256 ^ bytes.length := by
  rw [beValue_eq_leValue_reverse]
  simpa using leValue_lt bytes.reverse

end Canon
