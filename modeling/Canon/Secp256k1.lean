import Canon.KeccakSponge

/-!
# Signatures over secp256k1

The curve `y² = x³ + 7` over the field with `fieldPrime` elements, its group of
order `groupOrder`, and the verification of a signature.  Points are held in
Jacobian coordinates, so that only the last step of a verification divides.
-/

namespace Canon
namespace Secp256k1

def fieldPrime : ℕ := 0xFFFFFFFFFFFFFFFFFFFFFFFFFFFFFFFFFFFFFFFFFFFFFFFFFFFFFFFEFFFFFC2F

def groupOrder : ℕ := 0xFFFFFFFFFFFFFFFFFFFFFFFFFFFFFFFEBAAEDCE6AF48A03BBFD25E8CD0364141

/-- The power of a number for an exponent of at most the given number of
bits. -/
def powMod (modulus : ℕ) : ℕ → ℕ → ℕ → ℕ
  | 0, _, _ => 1
  | bits + 1, base, exponent =>
    Keccak.evaluated (base * base % modulus) fun square =>
      let rest := powMod modulus bits square (exponent / 2)
      if exponent % 2 = 1 then base * rest % modulus else rest

def inverse (modulus value : ℕ) : ℕ := powMod modulus 256 value (modulus - 2)

def fieldSub (left right : ℕ) : ℕ := (left + fieldPrime - right) % fieldPrime

def fieldMul (left right : ℕ) : ℕ := left * right % fieldPrime

/-- The point `(x / z², y / z³)`, at infinity when `z` is zero. -/
structure Point where
  x : ℕ
  y : ℕ
  z : ℕ
  deriving DecidableEq

def Point.infinity : Point := ⟨1, 1, 0⟩

def Point.evaluated {α : Type} (point : Point) (continue_ : Point → α) : α :=
  Keccak.evaluated point.x fun x =>
    Keccak.evaluated point.y fun y =>
      Keccak.evaluated point.z fun z => continue_ ⟨x, y, z⟩

def generator : Point where
  x := 0x79BE667EF9DCBBAC55A06295CE870B07029BFCDB2DCE28D959F2815B16F81798
  y := 0x483ADA7726A3C4655DA4FBFC0E1108A8FD17B448A68554199C47D08FFB10D4B8
  z := 1

def Point.double (point : Point) : Point :=
  Keccak.evaluated (fieldMul point.y point.y) fun ySquare =>
    Keccak.evaluated (fieldMul (4 * point.x) ySquare) fun chord =>
      Keccak.evaluated (fieldMul (3 * point.x) point.x) fun slope =>
        Keccak.evaluated (fieldSub (fieldMul slope slope) (2 * chord % fieldPrime)) fun x =>
          { x := x
            y := fieldSub (fieldMul slope (fieldSub chord x)) (fieldMul (8 * ySquare) ySquare)
            z := fieldMul (2 * point.y) point.z }

def Point.add (point other : Point) : Point :=
  if point.z = 0 then other
  else if other.z = 0 then point
  else
    Keccak.evaluated (fieldMul point.z point.z) fun zSquare =>
    Keccak.evaluated (fieldMul other.z other.z) fun otherSquare =>
    Keccak.evaluated (fieldMul point.x otherSquare) fun x =>
    Keccak.evaluated (fieldMul point.y (fieldMul other.z otherSquare)) fun y =>
    Keccak.evaluated (fieldSub (fieldMul other.x zSquare) x) fun run =>
    Keccak.evaluated (fieldSub (fieldMul other.y (fieldMul point.z zSquare)) y) fun rise =>
    if run = 0 then
      if rise = 0 then point.double else .infinity
    else
      Keccak.evaluated (fieldMul run run) fun runSquare =>
      Keccak.evaluated (fieldMul run runSquare) fun runCube =>
      Keccak.evaluated (fieldMul x runSquare) fun chord =>
      Keccak.evaluated
        (fieldSub (fieldSub (fieldMul rise rise) runCube) (2 * chord % fieldPrime)) fun sumX =>
      { x := sumX
        y := fieldSub (fieldMul rise (fieldSub chord sumX)) (fieldMul y runCube)
        z := fieldMul run (fieldMul point.z other.z) }

/-- The multiple of a point by a scalar of at most the given number of
bits. -/
def Point.scale : ℕ → ℕ → Point → Point
  | 0, _, _ => .infinity
  | bits + 1, scalar, point =>
    point.double.evaluated fun doubled =>
      (scale bits (scalar / 2) doubled).evaluated fun rest =>
        if scalar % 2 = 1 then point.add rest else rest

/-- The first affine coordinate of a point which is not at infinity. -/
def Point.affineX (point : Point) : ℕ :=
  Keccak.evaluated (inverse fieldPrime point.z) fun zInverse =>
    fieldMul point.x (fieldMul zInverse zInverse)

def Point.affineY (point : Point) : ℕ :=
  Keccak.evaluated (inverse fieldPrime point.z) fun zInverse =>
    fieldMul point.y (fieldMul zInverse (fieldMul zInverse zInverse))

/-- The point with the given first coordinate and parity of the second. -/
def Point.ofX (x : ℕ) (odd : Bool) : Option Point :=
  Keccak.evaluated ((fieldMul x (fieldMul x x) + 7) % fieldPrime) fun square =>
  Keccak.evaluated (powMod fieldPrime 256 square ((fieldPrime + 1) / 4)) fun root =>
  if fieldPrime ≤ x ∨ fieldMul root root ≠ square then none
  else if (root % 2 = 1) = (odd = true) then some ⟨x, root, 1⟩
  else some ⟨x, fieldPrime - root, 1⟩

/-! ## Keys and signatures -/

/-- The point named by a compressed key: a tag for the parity of `y`, and `x`
in 32 bytes. -/
def keyFromSec1Bytes : Bytes → Option Point
  | [] => none
  | tag :: rest =>
    if rest.length ≠ 32 then none
    else if tag = 2 then Point.ofX (beValue rest) false
    else if tag = 3 then Point.ofX (beValue rest) true
    else none

structure Signature where
  r : ℕ
  s : ℕ
  deriving DecidableEq

/-- Two scalars of 32 bytes, neither of them zero or beyond the order. -/
def signatureFromSlice (bytes : Bytes) : Option Signature :=
  let r := beValue (bytes.take 32)
  let s := beValue (bytes.drop 32)
  if bytes.length ≠ 64 ∨ r = 0 ∨ groupOrder ≤ r ∨ s = 0 ∨ groupOrder ≤ s then
    none
  else some ⟨r, s⟩

def Signature.sIsHigh (signature : Signature) : Bool := groupOrder / 2 < signature.s

/-- The verification equation: the sum of two multiples has `r` as its first
coordinate. -/
def verifyPrehash (key : Point) (message : Bytes) (signature : Signature) :
    Bool :=
  let w := inverse groupOrder signature.s
  let u₁ := beValue message % groupOrder * w % groupOrder
  let u₂ := signature.r * w % groupOrder
  let sum := (generator.scale 256 u₁).add (key.scale 256 u₂)
  sum.z ≠ 0 && sum.affineX % groupOrder = signature.r

/-- The key under which the signature of the message verifies, when the point
of the signature has the given parity. -/
def recoverKey (message : Bytes) (signature : Signature) (odd : Bool) : Option Point :=
  (Point.ofX signature.r odd).bind fun commitment =>
    let w := inverse groupOrder signature.r
    let u₁ := (groupOrder - beValue message % groupOrder) * w % groupOrder
    let u₂ := signature.s * w % groupOrder
    let key := (generator.scale 256 u₁).add (commitment.scale 256 u₂)
    if key.z = 0 then none else some key

end Secp256k1
end Canon
