import Canon.ByteStrings

/-!
# The `keccak256` builtin

An executable Keccak-f[1600] sponge with rate 136 and the original `0x01`
padding, which is the hash the virtual machine offers as `keccak256`.  The
`evaluated` combinators return their argument unchanged; they only make the
evaluator compute a lane before it is used several times.
-/

namespace Canon

namespace Keccak

abbrev Planes := List (List ℕ)

def evaluated {α : Type} : ℕ → (ℕ → α) → α
  | 0, continue_ => continue_ 0
  | value + 1, continue_ => continue_ (value + 1)

def evaluatedPlane {α : Type} : List ℕ → (List ℕ → α) → α
  | [], continue_ => continue_ []
  | lane :: rest, continue_ =>
    evaluated lane fun value =>
      evaluatedPlane rest fun values => continue_ (value :: values)

def evaluatedPlanes {α : Type} : Planes → (Planes → α) → α
  | [], continue_ => continue_ []
  | plane :: rest, continue_ =>
    evaluatedPlane plane fun value =>
      evaluatedPlanes rest fun values => continue_ (value :: values)

def roundConstants : List ℕ :=
  [0x0000000000000001, 0x0000000000008082, 0x800000000000808A,
    0x8000000080008000, 0x000000000000808B, 0x0000000080000001,
    0x8000000080008081, 0x8000000000008009, 0x000000000000008A,
    0x0000000000000088, 0x0000000080008009, 0x000000008000000A,
    0x000000008000808B, 0x800000000000008B, 0x8000000000008089,
    0x8000000000008003, 0x8000000000008002, 0x8000000000000080,
    0x000000000000800A, 0x800000008000000A, 0x8000000080008081,
    0x8000000000008080, 0x0000000080000001, 0x8000000080008008]

def rotationOffsets : Planes :=
  [[0, 1, 62, 28, 27], [36, 44, 6, 55, 20], [3, 10, 43, 25, 39],
    [41, 45, 15, 21, 8], [18, 2, 61, 56, 14]]

/-- Row `y` lists, for each new lane `x` of plane `y`, the position which it is
read from in the old plane `x`. -/
def piSources : Planes :=
  [[0, 1, 2, 3, 4], [3, 4, 0, 1, 2], [1, 2, 3, 4, 0], [4, 0, 1, 2, 3], [2, 3, 4, 0, 1]]

def rotl64 (lane offset : ℕ) : ℕ := ((lane <<< offset) ||| (lane >>> (64 - offset))) % 2 ^ 64

def xorLanes (plane other : List ℕ) : List ℕ := List.zipWith (· ^^^ ·) plane other

def rotateLanes (offset : ℕ) (plane : List ℕ) : List ℕ := plane.drop offset ++ plane.take offset

def theta (planes : Planes) : Planes :=
  evaluatedPlane (planes.foldl xorLanes [0, 0, 0, 0, 0]) fun parity =>
    evaluatedPlane
      (xorLanes (rotateLanes 4 parity) ((rotateLanes 1 parity).map (rotl64 · 1))) fun mask =>
          planes.map (xorLanes mask)

def rhoPi (planes : Planes) : Planes := evaluatedPlanes
    (List.zipWith (List.zipWith rotl64) planes rotationOffsets) fun rotated =>
      piSources.map fun sources =>
        List.zipWith (fun plane position => plane.getD position 0) rotated sources

def chiPlane (plane : List ℕ) : List ℕ := xorLanes plane
    (List.zipWith (fun lane next => (2 ^ 64 - 1 - lane) &&& next)
      (rotateLanes 1 plane) (rotateLanes 2 plane))

def iota (constant : ℕ) : Planes → Planes
  | (lane :: lanes) :: planes => ((lane ^^^ constant) :: lanes) :: planes
  | planes => planes

def round (planes : Planes) (constant : ℕ) : Planes :=
  evaluatedPlanes (iota constant ((rhoPi (theta planes)).map chiPlane)) id

def permutation (planes : Planes) : Planes := roundConstants.foldl round planes

def lanesOf : ℕ → Bytes → List ℕ
  | 0, _ => []
  | count + 1, bytes =>
    leValue (bytes.take 8) :: lanesOf count (bytes.drop 8)

def planesOf : ℕ → Bytes → Planes
  | 0, _ => []
  | count + 1, bytes =>
    lanesOf 5 (bytes.take 40) :: planesOf count (bytes.drop 40)

def pad (message : Bytes) : Bytes :=
  let missing := 136 - message.length % 136
  if missing = 1 then message ++ [0x81]
  else message ++ [0x01] ++ List.replicate (missing - 2) 0 ++ [0x80]

def absorb : ℕ → Planes → Bytes → Planes
  | 0, planes, _ => planes
  | blocks + 1, planes, bytes =>
    absorb blocks
      (permutation
        (evaluatedPlanes (List.zipWith xorLanes planes (planesOf 5 (bytes.take 136))) id))
      (bytes.drop 136)

/-- The first 32 bytes of the sponge's state after absorbing the message. -/
def squeezed (message : Bytes) : Bytes :=
  let padded := pad message
  let planes := absorb (padded.length / 136) (List.replicate 5 (List.replicate 5 0)) padded
  (planes.flatten.take 4).flatMap (leBytes 8)

end Keccak

/-- The `keccak256` builtin. -/
def keccak256 (message : Bytes) : Bytes32 := Bytes32.ofBytes (Keccak.squeezed message)

example : ((keccak256 []).toBytes.take 4) = [0xc5, 0xd2, 0x46, 0x01] := by
  decide +kernel

/-- `keccak256` as a hash of strings. -/
def hashBytes (message : Bytes) : Bytes := (keccak256 message).toBytes

theorem hashBytes_length (message : Bytes) : (hashBytes message).length = 32 :=
  Bytes32.toBytes_length _

/-- The two byte strings are not a collision of `keccak256`. -/
def NoCollision (message other : Bytes) : Prop :=
  keccak256 message = keccak256 other → message = other

theorem NoCollision.refl (message : Bytes) : NoCollision message message := fun _ => rfl

/-- The bytes of an ASCII text, as hashed by `keccak256("...")`. -/
def asciiBytes (text : String) : Bytes := text.toList.map fun letter => UInt8.ofNat letter.toNat

end Canon
