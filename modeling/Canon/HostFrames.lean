import Canon.ByteStrings
import Mathlib.Tactic

/-!
# Frames and verdicts of the host

A client of `canon-host` sends one frame, a length and so many bytes, and gets back
one verdict with a reason.  A reader is what the socket answers to the successive
calls of `read`; it splits the bytes as it likes, and may fail at any point.
-/

namespace Canon
namespace Host

/-! ## Verdicts -/

inductive Verdict where
  | ok
  | notAdmissible
  | parseError
  | busy
  deriving DecidableEq, Repr

def Verdict.fromByte (byte : UInt8) : Option Verdict :=
  if byte = 0 then some .ok
  else if byte = 1 then some .notAdmissible
  else if byte = 2 then some .parseError
  else if byte = 3 then some .busy
  else none

def Verdict.toByte : Verdict → UInt8
  | .ok => 0
  | .notAdmissible => 1
  | .parseError => 2
  | .busy => 3

@[simp] theorem Verdict.fromByte_toByte (verdict : Verdict) :
    fromByte verdict.toByte = some verdict := by
  cases verdict <;> rfl

theorem Verdict.toByte_injective : Function.Injective toByte := by
  intro first second heq
  have hread := congrArg fromByte heq
  rw [fromByte_toByte, fromByte_toByte] at hread
  exact Option.some.inj hread

structure VerdictResponse where
  verdict : Verdict
  reason : String
  deriving DecidableEq, Repr

def VerdictResponse.fromVerdict (verdict : Verdict) : VerdictResponse :=
  ⟨verdict, ""⟩

def VerdictResponse.withReason (verdict : Verdict) (reason : String) :
    VerdictResponse :=
  ⟨verdict, reason⟩

/-- The largest value of a `u32`. -/
def maxU32 : ℕ := 2 ^ 32 - 1

def VerdictResponse.encode (response : VerdictResponse) : Bytes :=
  let reasonBytes := response.reason.toUTF8.toList
  let reasonLen := min reasonBytes.length maxU32
  response.verdict.toByte :: (beBytes 4 reasonLen ++ reasonBytes.take reasonLen)

theorem VerdictResponse.head_take_encode (response : VerdictResponse) {count : ℕ} {byte : UInt8}
    (hbyte : (response.encode.take count).head? = some byte) : byte = response.verdict.toByte := by
  cases count with
  | zero => cases hbyte
  | succ => exact (Option.some.inj hbyte).symm

/-! ## Frames -/

def defaultMaxFrameSize : ℕ := 1024 * 1024
def hardMaxFrameSize : ℕ := 16 * 1024 * 1024
def headerLen : ℕ := 4

inductive FrameError where
  | io (error : String)
  | eofBeforeHeader
  | truncatedHeader (bytesRead : ℕ)
  | truncatedPayload (bytesRead declaredLength : ℕ)
  | oversizeFrame (declaredLength max : ℕ)
  | zeroLengthFrame
  deriving DecidableEq, Repr

def FrameError.display : FrameError → String
  | .io error => "I/O error reading frame: " ++ error
  | .eofBeforeHeader =>
    "client closed connection before sending a frame header"
  | .truncatedHeader bytesRead =>
    "client sent " ++ toString bytesRead ++ " of " ++ toString headerLen ++
      " header bytes before EOF"
  | .truncatedPayload bytesRead declaredLength =>
    "client sent " ++ toString bytesRead ++ " of " ++
      toString declaredLength ++ " payload bytes before EOF"
  | .oversizeFrame declaredLength max =>
    "frame length " ++ toString declaredLength ++
      " exceeds configured max " ++ toString max
  | .zeroLengthFrame => "zero-length frame rejected; minimum is 1 byte"

/-- One answer of the socket: some bytes, none at the end of the stream, or an
error. -/
inductive ReadAnswer where
  | bytes (chunk : Bytes)
  | error (error : String)
  deriving DecidableEq, Repr

/-- The answers to come; after the last one the stream has ended. -/
abbrev Reader := List ReadAnswer

inductive FillEnd where
  | full (buffer : Bytes)
  | eof (bytesRead : ℕ)
  | error (error : String)
  deriving DecidableEq, Repr

/-- The loops of `read_frame`: read into the rest of a buffer of `needed` bytes
until it is full.  What a chunk has too much stays in the socket. -/
def fill (needed : ℕ) (buffer : Bytes) : Reader → FillEnd × Reader
  | [] =>
    if needed ≤ buffer.length then (.full buffer, [])
    else (.eof buffer.length, [])
  | .error error :: rest =>
    if needed ≤ buffer.length then (.full buffer, .error error :: rest)
    else (.error error, rest)
  | .bytes chunk :: rest =>
    let space := needed - buffer.length
    if space = 0 then (.full buffer, .bytes chunk :: rest)
    else if chunk = [] then (.eof buffer.length, rest)
    else if space < chunk.length then
      (.full (buffer ++ chunk.take space), .bytes (chunk.drop space) :: rest)
    else fill needed (buffer ++ chunk) rest

def readPayload (declared : ℕ) (reader : Reader) : Except FrameError Bytes × Reader :=
  match fill declared [] reader with
  | (.full payload, rest) => (.ok payload, rest)
  | (.eof bytesRead, rest) => (.error (.truncatedPayload bytesRead declared), rest)
  | (.error error, rest) => (.error (.io error), rest)

def readFrame (maxFrameSize : ℕ) (reader : Reader) : Except FrameError Bytes × Reader :=
  let maxFrameSize := min maxFrameSize hardMaxFrameSize
  match fill headerLen [] reader with
  | (.error error, rest) => (.error (.io error), rest)
  | (.eof bytesRead, rest) =>
    if bytesRead = 0 then (.error .eofBeforeHeader, rest)
    else (.error (.truncatedHeader bytesRead), rest)
  | (.full header, rest) =>
    let declared := beValue header
    if declared = 0 then (.error .zeroLengthFrame, rest)
    else if maxFrameSize < declared then
      (.error (.oversizeFrame declared maxFrameSize), rest)
    else readPayload declared rest

end Host
end Canon
