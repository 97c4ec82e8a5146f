import Canon.HostFrames

/-!
# Frames in a stream

A client may send several frames one after the other, and the socket hands their bytes
out in pieces of any size.  A frame whose length is refused costs the four bytes of its
header.
-/

namespace Canon
namespace Host

open List

inductive WriteFrameError where
  | io (error : String)
  | payloadTooLarge (length : ℕ)
  deriving DecidableEq, Repr

def frameBytes (payload : Bytes) : Bytes := beBytes headerLen payload.length ++ payload

def encodeFrame (payload : Bytes) : Except WriteFrameError Bytes :=
  if maxU32 < payload.length then .error (.payloadTooLarge payload.length)
  else .ok (frameBytes payload)

/-- The reader hands out the stream in non-empty pieces, and then it ends. -/
inductive Splits : Reader → Bytes → Prop
  | ended : Splits [] []
  | read {chunk stream : Bytes} {rest : Reader} : chunk ≠ [] → Splits rest stream →
      Splits (.bytes chunk :: rest) (chunk ++ stream)

def readFrames (maxFrameSize : ℕ) : ℕ → Reader → List (Except FrameError Bytes)
  | 0, _ => []
  | calls + 1, reader =>
    (readFrame maxFrameSize reader).1 ::
      readFrames maxFrameSize calls (readFrame maxFrameSize reader).2

section Filling

variable {reader : Reader} {stream buffer : Bytes} {needed : ℕ}

theorem fill_of_full (hfull : needed ≤ buffer.length) :
    fill needed buffer reader = (.full buffer, reader) := by
  cases reader with
  | nil => rw [fill, if_pos hfull]
  | cons answer =>
    cases answer with
    | error => rw [fill, if_pos hfull]
    | bytes =>
      rw [fill, if_pos (Nat.sub_eq_zero_of_le hfull)]

theorem fill_of_enough (hsplits : Splits reader stream) (hroom : buffer.length ≤ needed)
    (henough : needed ≤ buffer.length + stream.length) :
    ∃ rest, fill needed buffer reader =
        (.full (buffer ++ stream.take (needed - buffer.length)), rest) ∧
      Splits rest (stream.drop (needed - buffer.length)) := by
  induction hsplits generalizing buffer with
  | ended =>
    refine ⟨[], ?_, ?_⟩
    · rw [fill_of_full henough, take_nil, append_nil]
    · rw [drop_nil]
      exact .ended
  | @read chunk stream rest hchunk hrest ih =>
    rw [length_append] at henough
    rcases Nat.eq_or_lt_of_le hroom with hfull | hspace
    · refine ⟨.bytes chunk :: rest, ?_, ?_⟩
      · rw [fill_of_full hfull.ge, hfull, Nat.sub_self, take_zero, append_nil]
      · rw [hfull, Nat.sub_self, drop_zero]
        exact .read hchunk hrest
    · by_cases hlong : needed - buffer.length < chunk.length
      · refine ⟨.bytes (chunk.drop (needed - buffer.length)) :: rest, ?_, ?_⟩
        · rw [fill, if_neg (by omega), if_neg hchunk, if_pos hlong,
            take_append_of_le_length hlong.le]
        · rw [drop_append_of_le_length hlong.le]
          refine .read ?_ hrest
          rw [ne_eq, drop_eq_nil_iff]
          omega
      · obtain ⟨after, hfill, hafter⟩ := @ih (buffer ++ chunk) (by rw [length_append]; omega)
          (by rw [length_append]; omega)
        rw [length_append, ← Nat.sub_sub] at hfill hafter
        have hwhole : chunk.take (needed - buffer.length) = chunk :=
          take_of_length_le (by omega)
        refine ⟨after, ?_, ?_⟩
        · rw [fill, if_neg (by omega), if_neg hchunk, if_neg hlong, hfill,
            take_append, hwhole, append_assoc]
        · rw [drop_append, drop_of_length_le (by omega), nil_append]
          exact hafter

theorem fill_of_short (hsplits : Splits reader stream)
    (hshort : buffer.length + stream.length < needed) :
    fill needed buffer reader = (.eof (buffer.length + stream.length), []) := by
  induction hsplits generalizing buffer with
  | ended =>
    rw [length_nil, Nat.add_zero] at hshort ⊢
    rw [fill, if_neg (by omega)]
  | @read chunk stream rest hchunk hrest ih =>
    rw [length_append] at hshort
    rw [fill, if_neg (by omega), if_neg hchunk, if_neg (by omega),
      ih (by rw [length_append]; omega), length_append, length_append, Nat.add_assoc]

end Filling

section Frames

variable {reader : Reader} {maxFrameSize : ℕ} {header more payload : Bytes}

theorem fill_header (hheader : header.length = headerLen)
    (hsplits : Splits reader (header ++ more)) :
    ∃ rest, fill headerLen [] reader = (.full header, rest) ∧ Splits rest more := by
  obtain ⟨rest, hfill, hrest⟩ := @fill_of_enough reader (header ++ more) []
    headerLen hsplits (Nat.zero_le _) (by rw [length_append, hheader, length_nil]; omega)
  rw [length_nil, Nat.sub_zero] at hfill hrest
  rw [nil_append, take_left' hheader] at hfill
  rw [drop_left' hheader] at hrest
  exact ⟨rest, hfill, hrest⟩

theorem beValue_header (hlimit : payload.length ≤ hardMaxFrameSize) :
    beValue (beBytes headerLen payload.length) = payload.length := by
  apply beValue_beBytes
  have hbound : hardMaxFrameSize < 256 ^ headerLen := by decide
  omega

theorem readFrame_of_frame (hpayload : payload ≠ [])
    (hlimit : payload.length ≤ min maxFrameSize hardMaxFrameSize)
    (hsplits : Splits reader (frameBytes payload ++ more)) :
    ∃ rest, readFrame maxFrameSize reader = (.ok payload, rest) ∧ Splits rest more := by
  obtain ⟨middle, hheader, hmiddle⟩ := fill_header (beBytes_length _ _) hsplits
  obtain ⟨rest, hfill, hrest⟩ := @fill_of_enough middle (payload ++ more) []
    payload.length hmiddle (Nat.zero_le _) (by rw [length_append, length_nil]; omega)
  rw [length_nil, Nat.sub_zero, nil_append, take_left] at hfill
  rw [length_nil, Nat.sub_zero, drop_left] at hrest
  have hpositive : payload.length ≠ 0 := fun hzero =>
    hpayload (eq_nil_of_length_eq_zero hzero)
  refine ⟨rest, ?_, hrest⟩
  rw [readFrame]
  simp only [hheader, beValue_header (hlimit.trans (min_le_right _ _))]
  rw [if_neg hpositive, if_neg (Nat.not_lt.mpr hlimit), readPayload, hfill]

theorem readFrame_of_end (hsplits : Splits reader []) :
    (readFrame maxFrameSize reader).1 = .error .eofBeforeHeader := by
  have hfill := @fill_of_short reader [] [] headerLen hsplits (by decide)
  rw [readFrame]
  simp only [hfill]
  rfl

def tornFrame (payload : Bytes) (present : ℕ) : FrameError :=
  if present < headerLen then .truncatedHeader present
  else .truncatedPayload (present - headerLen) payload.length

theorem readFrame_of_torn {present : ℕ}
    (hlimit : payload.length ≤ min maxFrameSize hardMaxFrameSize) (hsome : 0 < present)
    (htorn : present < (frameBytes payload).length)
    (hsplits : Splits reader ((frameBytes payload).take present)) :
    (readFrame maxFrameSize reader).1 = .error (tornFrame payload present) := by
  have hwidth : (beBytes headerLen payload.length).length = headerLen := beBytes_length _ _
  have hlength : (frameBytes payload).length = headerLen + payload.length := by
    rw [frameBytes, length_append, hwidth]
  by_cases hheader : present < headerLen
  · have htake : ((frameBytes payload).take present).length = present :=
      length_take_of_le htorn.le
    have hfill := @fill_of_short reader _ [] headerLen hsplits (by rw [htake, length_nil]; omega)
    rw [htake, length_nil, Nat.zero_add] at hfill
    rw [readFrame, tornFrame, if_pos hheader]
    simp only [hfill]
    rw [if_neg (by omega)]
  · have hpart : (frameBytes payload).take present =
        beBytes headerLen payload.length ++ payload.take (present - headerLen) := by
      rw [frameBytes, take_append, hwidth, take_of_length_le (by omega)]
    rw [hpart] at hsplits
    obtain ⟨rest, hfull, hrest⟩ := fill_header hwidth hsplits
    have htake : (payload.take (present - headerLen)).length =
        present - headerLen := length_take_of_le (by omega)
    have hfill := @fill_of_short rest _ [] payload.length hrest (by rw [htake, length_nil]; omega)
    rw [htake, length_nil, Nat.zero_add] at hfill
    rw [readFrame, tornFrame, if_neg hheader]
    simp only [hfull, beValue_header (hlimit.trans (min_le_right _ _))]
    rw [if_neg (by omega), if_neg (Nat.not_lt.mpr hlimit), readPayload, hfill]

theorem readFrames_append {payloads : List Bytes} {more : Bytes} {calls : ℕ}
    (hpayloads : ∀ payload ∈ payloads, payload ≠ [] ∧
      payload.length ≤ min maxFrameSize hardMaxFrameSize)
    (hsplits : Splits reader (payloads.flatMap frameBytes ++ more)) :
    ∃ rest, readFrames maxFrameSize (payloads.length + calls) reader =
        payloads.map .ok ++ readFrames maxFrameSize calls rest ∧ Splits rest more := by
  induction payloads generalizing reader with
  | nil =>
    refine ⟨reader, ?_, by simpa using hsplits⟩
    rw [length_nil, Nat.zero_add, map_nil, nil_append]
  | cons payload _ ih =>
    obtain ⟨hpayload, hlimit⟩ := hpayloads payload mem_cons_self
    rw [flatMap_cons, append_assoc] at hsplits
    obtain ⟨middle, hframe, hmiddle⟩ := readFrame_of_frame hpayload hlimit hsplits
    obtain ⟨rest, hothers, hrest⟩ := ih
      (fun other hother => hpayloads other (mem_cons_of_mem _ hother)) hmiddle
    refine ⟨rest, ?_, hrest⟩
    rw [length_cons, Nat.add_right_comm, readFrames, hframe, hothers]
    rfl

theorem readFrame_of_refused (hheader : header.length = headerLen)
    (hsplits : Splits reader (header ++ more)) :
    (beValue header = 0 →
      ∃ rest, readFrame maxFrameSize reader = (.error .zeroLengthFrame, rest) ∧ Splits rest more) ∧
    (min maxFrameSize hardMaxFrameSize < beValue header →
      ∃ rest, readFrame maxFrameSize reader =
          (.error (.oversizeFrame (beValue header) (min maxFrameSize hardMaxFrameSize)), rest) ∧
        Splits rest more) := by
  obtain ⟨rest, hfill, hrest⟩ := fill_header hheader hsplits
  constructor
  · intro hzero
    refine ⟨rest, ?_, hrest⟩
    rw [readFrame]
    simp only [hfill]
    rw [if_pos hzero]
  · intro hlarge
    refine ⟨rest, ?_, hrest⟩
    rw [readFrame]
    simp only [hfill]
    rw [if_neg (by omega), if_pos hlarge]

end Frames

/-- However the socket splits the bytes: frames within the limit come back in order
and are followed by the end of the stream; a stream which is cut inside a frame ends
with the number of bytes which are there; and a length which is refused leaves
everything behind the header. -/
theorem framing_independent_of_chunks (maxFrameSize : ℕ) {payloads : List Bytes}
    (hpayloads : ∀ payload ∈ payloads, payload ≠ [] ∧
      payload.length ≤ min maxFrameSize hardMaxFrameSize) :
    (∀ payload ∈ payloads, encodeFrame payload = .ok (frameBytes payload)) ∧
    (∀ reader, Splits reader (payloads.flatMap frameBytes) →
      readFrames maxFrameSize (payloads.length + 1) reader =
        payloads.map .ok ++ [.error .eofBeforeHeader]) ∧
    (∀ reader payload present, payload.length ≤ min maxFrameSize hardMaxFrameSize →
      0 < present → present < (frameBytes payload).length →
      Splits reader (payloads.flatMap frameBytes ++ (frameBytes payload).take present) →
      readFrames maxFrameSize (payloads.length + 1) reader =
        payloads.map .ok ++ [.error (tornFrame payload present)]) ∧
    (∀ reader header more, header.length = headerLen → Splits reader (header ++ more) →
      (beValue header = 0 →
        ∃ rest, readFrame maxFrameSize reader =
            (.error .zeroLengthFrame, rest) ∧ Splits rest more) ∧
      (min maxFrameSize hardMaxFrameSize < beValue header →
        ∃ rest, readFrame maxFrameSize reader =
            (.error (.oversizeFrame (beValue header) (min maxFrameSize hardMaxFrameSize)), rest) ∧
          Splits rest more)) := by
  refine ⟨?_, ?_, ?_, ?_⟩
  · intro payload hmem
    have hlimit := (hpayloads payload hmem).2.trans (min_le_right _ _)
    have hbound : hardMaxFrameSize ≤ maxU32 := by decide
    rw [encodeFrame, if_neg (by omega)]
  · intro reader hsplits
    rw [← append_nil (payloads.flatMap frameBytes)] at hsplits
    obtain ⟨rest, hread, hrest⟩ :=
      @readFrames_append reader maxFrameSize payloads [] 1 hpayloads hsplits
    rw [hread, readFrames, readFrames, readFrame_of_end hrest]
  · intro reader payload present hlimit hsome htorn hsplits
    obtain ⟨rest, hread, hrest⟩ :=
      @readFrames_append reader maxFrameSize payloads _ 1 hpayloads hsplits
    rw [hread, readFrames, readFrames, readFrame_of_torn hlimit hsome htorn hrest]
  · intro reader header more hheader hsplits
    exact readFrame_of_refused hheader hsplits

theorem framing_of_two_frames :
    readFrames 1024 3 [.bytes [0, 0], .bytes [0, 2, 7, 8, 0], .bytes [0, 0, 1], .bytes [9]] =
      [.ok [7, 8], .ok [9], .error .eofBeforeHeader] := by
  have hpayloads : ∀ payload ∈ ([[7, 8], [9]] : List Bytes), payload ≠ [] ∧
      payload.length ≤ min 1024 hardMaxFrameSize := by decide
  have hsplits : Splits [.bytes [0, 0], .bytes [0, 2, 7, 8, 0], .bytes [0, 0, 1], .bytes [9]]
        (([[7, 8], [9]] : List Bytes).flatMap frameBytes) :=
    .read (by decide) (.read (by decide) (.read (by decide) (.read (by decide) .ended)))
  exact (framing_independent_of_chunks 1024 hpayloads).2.1 _ hsplits

end Host
end Canon
