import Canon.TransitionRuns
import Canon.ByteStrings

/-!
# Tailing the log

The event server reads the frames of a log file which the kernel still appends to.  What
the kernel writes may arrive in pieces of any size, and the reader looks at the file
between any two of them.
-/

namespace Canon
namespace LogTail

open List

def fnv1a64 (bytes : Bytes) : UInt64 :=
  bytes.foldl (fun hash byte => (hash ^^^ byte.toUInt64) * 0x100000001b3) 0xcbf29ce484222325

def frameMagic : Bytes := [0x43, 0x41, 0x4E, 0x4F]

def encodeFrame (payload : Bytes) : Bytes :=
  frameMagic ++ leBytes 8 payload.length ++ payload ++ leBytes 8 (fnv1a64 payload).toNat

def framePayloadMax : ℕ := 16777216

structure LogFrame where
  seq : ℕ
  payload : Bytes
  deriving DecidableEq

inductive TailError where
  | io (offset : ℕ)
  | fileShrank (cursor newLen : ℕ)
  | badMagic (offset : ℕ) (got : Bytes)
  | oversizeFrame (offset declaredLength max : ℕ)
  | badTrailer (offset got expected : ℕ)
  deriving DecidableEq

inductive PollOutcome where
  | frame (frame : LogFrame)
  | pending (tailBytes : ℕ)
  deriving DecidableEq

structure TailReader where
  offset : ℕ
  nextSeq : ℕ
  payloadMax : ℕ
  payloadMax_le : payloadMax ≤ framePayloadMax

def TailReader.open : TailReader := ⟨0, 1, framePayloadMax, le_rfl⟩

def TailReader.withPayloadMax (reader : TailReader) (payloadMax : ℕ) : TailReader :=
  ⟨reader.offset, reader.nextSeq, min payloadMax framePayloadMax, min_le_right _ _⟩

def TailReader.advance (reader : TailReader) (payloadLen : ℕ) : TailReader :=
  { reader with
    offset := reader.offset + (12 + payloadLen + 8)
    nextSeq := min (reader.nextSeq + 1) (2 ^ 64 - 1) }

/-- One poll of a file with these bytes. -/
def TailReader.poll (reader : TailReader) (file : Bytes) :
    Except TailError (PollOutcome × TailReader) :=
  let rest := file.drop reader.offset
  let declared := leValue ((rest.drop 4).take 8)
  let payload := (rest.drop 12).take declared
  let trailer := leValue ((rest.drop (12 + declared)).take 8)
  if file.length < reader.offset then .error (.fileShrank reader.offset file.length)
  else if rest.length < 12 then .ok (.pending rest.length, reader)
  else if rest.take 4 ≠ frameMagic then .error (.badMagic reader.offset (rest.take 4))
  else if reader.payloadMax < declared then
    .error (.oversizeFrame reader.offset declared reader.payloadMax)
  else if rest.length < 12 + declared + 8 then .ok (.pending rest.length, reader)
  else if trailer ≠ (fnv1a64 payload).toNat then
    .error (.badTrailer reader.offset trailer (fnv1a64 payload).toNat)
  else .ok (.frame ⟨reader.nextSeq, payload⟩, reader.advance declared)

structure State where
  file : Bytes
  reader : TailReader
  frames : List LogFrame
  errors : List TailError

/-- The kernel writes, or the reader polls; `failure` is the offset at which the system
refuses to read. -/
inductive Label where
  | append (bytes : Bytes)
  | poll (failure : Option ℕ)

def State.initial (payloadMax : ℕ) : State :=
  ⟨[], TailReader.open.withPayloadMax payloadMax, [], []⟩

def State.receive (state : State) : PollOutcome × TailReader → State
  | (.pending _, _) => state
  | (.frame frame, reader) => { state with reader, frames := state.frames ++ [frame] }

def step (state : State) : Label → Except Unit State
  | .append bytes => .ok { state with file := state.file ++ bytes }
  | .poll (some offset) => .ok { state with errors := state.errors ++ [.io offset] }
  | .poll none =>
    match state.reader.poll state.file with
    | .error error => .ok { state with errors := state.errors ++ [error] }
    | .ok outcome => .ok (state.receive outcome)

section Frames

variable {reader : TailReader} {file payload tail : Bytes} {payloads : List Bytes}

@[simp] theorem length_encodeFrame (payload : Bytes) :
    (encodeFrame payload).length = 12 + payload.length + 8 := by
  simp [encodeFrame, frameMagic]
  omega

theorem drop_take_of_isPrefix {rest whole : Bytes} {start size : ℕ} (hrest : rest <+: whole)
    (hsize : start + size ≤ rest.length) :
    (rest.drop start).take size = (whole.drop start).take size := by
  rw [prefix_iff_eq_take.mp hrest, drop_take, take_take, min_eq_left (by omega)]

/-- A poll at the beginning of a frame, of which some first bytes are in the file. -/
theorem TailReader.poll_of_isPrefix (hoffset : reader.offset ≤ file.length)
    (hrest : file.drop reader.offset <+: encodeFrame payload ++ tail)
    (hpayload : payload.length ≤ reader.payloadMax) :
    reader.poll file = .ok (
      if reader.offset + (12 + payload.length + 8) ≤ file.length then
        (.frame ⟨reader.nextSeq, payload⟩, reader.advance payload.length)
      else (.pending (file.length - reader.offset), reader)) := by
  have hlength : (file.drop reader.offset).length = file.length - reader.offset := length_drop
  have hmax := reader.payloadMax_le
  have hhead : (frameMagic ++ leBytes 8 payload.length).length = 12 := by simp [frameMagic]
  have hbody :
      (frameMagic ++ leBytes 8 payload.length ++ payload).length = 12 + payload.length := by
    rw [length_append, hhead]
  rw [TailReader.poll]
  generalize file.drop reader.offset = rest at *
  rw [if_neg (by omega)]
  by_cases hheader : rest.length < 12
  · rw [if_pos hheader, if_neg (by omega), hlength]
  have hmagic : rest.take 4 = frameMagic := by
    rw [← drop_zero (l := rest), drop_take_of_isPrefix hrest (by omega), drop_zero, encodeFrame]
    simp only [append_assoc]
    exact take_left' rfl
  have hdeclared : leValue ((rest.drop 4).take 8) = payload.length := by
    rw [drop_take_of_isPrefix hrest (by omega), encodeFrame]
    simp only [append_assoc]
    rw [drop_left' (by rfl), take_left' (leBytes_length _ _)]
    exact leValue_leBytes _ _ (by norm_num [framePayloadMax] at hmax ⊢; omega)
  rw [if_neg hheader, if_neg (not_not.mpr hmagic), hdeclared, if_neg (Nat.not_lt.mpr hpayload)]
  split
  · rw [if_neg (by omega), hlength]
  have hcontent : (rest.drop 12).take payload.length = payload := by
    rw [drop_take_of_isPrefix hrest (by omega), encodeFrame, append_assoc, append_assoc,
      drop_left' hhead, take_left' rfl]
  have htrailer : leValue ((rest.drop (12 + payload.length)).take 8) =
      (fnv1a64 payload).toNat := by
    rw [drop_take_of_isPrefix hrest (by omega), encodeFrame, append_assoc, drop_left' hbody,
      take_left' (leBytes_length _ _)]
    exact leValue_leBytes _ _ (by have := (fnv1a64 payload).toNat_lt; norm_num; omega)
  rw [hcontent, htrailer, if_neg (not_not.mpr rfl), if_pos (by omega)]

/-! ## A well-formed log -/

/-- The first frames of the log have been delivered, in order and numbered from 1, and
nothing but failures of the system has been reported. -/
structure Follows (payloads : List Bytes) (state : State) : Prop where
  frames : state.frames =
    (payloads.take state.frames.length).mapIdx fun i payload => ⟨i + 1, payload⟩
  offset : state.reader.offset =
    ((payloads.take state.frames.length).flatMap encodeFrame).length
  reached : state.reader.offset ≤ state.file.length
  nextSeq : state.reader.nextSeq = state.frames.length + 1
  limit : ∀ payload ∈ payloads, payload.length ≤ state.reader.payloadMax
  errors : ∀ error ∈ state.errors, ∃ offset, error = .io offset

/-- What a poll is meant to find: the next payload as soon as its whole frame is there. -/
def nextPoll (payloads : List Bytes) (state : State) : PollOutcome × TailReader :=
  match payloads[state.frames.length]? with
  | none => (.pending 0, state.reader)
  | some payload =>
    if state.reader.offset + (12 + payload.length + 8) ≤ state.file.length then
      (.frame ⟨state.frames.length + 1, payload⟩, state.reader.advance payload.length)
    else (.pending (state.file.length - state.reader.offset), state.reader)

variable {state next : State} {label : Label}

theorem Follows.poll (hfollows : Follows payloads state)
    (hfile : state.file <+: payloads.flatMap encodeFrame) :
    state.reader.poll state.file = .ok (nextPoll payloads state) := by
  have hrest := hfile.drop state.reader.offset
  rw [← take_append_drop state.frames.length payloads, flatMap_append,
    drop_left' hfollows.offset.symm] at hrest
  unfold nextPoll
  cases hnext : payloads[state.frames.length]? with
  | none =>
    rw [drop_eq_nil_of_le (getElem?_eq_none_iff.mp hnext), flatMap_nil, prefix_nil] at hrest
    simp [TailReader.poll, hrest, Nat.not_lt.mpr hfollows.reached]
  | some payload =>
    obtain ⟨hlt, hpayload⟩ := List.getElem?_eq_some_iff.mp hnext
    rw [← getElem_cons_drop hlt, hpayload, flatMap_cons] at hrest
    rw [TailReader.poll_of_isPrefix hfollows.reached hrest
      (hfollows.limit payload (mem_of_getElem? hnext)), hfollows.nextSeq]

theorem step_file (hstep : step state label = .ok next) : state.file <+: next.file := by
  rcases label with bytes | _ | offset
  · cases hstep
    exact prefix_append _ _
  · simp only [LogTail.step] at hstep
    split at hstep <;> cases hstep
    · exact prefix_rfl
    · unfold State.receive
      split <;> exact prefix_rfl
  · cases hstep
    exact prefix_rfl

theorem Follows.receive (hfollows : Follows payloads state) (hlog : payloads.length < 2 ^ 64 - 1) :
    Follows payloads (state.receive (nextPoll payloads state)) := by
  unfold nextPoll
  cases hnext : payloads[state.frames.length]? with
  | none => exact hfollows
  | some payload =>
    simp only
    split
    · next hwhole =>
      have hlt := (List.getElem?_eq_some_iff.mp hnext).1
      have htake : payloads.take (state.frames.length + 1) =
          payloads.take state.frames.length ++ [payload] := by
        rw [take_add_one, hnext, Option.toList_some]
      refine ⟨?_, ?_, hwhole, ?_, hfollows.limit, hfollows.errors⟩ <;>
        simp only [State.receive, TailReader.advance, length_append, length_singleton, htake]
      · rw [mapIdx_append, ← hfollows.frames]
        simp [hlt.le]
      · rw [flatMap_append, length_append, ← hfollows.offset]
        simp
      · rw [hfollows.nextSeq]
        omega
    · exact hfollows

theorem Follows.step (hfollows : Follows payloads state) (hlog : payloads.length < 2 ^ 64 - 1)
    (hfile : state.file <+: payloads.flatMap encodeFrame) (hstep : step state label = .ok next) :
    Follows payloads next := by
  cases label with
  | append bytes =>
    cases hstep
    exact { hfollows with reached := hfollows.reached.trans (by simp) }
  | poll failure =>
    cases failure with
    | some offset =>
      cases hstep
      refine { hfollows with errors := fun error hmem => ?_ }
      rcases mem_append.mp hmem with hold | hnew
      · exact hfollows.errors error hold
      · exact ⟨offset, mem_singleton.mp hnew⟩
    | none =>
      simp only [LogTail.step, hfollows.poll hfile] at hstep
      cases hstep
      exact hfollows.receive hlog

end Frames

/-- While the file holds the first bytes of a log, whatever they end with, the reader has
delivered its first payloads, and a poll finds the next one as soon as it is there. -/
theorem tail_follows_log {payloadMax : ℕ} {payloads : List Bytes} {state : State}
    (hpayloads : ∀ payload ∈ payloads, payload.length ≤ min payloadMax framePayloadMax)
    (hlog : payloads.length < 2 ^ 64 - 1)
    (hreach : Reachable step (.initial payloadMax) state)
    (hfile : state.file <+: payloads.flatMap encodeFrame) :
    Follows payloads state ∧ state.reader.poll state.file = .ok (nextPoll payloads state) := by
  have hstart : Follows payloads (.initial payloadMax) :=
    ⟨rfl, rfl, le_rfl, rfl, hpayloads, by simp [State.initial]⟩
  have hinvariant : state.file <+: payloads.flatMap encodeFrame → Follows payloads state := by
    refine @Reachable.invariant _ _ _ _ (fun state => state.file <+: payloads.flatMap encodeFrame →
      Follows payloads state) (fun before label after hstep hbefore hafter => ?_) _ _ hreach
      fun _ => hstart
    have hfile := (step_file hstep).trans hafter
    exact (hbefore hfile).step hlog hfile hstep
  exact ⟨hinvariant hfile, (hinvariant hfile).poll hfile⟩

/-- Two frames, of which the second arrives in two pieces with a poll in between. -/
theorem tail_follows_two_frames :
    ∃ state, Reachable step (.initial 4) state ∧ state.frames = [⟨1, [7, 8]⟩] ∧
      Follows [[7, 8], []] state ∧
      state.reader.poll state.file = .ok (.frame ⟨2, []⟩, state.reader.advance 0) := by
  obtain ⟨trace, state, hrun, hfile, hframes, hnext⟩ := exists_run_of_traceOf step (.initial 4)
    [.append (encodeFrame [7, 8] ++ (encodeFrame []).take 9), .poll none, .poll none,
      .append ((encodeFrame []).drop 9)]
    (fun _ state => state.file = [[7, 8], []].flatMap encodeFrame ∧
      state.frames = [⟨1, [7, 8]⟩] ∧ state.reader.offset = 22) (by decide +kernel)
  obtain ⟨hfollows, hpoll⟩ := @tail_follows_log 4 [[7, 8], []] state (by decide) (by decide)
    ⟨trace, hrun⟩ (hfile ▸ prefix_rfl)
  refine ⟨state, ⟨trace, hrun⟩, hframes, hfollows, ?_⟩
  rw [hpoll, nextPoll, hframes, hnext, hfile]
  rfl

end LogTail
end Canon
