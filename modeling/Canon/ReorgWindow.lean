import Canon.ByteStrings

/-!
# The window of recent block headers

The headers of the last blocks, oldest first.  A header which continues the newest one
is pushed.  Any other header has to have its parent in the window, and everything after
the parent is dropped.
-/

namespace Canon
namespace Ingest

open List

structure BlockHeader where
  number : UInt64
  hash : Bytes32
  parentHash : Bytes32
  deriving DecidableEq

inductive ReorgError where
  | deepReorg (incomingNumber windowFloor : UInt64)
  | orphanedParent (incomingNumber : UInt64)
  | nonMonotone (incomingNumber lastSeen : UInt64)
  deriving DecidableEq

def ReorgError.display : ReorgError → String
  | .deepReorg incomingNumber windowFloor =>
    "deep re-org detected: incoming block " ++ toString incomingNumber ++
      " predates window floor " ++ toString windowFloor
  | .orphanedParent incomingNumber =>
    "deep re-org: incoming block " ++ toString incomingNumber ++
      " parent hash does not match any cached block"
  | .nonMonotone incomingNumber lastSeen =>
    "incoming block " ++ toString incomingNumber ++
      " is non-monotone w.r.t. last seen " ++ toString lastSeen

inductive AdvanceOutcome where
  | advanced
  | reorged (droppedCount : ℕ) (droppedFromNumber : UInt64)
  deriving DecidableEq

structure ReorgWindow where
  capacity : ℕ
  capacity_pos : 0 < capacity
  buffer : List BlockHeader

namespace ReorgWindow

def new (capacity : ℕ) (capacity_pos : 0 < capacity) : ReorgWindow := ⟨capacity, capacity_pos, []⟩

/-- Push a header at the new end; a full window loses its oldest header. -/
def push (window : ReorgWindow) (header : BlockHeader) : ReorgWindow :=
  { window with
    buffer :=
      (if window.buffer.length = window.capacity then window.buffer.tail
        else window.buffer) ++ [header] }

def seed (window : ReorgWindow) (headers : List BlockHeader) : ReorgWindow :=
  headers.foldl push { window with buffer := [] }

def IsParent (incoming header : BlockHeader) : Prop :=
  header.hash = incoming.parentHash ∧ header.number + 1 = incoming.number

instance (incoming header : BlockHeader) : Decidable (IsParent incoming header) :=
  inferInstanceAs (Decidable (_ ∧ _))

def foundAt (window : ReorgWindow) (incoming : BlockHeader) : Option ℕ :=
  (window.buffer.zipIdx.reverse.find? fun entry => decide (IsParent incoming entry.1)).map Prod.snd

/-- The two walks of `advance` back through the window. -/
def walkBack (window : ReorgWindow) (incoming : BlockHeader) :
    Except ReorgError (AdvanceOutcome × ReorgWindow) :=
  match window.foundAt incoming with
  | none => .error (.orphanedParent incoming.number)
  | some i =>
    let droppedCount := window.buffer.length - (i + 1)
    let droppedFromNumber := (window.buffer[i + 1]?).elim incoming.number BlockHeader.number
    .ok (.reorged droppedCount droppedFromNumber,
      { window with buffer := window.buffer.take (i + 1) ++ [incoming] })

def advance (window : ReorgWindow) (incoming : BlockHeader) :
    Except ReorgError (AdvanceOutcome × ReorgWindow) :=
  match window.buffer.getLast? with
  | none => .ok (.advanced, { window with buffer := [incoming] })
  | some last =>
    let windowFloor := (window.buffer.head?).elim last.number BlockHeader.number
    if incoming.number ≤ windowFloor then
      .error (.deepReorg incoming.number windowFloor)
    else if incoming.number = last.number + 1 ∧ incoming.parentHash = last.hash then
      .ok (.advanced, window.push incoming)
    else if incoming.number ≤ last.number then window.walkBack incoming
    else if last.number + 1 < incoming.number then
      .error (.nonMonotone incoming.number last.number)
    else window.walkBack incoming

theorem foundAt_of_parent {window : ReorgWindow}
    {incoming parent : BlockHeader} {front rest : List BlockHeader}
    (hbuffer : window.buffer = front ++ parent :: rest) (hparent : IsParent incoming parent)
    (hrest : ∀ header ∈ rest, ¬IsParent incoming header) :
    window.foundAt incoming = some front.length := by
  have hnone : (rest.zipIdx (front.length + 1)).reverse.find?
      (fun entry => decide (IsParent incoming entry.1)) = none := by
    rw [List.find?_eq_none]
    intro entry hentry
    have hmem : entry.1 ∈ rest := fst_mem_of_mem_zipIdx (mem_reverse.mp hentry)
    simpa using hrest entry.1 hmem
  unfold foundAt
  rw [hbuffer, zipIdx_append, zipIdx_cons, reverse_append,
    reverse_cons, append_assoc, List.find?_append, Nat.zero_add, hnone]
  simp [hparent]

theorem foundAt_eq_none {window : ReorgWindow} {incoming : BlockHeader}
    (hnone : ∀ header ∈ window.buffer, ¬IsParent incoming header) :
    window.foundAt incoming = none := by
  unfold foundAt
  rw [Option.map_eq_none_iff, List.find?_eq_none]
  intro entry hentry
  have hmem : entry.1 ∈ window.buffer := fst_mem_of_mem_zipIdx (mem_reverse.mp hentry)
  simpa using hnone entry.1 hmem

end ReorgWindow

/-! ## The window over one chain -/

/-- The headers of a chain, numbered from zero on, each the parent of the
next. -/
structure HeaderChain where
  header : ℕ → BlockHeader
  number_header : ∀ n, (header n).number = UInt64.ofNat n
  parentHash_header : ∀ n, (header (n + 1)).parentHash = (header n).hash

namespace HeaderChain

variable (chain : HeaderChain)

def span (oldest count : ℕ) : List BlockHeader := (List.range' oldest count).map chain.header

@[simp] theorem span_length (oldest count : ℕ) : (chain.span oldest count).length = count := by
  simp [span]

theorem span_concat (oldest count : ℕ) :
    chain.span oldest (count + 1) = chain.span oldest count ++ [chain.header (oldest + count)] := by
  simp [span, List.range'_concat]

theorem span_cons (oldest count : ℕ) :
    chain.span oldest (count + 1) = chain.header oldest :: chain.span (oldest + 1) count := by
  simp [span, List.range'_succ]

/-- The window holds the headers of the chain up to the newest one. -/
def Tracks (window : ReorgWindow) (newest : ℕ) : Prop := ∃ oldest count, newest = oldest + count ∧
    window.buffer = chain.span oldest (count + 1)

variable {chain} {window : ReorgWindow} {newest : ℕ} {incoming : BlockHeader} {n oldest count : ℕ}

theorem tracks_seed (window : ReorgWindow) (newest : ℕ) :
    chain.Tracks (window.seed [chain.header newest]) newest := by
  refine ⟨newest, 0, rfl, ?_⟩
  have hempty : ¬0 = window.capacity := window.capacity_pos.ne
  simp [ReorgWindow.seed, ReorgWindow.push, hempty, span]

theorem isParent_header {m : ℕ} (hn : n < 2 ^ 64) (hm : m < 2 ^ 64) (hpos : 0 < n)
    (hnumber : incoming.number = UInt64.ofNat n)
    (hparent : ReorgWindow.IsParent incoming (chain.header m)) :
    n = m + 1 ∧ incoming.parentHash = (chain.header m).hash := by
  obtain ⟨hhash, hnext⟩ := hparent
  rw [chain.number_header, hnumber] at hnext
  have hnat := congrArg UInt64.toNat hnext
  rw [UInt64.toNat_add, UInt64.toNat_ofNat_of_lt' hm,
    UInt64.toNat_ofNat_of_lt' hn, UInt64.toNat_one] at hnat
  exact ⟨by omega, hhash.symm⟩

theorem mem_span {header : BlockHeader} :
    header ∈ chain.span oldest count ↔
      ∃ n, oldest ≤ n ∧ n < oldest + count ∧ chain.header n = header := by
  simp [span, and_assoc]

theorem Tracks.getLast? (htracks : chain.Tracks window newest) :
    window.buffer.getLast? = some (chain.header newest) := by
  obtain ⟨oldest, count, rfl, hbuffer⟩ := htracks
  rw [hbuffer, span_concat, List.getLast?_concat]

theorem Tracks.ne_nil (htracks : chain.Tracks window newest) : window.buffer ≠ [] := by
  intro hempty
  have hlast := htracks.getLast?
  rw [hempty] at hlast
  cases hlast

section Advance

variable {oldest count : ℕ}

theorem advance_span {incoming : BlockHeader}
    (hbuffer : window.buffer = chain.span oldest (count + 1)) :
    window.advance incoming =
      if incoming.number ≤ UInt64.ofNat oldest then
        .error (.deepReorg incoming.number (UInt64.ofNat oldest))
      else if incoming.number = UInt64.ofNat (oldest + count) + 1 ∧
          incoming.parentHash = (chain.header (oldest + count)).hash then
        .ok (.advanced, window.push incoming)
      else if incoming.number ≤ UInt64.ofNat (oldest + count) then
        window.walkBack incoming
      else if UInt64.ofNat (oldest + count) + 1 < incoming.number then
        .error (.nonMonotone incoming.number (UInt64.ofNat (oldest + count)))
      else window.walkBack incoming := by
  have hlast : window.buffer.getLast? = some (chain.header (oldest + count)) := by
    rw [hbuffer, span_concat, List.getLast?_concat]
  have hhead : window.buffer.head? = some (chain.header oldest) := by
    rw [hbuffer, span_cons, List.head?_cons]
  rw [ReorgWindow.advance, hlast]
  simp only [hhead, Option.elim_some, chain.number_header]

theorem push_span (hbuffer : window.buffer = chain.span oldest (count + 1)) :
    chain.Tracks (window.push (chain.header (oldest + count + 1))) (oldest + count + 1) := by
  by_cases hfull : window.buffer.length = window.capacity
  · refine ⟨oldest + 1, count, by omega, ?_⟩
    rw [ReorgWindow.push, if_pos hfull, hbuffer, span_cons, tail_cons,
      span_concat, Nat.add_right_comm]
  · refine ⟨oldest, count + 1, by omega, ?_⟩
    rw [ReorgWindow.push, if_neg hfull, hbuffer, span_concat _ _ (count + 1), Nat.add_assoc]

end Advance

theorem Tracks.advance_next (htracks : chain.Tracks window newest) (hbound : newest + 1 < 2 ^ 64) :
    window.advance (chain.header (newest + 1)) =
        .ok (.advanced, window.push (chain.header (newest + 1))) ∧
      chain.Tracks (window.push (chain.header (newest + 1))) (newest + 1) := by
  obtain ⟨oldest, count, rfl, hbuffer⟩ := htracks
  refine ⟨?_, push_span hbuffer⟩
  have hfloor : ¬UInt64.ofNat (oldest + count + 1) ≤ UInt64.ofNat oldest := by
    rw [UInt64.ofNat_le_iff_le hbound (show oldest < 2 ^ 64 by omega)]
    omega
  rw [advance_span hbuffer, chain.number_header, if_neg hfloor,
    if_pos ⟨UInt64.ofNat_add _ 1, chain.parentHash_header _⟩]

theorem Tracks.advance_foreign (htracks : chain.Tracks window newest) (hbound : newest < 2 ^ 64)
    (hn : n + 1 < 2 ^ 64) (hnumber : incoming.number = UInt64.ofNat (n + 1))
    (hparent : incoming.parentHash ≠ (chain.header n).hash) :
    ∃ error, window.advance incoming = .error error := by
  obtain ⟨oldest, count, rfl, hbuffer⟩ := htracks
  have hforeign : ∀ m < 2 ^ 64, ¬ReorgWindow.IsParent incoming (chain.header m) := by
    intro m hm hfound
    obtain ⟨hsame, hhash⟩ := isParent_header hn hm (Nat.succ_pos n) hnumber hfound
    rw [← Nat.succ.inj hsame] at hhash
    exact hparent hhash
  have hnone : window.foundAt incoming = none := by
    apply ReorgWindow.foundAt_eq_none
    rw [hbuffer]
    intro header hheader
    obtain ⟨m, _, hm, rfl⟩ := chain.mem_span.mp hheader
    exact hforeign m (by omega)
  have hnext : ¬(incoming.number = UInt64.ofNat (oldest + count) + 1 ∧
      incoming.parentHash = (chain.header (oldest + count)).hash) := fun h => hforeign _ hbound
      ⟨h.2.symm, (congrArg (· + 1) (chain.number_header _)).trans h.1.symm⟩
  rw [advance_span hbuffer, if_neg hnext]
  simp only [ReorgWindow.walkBack, hnone]
  split_ifs <;> exact ⟨_, rfl⟩

theorem advance_again (hbuffer : window.buffer = chain.span oldest (count + 2))
    (hbound : oldest + count + 1 < 2 ^ 64) :
    ∃ outcome, window.advance (chain.header (oldest + count + 1)) = .ok (outcome, window) := by
  have hspan : window.buffer = (chain.span oldest count ++
      [chain.header (oldest + count)]) ++ [chain.header (oldest + count + 1)] := by
    rw [hbuffer, span_concat, span_concat, Nat.add_assoc]
  have hfloor : ¬UInt64.ofNat (oldest + count + 1) ≤ UInt64.ofNat oldest := by
    rw [UInt64.ofNat_le_iff_le hbound (show oldest < 2 ^ 64 by omega)]
    omega
  have hself : ¬ReorgWindow.IsParent (chain.header (oldest + count + 1))
      (chain.header (oldest + count + 1)) := by
    intro hparent
    have hnext := isParent_header hbound hbound (by omega) (chain.number_header _) hparent
    omega
  have hnext : ¬((chain.header (oldest + count + 1)).number =
      UInt64.ofNat (oldest + (count + 1)) + 1 ∧
      (chain.header (oldest + count + 1)).parentHash =
        (chain.header (oldest + (count + 1))).hash) := by
    rintro ⟨hnumber, hhash⟩
    exact hself ⟨hhash.symm, (congrArg (· + 1) (chain.number_header _)).trans hnumber.symm⟩
  have hparent : ReorgWindow.IsParent (chain.header (oldest + count + 1))
      (chain.header (oldest + count)) := by
    refine ⟨(chain.parentHash_header _).symm, ?_⟩
    rw [chain.number_header, chain.number_header, UInt64.ofNat_add _ 1]
    rfl
  have hfound : window.foundAt (chain.header (oldest + count + 1)) = some count := by
    have hat := @ReorgWindow.foundAt_of_parent window _ _
      (chain.span oldest count) [chain.header (oldest + count + 1)]
      (by rw [hspan, append_assoc]; rfl) hparent (by simpa using hself)
    rwa [span_length] at hat
  have hkept : window.buffer.take (count + 1) ++
      [chain.header (oldest + count + 1)] = window.buffer := by
    rw [hspan, take_left' (by simp)]
  have hheight : (chain.header (oldest + count + 1)).number ≤
      UInt64.ofNat (oldest + (count + 1)) := by
    rw [chain.number_header]
    exact UInt64.le_refl _
  rw [@advance_span chain window oldest (count + 1) _ hbuffer,
    if_neg (by rwa [chain.number_header]), if_neg hnext, if_pos hheight,
    ReorgWindow.walkBack, hfound]
  simp only [hkept]
  exact ⟨_, rfl⟩

theorem advance_alone (hbuffer : window.buffer = [chain.header newest]) :
    window.advance (chain.header newest) =
      .error (.deepReorg (UInt64.ofNat newest) (UInt64.ofNat newest)) := by
  have hspan : window.buffer = chain.span newest (0 + 1) := by
    rw [hbuffer, span_concat]
    rfl
  rw [advance_span hspan, chain.number_header, if_pos (UInt64.le_refl _)]

end HeaderChain

end Ingest
end Canon
