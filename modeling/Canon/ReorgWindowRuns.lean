import Canon.ReorgWindow
import Mathlib.Tactic

/-!
# The window under any headers

Nothing is known about the headers which are fed to the window: hashes may repeat and
numbers may go back and forth.
-/

namespace Canon
namespace Ingest

open List

def BlockHeader.Bounded (header : BlockHeader) : Prop := header.number.toNat < 2 ^ 64 - 1

def BlockHeader.Precedes (header next : BlockHeader) : Prop :=
  next.number.toNat = header.number.toNat + 1 ∧ next.parentHash = header.hash

instance (header : BlockHeader) : Decidable header.Bounded := inferInstanceAs (Decidable (_ < _))

instance (header next : BlockHeader) : Decidable (header.Precedes next) :=
  inferInstanceAs (Decidable (_ ∧ _))

namespace ReorgWindow

def offer (window : ReorgWindow) (incoming : BlockHeader) :
    Except ReorgError AdvanceOutcome × ReorgWindow :=
  match window.advance incoming with
  | .error error => (.error error, window)
  | .ok (outcome, next) => (.ok outcome, next)

def offerAll (window : ReorgWindow) (headers : List BlockHeader) : ReorgWindow :=
  headers.foldl (fun window incoming => (window.offer incoming).2) window

/-- The window holds at most its capacity of consecutive headers. -/
structure Linked (window : ReorgWindow) : Prop where
  chain : window.buffer.IsChain BlockHeader.Precedes
  length_le : window.buffer.length ≤ window.capacity
  bounded : ∀ header ∈ window.buffer, header.Bounded

section Linked

variable {window : ReorgWindow} {incoming : BlockHeader} {header oldest newest : BlockHeader}
  {kept dropped : List BlockHeader}

theorem isParent_iff (hbounded : header.Bounded) :
    IsParent incoming header ↔ header.Precedes incoming := by
  have hnext : (header.number + 1).toNat = header.number.toNat + 1 := by
    rw [UInt64.toNat_add, UInt64.toNat_one]
    apply Nat.mod_eq_of_lt
    rw [BlockHeader.Bounded] at hbounded
    omega
  rw [IsParent, BlockHeader.Precedes, ← UInt64.toNat_inj, hnext, and_comm,
    eq_comm, @eq_comm _ incoming.parentHash]

theorem linked_new (capacity : ℕ) (hcapacity : 0 < capacity) : (new capacity hcapacity).Linked :=
  ⟨.nil, Nat.zero_le _, fun _ hmem => absurd hmem not_mem_nil⟩

theorem Linked.increasing (hlinked : window.Linked) : window.buffer.Pairwise fun header later =>
      header.number.toNat < later.number.toNat := by
  have hchain : window.buffer.IsChain fun header later =>
      header.number.toNat < later.number.toNat :=
    hlinked.chain.imp fun _ _ hnext => by rw [hnext.1]; exact Nat.lt_succ_self _
  exact isChain_iff_pairwise.mp hchain

theorem Linked.parent_unique (hlinked : window.Linked) {parent : BlockHeader}
    (hbuffer : window.buffer = kept ++ parent :: dropped) (hparent : parent.Precedes incoming) :
    ∀ header ∈ dropped, ¬IsParent incoming header := by
  intro header hmem hfound
  have hincreasing := hlinked.increasing
  rw [hbuffer, pairwise_append, pairwise_cons] at hincreasing
  have hlater := hincreasing.2.1.1 header hmem
  have hbounded : header.Bounded := hlinked.bounded header (by simp [hbuffer, hmem])
  have hnumber := ((isParent_iff hbounded).mp hfound).1
  rw [hparent.1] at hnumber
  omega

theorem advance_of_ends (hhead : window.buffer.head? = some oldest)
    (hlast : window.buffer.getLast? = some newest) :
    window.advance incoming =
      if incoming.number ≤ oldest.number then
        .error (.deepReorg incoming.number oldest.number)
      else if incoming.number = newest.number + 1 ∧ incoming.parentHash = newest.hash then
        .ok (.advanced, window.push incoming)
      else if incoming.number ≤ newest.number then window.walkBack incoming
      else if newest.number + 1 < incoming.number then
        .error (.nonMonotone incoming.number newest.number)
      else window.walkBack incoming := by
  rw [advance, hlast]
  simp only [hhead, Option.elim_some]

theorem Linked.floor_le (hlinked : window.Linked) (hhead : window.buffer.head? = some oldest)
    (hmem : header ∈ window.buffer) : oldest.number.toNat ≤ header.number.toNat := by
  obtain ⟨rest, hbuffer⟩ := List.head?_eq_some_iff.mp hhead
  have hincreasing := hlinked.increasing
  rw [hbuffer] at hincreasing hmem
  rcases mem_cons.mp hmem with hself | hrest
  · rw [hself]
  · exact ((pairwise_cons.mp hincreasing).1 header hrest).le

theorem Linked.offer_next (hlinked : window.Linked) (hlast : window.buffer.getLast? = some newest)
    (hparent : newest.Precedes incoming) :
    window.offer incoming = (.ok .advanced, window.push incoming) := by
  have hmem := mem_of_getLast? hlast
  have hfound := (isParent_iff (hlinked.bounded newest hmem)).mpr hparent
  obtain ⟨oldest, hhead⟩ : ∃ oldest, window.buffer.head? = some oldest :=
    ⟨_, List.head?_eq_some_head (ne_nil_of_mem hmem)⟩
  have hfloor := hlinked.floor_le hhead hmem
  have habove : ¬incoming.number ≤ oldest.number := by
    rw [UInt64.le_iff_toNat_le, hparent.1]
    omega
  rw [offer, advance_of_ends hhead hlast, if_neg habove, if_pos ⟨hfound.2.symm, hfound.1.symm⟩]

theorem Linked.offer_fork (hlinked : window.Linked) {parent first : BlockHeader}
    (hbuffer : window.buffer = kept ++ parent :: first :: dropped)
    (hparent : parent.Precedes incoming) :
    window.offer incoming =
      (.ok (.reorged (dropped.length + 1) first.number),
        { window with buffer := kept ++ [parent, incoming] }) := by
  have hmem : parent ∈ window.buffer := by simp [hbuffer]
  have hfound := (isParent_iff (hlinked.bounded parent hmem)).mpr hparent
  obtain ⟨oldest, hhead⟩ : ∃ oldest, window.buffer.head? = some oldest :=
    ⟨_, List.head?_eq_some_head (ne_nil_of_mem hmem)⟩
  obtain ⟨newest, hlast⟩ : ∃ newest, window.buffer.getLast? = some newest :=
    ⟨_, List.getLast?_eq_some_getLast (ne_nil_of_mem hmem)⟩
  have hfloor := hlinked.floor_le hhead hmem
  have habove : ¬incoming.number ≤ oldest.number := by
    rw [UInt64.le_iff_toNat_le, hparent.1]
    omega
  have hnewest : newest ∈ first :: dropped := by
    rw [hbuffer, List.getLast?_append_of_ne_nil _ (cons_ne_nil _ _),
      List.getLast?_cons_cons] at hlast
    exact mem_of_getLast? hlast
  have hincreasing := hlinked.increasing
  rw [hbuffer, pairwise_append, pairwise_cons] at hincreasing
  have hlater := hincreasing.2.1.1 newest hnewest
  have hbelow : incoming.number ≤ newest.number := by
    rw [UInt64.le_iff_toNat_le, hparent.1]
    omega
  have hnotNext : ¬(incoming.number = newest.number + 1 ∧ incoming.parentHash = newest.hash) := by
    rintro ⟨hnumber, hhash⟩
    have hbounded := hlinked.bounded newest (mem_of_getLast? hlast)
    have hnext := ((isParent_iff hbounded).mp ⟨hhash.symm, hnumber.symm⟩).1
    rw [hparent.1] at hnext
    omega
  have hat : window.foundAt incoming = some kept.length :=
    foundAt_of_parent hbuffer hfound (hlinked.parent_unique hbuffer hparent)
  have hcount : window.buffer.length - (kept.length + 1) = dropped.length + 1 := by
    rw [hbuffer]
    simp
    omega
  have hfirst : window.buffer[kept.length + 1]? = some first := by
    rw [hbuffer, List.getElem?_append_right (by omega), Nat.add_sub_cancel_left]
    rfl
  have htake : window.buffer.take (kept.length + 1) ++ [incoming] = kept ++ [parent, incoming] := by
    rw [hbuffer, append_cons kept parent, take_left' (by simp), append_assoc]
    rfl
  rw [offer, advance_of_ends hhead hlast, if_neg habove, if_neg hnotNext,
    if_pos hbelow, walkBack, hat]
  simp only [hcount, hfirst, htake, Option.elim_some]

theorem Linked.offer_foreign (hlinked : window.Linked) (hsome : window.buffer ≠ [])
    (hforeign : ∀ header ∈ window.buffer, ¬header.Precedes incoming) :
    ∃ error, window.offer incoming = (.error error, window) := by
  have hnone : window.foundAt incoming = none := by
    apply foundAt_eq_none
    intro header hmem hfound
    exact hforeign header hmem ((isParent_iff (hlinked.bounded header hmem)).mp hfound)
  obtain ⟨oldest, hhead⟩ : ∃ oldest, window.buffer.head? = some oldest :=
    ⟨_, List.head?_eq_some_head hsome⟩
  obtain ⟨newest, hlast⟩ : ∃ newest, window.buffer.getLast? = some newest :=
    ⟨_, List.getLast?_eq_some_getLast hsome⟩
  have hnewest := mem_of_getLast? hlast
  have hnotNext : ¬(incoming.number = newest.number + 1 ∧ incoming.parentHash = newest.hash) := by
    rintro ⟨hnumber, hhash⟩
    exact hforeign newest hnewest
      ((isParent_iff (hlinked.bounded newest hnewest)).mp ⟨hhash.symm, hnumber.symm⟩)
  rw [offer, advance_of_ends hhead hlast, if_neg hnotNext]
  simp only [walkBack, hnone]
  split_ifs <;> exact ⟨_, rfl⟩

theorem offer_empty (hempty : window.buffer = []) :
    window.offer incoming = (.ok .advanced, { window with buffer := [incoming] }) := by
  rw [offer, advance, hempty]
  rfl

end Linked

/-! ## What a call does -/

/-- The ways a call can end.  The header is the first one, goes on top of the newest
one, replaces what is behind its parent, or is refused. -/
inductive OfferEffect (window : ReorgWindow) (incoming : BlockHeader) :
    Except ReorgError AdvanceOutcome → ReorgWindow → Prop
  | first : window.buffer = [] →
      OfferEffect window incoming (.ok .advanced) { window with buffer := [incoming] }
  | next {newest : BlockHeader} : window.buffer.getLast? = some newest → newest.Precedes incoming →
      OfferEffect window incoming (.ok .advanced) (window.push incoming)
  | fork {parent first : BlockHeader} {kept dropped : List BlockHeader} :
      window.buffer = kept ++ parent :: first :: dropped → parent.Precedes incoming →
      OfferEffect window incoming (.ok (.reorged (dropped.length + 1) first.number))
        { window with buffer := kept ++ [parent, incoming] }
  | refused {error : ReorgError} : window.buffer ≠ [] →
      (∀ header ∈ window.buffer, ¬header.Precedes incoming) →
      OfferEffect window incoming (.error error) window

variable {window next : ReorgWindow} {incoming : BlockHeader}
  {result : Except ReorgError AdvanceOutcome}

theorem Linked.offer_effect (hlinked : window.Linked) (incoming : BlockHeader) :
    OfferEffect window incoming (window.offer incoming).1 (window.offer incoming).2 := by
  by_cases hempty : window.buffer = []
  · rw [offer_empty hempty]
    exact .first hempty
  · by_cases hparent : ∃ parent ∈ window.buffer, parent.Precedes incoming
    · obtain ⟨parent, hmem, hprecedes⟩ := hparent
      obtain ⟨kept, behind, hbuffer⟩ := append_of_mem hmem
      cases behind with
      | nil =>
        have hlast : window.buffer.getLast? = some parent := by
          rw [hbuffer, List.getLast?_concat]
        rw [hlinked.offer_next hlast hprecedes]
        exact .next hlast hprecedes
      | cons =>
        rw [hlinked.offer_fork hbuffer hprecedes]
        exact .fork hbuffer hprecedes
    · have hforeign : ∀ header ∈ window.buffer, ¬header.Precedes incoming :=
        fun header hmem hprecedes => hparent ⟨header, hmem, hprecedes⟩
      obtain ⟨error, hoffer⟩ := hlinked.offer_foreign hempty hforeign
      rw [hoffer]
      exact .refused hempty hforeign

theorem OfferEffect.linked (hlinked : window.Linked) (hincoming : incoming.Bounded)
    (heffect : OfferEffect window incoming result next) : next.Linked := by
  cases heffect with
  | first =>
    refine ⟨.singleton _, window.capacity_pos, ?_⟩
    intro header hmem
    rw [mem_singleton.mp hmem]
    exact hincoming
  | @next newest hlast hprecedes =>
    have hkept : ∃ kept, (window.push incoming).buffer = kept ++ [incoming] ∧
        kept.length < window.capacity ∧ kept <:+ window.buffer := by
      have hle := hlinked.length_le
      have hpositive := window.capacity_pos
      by_cases hfull : window.buffer.length = window.capacity
      · refine ⟨window.buffer.tail, ?_, ?_, tail_suffix _⟩
        · rw [push, if_pos hfull]
        · rw [length_tail]
          omega
      · refine ⟨window.buffer, ?_, by omega, suffix_refl _⟩
        rw [push, if_neg hfull]
    obtain ⟨kept, hbuffer, hlength, hsuffix⟩ := hkept
    refine ⟨?_, ?_, ?_⟩
    · rw [hbuffer, isChain_append]
      refine ⟨hlinked.chain.suffix hsuffix, .singleton _, ?_⟩
      intro header hheader last hself
      cases hself
      obtain ⟨front, hfront⟩ := hsuffix
      have hne : kept ≠ [] := by
        intro hnil
        rw [hnil] at hheader
        cases hheader
      rw [← hfront, List.getLast?_append_of_ne_nil _ hne, hheader] at hlast
      cases hlast
      exact hprecedes
    · rw [hbuffer, length_append, length_singleton]
      exact hlength
    · rw [hbuffer]
      intro header hmem
      rcases mem_append.mp hmem with hold | hnew
      · exact hlinked.bounded header (hsuffix.subset hold)
      · rw [mem_singleton.mp hnew]
        exact hincoming
  | @fork parent first kept dropped hbuffer hprecedes =>
    have hchain := hlinked.chain
    have hlength := hlinked.length_le
    rw [hbuffer] at hchain hlength
    rw [append_cons] at hchain
    refine ⟨?_, ?_, ?_⟩
    · rw [append_cons]
      refine isChain_append.mpr ⟨hchain.left_of_append, .singleton _, ?_⟩
      intro header hheader last hself
      cases hself
      rw [List.getLast?_concat] at hheader
      cases hheader
      exact hprecedes
    · simp only [length_append, length_cons, length_nil] at hlength ⊢
      omega
    · intro header hmem
      rw [append_cons] at hmem
      rcases mem_append.mp hmem with hold | hnew
      · apply hlinked.bounded
        rw [hbuffer, append_cons]
        exact mem_append_left _ hold
      · rw [mem_singleton.mp hnew]
        exact hincoming
  | refused => exact hlinked

theorem OfferEffect.capacity_eq (heffect : OfferEffect window incoming result next) :
    next.capacity = window.capacity := by
  cases heffect <;> rfl

theorem linked_offerAll (hlinked : window.Linked) {headers : List BlockHeader}
    (hheaders : ∀ header ∈ headers, header.Bounded) :
    (window.offerAll headers).Linked ∧ (window.offerAll headers).capacity = window.capacity := by
  induction headers generalizing window with
  | nil => exact ⟨hlinked, rfl⟩
  | cons incoming _ ih =>
    have heffect := hlinked.offer_effect incoming
    have hnext := heffect.linked hlinked (hheaders incoming mem_cons_self)
    obtain ⟨hrest, hcapacity⟩ := ih hnext fun header hmem =>
      hheaders header (mem_cons_of_mem _ hmem)
    exact ⟨hrest, hcapacity.trans heffect.capacity_eq⟩

/-- The window over any headers with numbers below 2^64 - 1: it is always linked; an
accepted header which does not extend it replaces what is behind its parent; a header
is accepted exactly when it is above the floor and has its parent in the window; an
error leaves the window alone. -/
theorem window_of_offers (capacity : ℕ) (hcapacity : 0 < capacity)
    {headers : List BlockHeader} (hheaders : ∀ header ∈ headers, header.Bounded)
    {window : ReorgWindow} (hwindow : (new capacity hcapacity).offerAll headers = window) :
    window.buffer.IsChain BlockHeader.Precedes ∧ window.buffer.length ≤ capacity ∧
    ∀ incoming,
      (∀ outcome next, window.offer incoming = (.ok outcome, next) → window.buffer ≠ [] →
        (∀ newest ∈ window.buffer.getLast?, ¬newest.Precedes incoming) →
        ∃ kept parent first dropped, window.buffer = kept ++ parent :: first :: dropped ∧
          parent.Precedes incoming ∧ (∀ header ∈ first :: dropped, ¬header.Precedes incoming) ∧
          next.buffer = kept ++ [parent, incoming] ∧
          outcome = .reorged (first :: dropped).length first.number) ∧
      (∀ oldest ∈ window.buffer.head?, (∃ outcome, (window.offer incoming).1 = .ok outcome) ↔
          oldest.number < incoming.number ∧ ∃ parent ∈ window.buffer, parent.Precedes incoming) ∧
      (∀ error, (window.offer incoming).1 = .error error → (window.offer incoming).2 = window) := by
  obtain ⟨hlinked, hsame⟩ := linked_offerAll (linked_new capacity hcapacity) hheaders
  rw [hwindow] at hlinked hsame
  have hlength : window.buffer.length ≤ capacity := by
    have hle := hlinked.length_le
    rw [hsame] at hle
    exact hle
  refine ⟨hlinked.chain, hlength, ?_⟩
  intro incoming
  have heffect := hlinked.offer_effect incoming
  refine ⟨?_, ?_, ?_⟩
  · intro outcome next hoffer hsome hnotNext
    rw [hoffer] at heffect
    cases heffect with
    | first hempty => exact absurd hempty hsome
    | @next newest hlast hprecedes => exact absurd hprecedes (hnotNext newest hlast)
    | @fork parent first kept dropped hbuffer hprecedes =>
      refine ⟨kept, parent, first, dropped, hbuffer, hprecedes, ?_, rfl, rfl⟩
      intro header hmem hagain
      have hbounded : header.Bounded :=
        hlinked.bounded header (by rw [hbuffer]; simp at hmem ⊢; tauto)
      exact hlinked.parent_unique hbuffer hprecedes header hmem ((isParent_iff hbounded).mpr hagain)
  · intro oldest hhead
    constructor
    · rintro ⟨outcome, hoffer⟩
      have hparent : ∃ parent ∈ window.buffer, parent.Precedes incoming := by
        by_contra hnone
        have hsome : window.buffer ≠ [] := by
          intro hempty
          rw [hempty] at hhead
          cases hhead
        obtain ⟨error, hrefused⟩ := hlinked.offer_foreign hsome
          fun header hmem hprecedes => hnone ⟨header, hmem, hprecedes⟩
        rw [hrefused] at hoffer
        cases hoffer
      obtain ⟨parent, hmem, hprecedes⟩ := hparent
      have hfloor := hlinked.floor_le hhead hmem
      refine ⟨?_, parent, hmem, hprecedes⟩
      rw [UInt64.lt_iff_toNat_lt, hprecedes.1]
      omega
    · rintro ⟨_, parent, hmem, hprecedes⟩
      rcases hoffer : window.offer incoming with ⟨error | outcome, next⟩
      · rw [hoffer] at heffect
        cases heffect with
        | refused _ hforeign => exact absurd hprecedes (hforeign parent hmem)
      · exact ⟨outcome, rfl⟩
  · intro error hresult
    rcases hoffer : window.offer incoming with ⟨result, next⟩
    rw [hoffer] at heffect hresult
    cases hresult
    cases heffect
    rfl

def sampleHeader (number : UInt64) (hash parentHash : UInt8) : BlockHeader :=
  ⟨number, .ofBytes (List.replicate 32 hash), .ofBytes (List.replicate 32 parentHash)⟩

def threeHeaders : List BlockHeader := [sampleHeader 5 1 0, sampleHeader 6 2 1, sampleHeader 7 3 2]

theorem window_of_offers_fork :
    ∃ outcome, (((new 3 (by decide)).offerAll threeHeaders).offer
      (sampleHeader 6 4 1)).1 = .ok outcome := by
  have hheaders : ∀ header ∈ threeHeaders, header.Bounded := by decide
  have hbuffer : ((new 3 (by decide)).offerAll threeHeaders).buffer =
      threeHeaders := by decide
  obtain ⟨_, _, hoffers⟩ := window_of_offers 3 (by decide) hheaders rfl
  obtain ⟨_, haccepted, _⟩ := hoffers (sampleHeader 6 4 1)
  exact (haccepted (sampleHeader 5 1 0) rfl).mpr
    ⟨by decide, sampleHeader 5 1 0, by decide, by decide⟩

end ReorgWindow
end Ingest
end Canon
