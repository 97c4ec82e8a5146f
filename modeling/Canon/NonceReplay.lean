import Canon.DisputeVerifier

/-!
# Nonces replayed from a log prefix

The ledger side expects of a signer the number of the signer's earlier entries.  The
contract expects what comes after the nonce in the last of them.
-/

namespace Canon
namespace Dispute

open Cbe List

def encodePrefix (entries : List LogEntry) : Bytes :=
  encodeHead tagArray (UInt64.ofNat entries.length) ++ entries.flatMap LogEntry.encode

/-- The verdict on the entry at the index, with what is expected of a signer after the
entries in front. -/
def nonceVerdict (expects : List LogEntry → UInt64 → ℕ) (entries : List LogEntry)
    (index : ℕ) : Verdict :=
  match entries[index]? with
  | none => .inconclusive
  | some entry =>
    if entry.nonce.toNat = expects (entries.take index) entry.signer then .rejected else .upheld

/-- `advanceNonce` of the ledger side, once for each entry. -/
def expectsNonce (entries : List LogEntry) (signer : UInt64) : ℕ :=
  entries.countP (·.signer = signer)

def lastOf (entries : List LogEntry) (signer : UInt64) : Option LogEntry :=
  (entries.filter (·.signer = signer)).getLast?

def followsRecorded (entries : List LogEntry) (signer : UInt64) : ℕ :=
  ((lastOf entries signer).map fun entry => entry.nonce.toNat + 1).getD 0

section Replay

variable {blob : Bytes} {impugnedLogIndex : UInt64}

theorem lookup_setExpectedNonce (expected : List (UInt64 × UInt64)) (signer nonce other : UInt64) :
    (setExpectedNonce expected signer nonce).lookup other =
      if other = signer then some nonce else expected.lookup other := by
  unfold setExpectedNonce
  split
  · rename_i hknown
    obtain ⟨old, hold⟩ := Option.isSome_iff_exists.mp hknown
    have hmap : (expected.map fun slot => if slot.1 = signer then (signer, nonce) else slot).lookup
        other = if other = signer then (expected.lookup signer).map fun _ => nonce
          else expected.lookup other := by
      clear hknown hold
      induction expected with
      | nil => simp
      | cons slot rest ih => grind
    rw [hmap, hold]
    rfl
  · rename_i hknown
    have hnone := Option.not_isSome_iff_eq_none.mp hknown
    grind

theorem replayNonces_eq (rest : List LogEntry) (done : List LogEntry) (offset : ℕ)
    (expected : List (UInt64 × UInt64)) (hblob : blob.drop offset = rest.flatMap LogEntry.encode)
    (hsigs : ∀ entry ∈ rest, entry.sig.length < 2 ^ 64)
    (hlength : done.length + rest.length ≤ 256) (hindex : done.length ≤ impugnedLogIndex.toNat)
    (hexpected : ∀ signer,
      ((expected.lookup signer).getD 0).toNat = followsRecorded done signer) :
    replayNonces blob impugnedLogIndex rest.length (UInt64.ofNat done.length) offset expected =
      if ∀ entry ∈ rest.take (impugnedLogIndex.toNat - done.length), entry.nonce.toNat + 1 < 2 ^ 64
      then .ok (nonceVerdict followsRecorded (done ++ rest) impugnedLogIndex.toNat)
      else .error .arithmeticPanic := by
  induction rest generalizing done offset expected with
  | nil =>
    have hnone : done[impugnedLogIndex.toNat]? = none := List.getElem?_eq_none hindex
    simp [replayNonces, nonceVerdict, hnone]
  | cons entry rest ih =>
    rw [length_cons] at hlength ⊢
    have hrest := drop_of_drop_eq_append hblob
    have hnat : (UInt64.ofNat done.length).toNat = done.length :=
      UInt64.toNat_ofNat_of_lt' (show done.length < 2 ^ 64 by omega)
    simp only [replayNonces, readLogEntry_of_drop (hsigs entry mem_cons_self) hblob,
      Except.mapError, ok_bind]
    by_cases hhere : UInt64.ofNat done.length = impugnedLogIndex
    · rw [hhere] at hnat
      rw [if_pos hhere, hnat, Nat.sub_self]
      have hsame := hexpected entry.signer
      by_cases hnonce : entry.nonce = (expected.lookup entry.signer).getD 0
      · simp [nonceVerdict, ← hsame, ← hnonce, pure, Except.pure]
      · have hne : entry.nonce.toNat ≠ followsRecorded done entry.signer :=
          fun heq => hnonce (UInt64.toNat_inj.mp (heq.trans hsame.symm))
        simp [nonceVerdict, hne, hnonce, pure, Except.pure]
    · have hlt : done.length < impugnedLogIndex.toNat := by
        refine lt_of_le_of_ne hindex fun heq => hhere ?_
        rw [heq, UInt64.ofNat_toNat]
      have htake : (entry :: rest).take (impugnedLogIndex.toNat - done.length) =
          entry :: rest.take (impugnedLogIndex.toNat - (done ++ [entry]).length) := by
        rw [length_append, length_singleton, ← Nat.sub_sub,
          ← take_succ_cons, Nat.sub_add_cancel (by omega)]
      rw [if_neg hhere, htake]
      by_cases hmax : entry.nonce.toNat + 1 < 2 ^ 64
      · have hnonce : (entry.nonce + 1).toNat = entry.nonce.toNat + 1 := by
          exact Nat.mod_eq_of_lt hmax
        have hadd : checkedAdd64 VerifierError.arithmeticPanic entry.nonce 1 =
            .ok (entry.nonce + 1) := if_pos hmax
        have hsucc : UInt64.ofNat done.length + 1 = UInt64.ofNat (done ++ [entry]).length := by
          rw [length_append, length_singleton, UInt64.ofNat_add]
          rfl
        rw [hadd, ok_bind, hsucc, ih (done ++ [entry]) _ _ hrest
          (fun other hother => hsigs other (mem_cons_of_mem _ hother))
          (by rw [length_append, length_singleton]; omega)
          (by rw [length_append, length_singleton]; omega)]
        · simp only [forall_mem_cons, hmax, true_and, append_assoc, singleton_append]
        · intro signer
          rw [lookup_setExpectedNonce]
          by_cases hsigner : signer = entry.signer
          · simp [hsigner, followsRecorded, lastOf, hnonce]
          · have hne : entry.signer ≠ signer := Ne.symm hsigner
            have hsame := hexpected signer
            simpa [hsigner, followsRecorded, lastOf, hne] using hsame
      · have hpanic : checkedAdd64 VerifierError.arithmeticPanic entry.nonce 1 =
            .error .arithmeticPanic := if_neg hmax
        rw [hpanic, if_neg fun hall => hmax (hall entry mem_cons_self)]
        rfl

end Replay

/-- The contract agrees with the count of the earlier entries exactly when none of the
entries it replays has the largest nonce, and the last earlier entry of the impugned signer
has the nonce which the count gives, or the impugned nonce follows neither. -/
theorem checkNonceMismatch_counts_iff {entries : List LogEntry} (hlength : entries.length ≤ 256)
    (hsigs : ∀ entry ∈ entries, entry.sig.length < 2 ^ 64) (impugnedLogIndex : UInt64) :
    checkNonceMismatch impugnedLogIndex (encodePrefix entries) =
        .ok (nonceVerdict expectsNonce entries impugnedLogIndex.toNat) ↔
      (∀ entry ∈ entries.take impugnedLogIndex.toNat, entry.nonce.toNat + 1 < 2 ^ 64) ∧
      ∀ entry, entries[impugnedLogIndex.toNat]? = some entry →
        ∀ last, lastOf (entries.take impugnedLogIndex.toNat) entry.signer = some last →
        last.nonce.toNat + 1 = expectsNonce (entries.take impugnedLogIndex.toNat) entry.signer ∨
        entry.nonce.toNat ≠ last.nonce.toNat + 1 ∧ entry.nonce.toNat ≠
            expectsNonce (entries.take impugnedLogIndex.toNat) entry.signer := by
  have hnat : (UInt64.ofNat entries.length).toNat = entries.length :=
    UInt64.toNat_ofNat_of_lt' (show entries.length < 2 ^ 64 by omega)
  have hread : readArrayHead (encodePrefix entries) 0 =
      .ok (UInt64.ofNat entries.length, 0 + 9) := by
    rw [readArrayHead_eq_ok]
    exact ⟨by simp [encodePrefix, encodeHead], rfl⟩
  have hbound : ¬maxPrefixLen < UInt64.ofNat entries.length := by
    rw [UInt64.lt_iff_toNat_lt, hnat]
    exact Nat.not_lt.mpr hlength
  have hreplay := @replayNonces_eq (encodePrefix entries) impugnedLogIndex entries [] 9 []
    (by simp [encodePrefix, encodeHead]) hsigs (by simpa using hlength) (Nat.zero_le _)
    (fun _ => rfl)
  have hcheck : checkNonceMismatch impugnedLogIndex (encodePrefix entries) =
      replayNonces (encodePrefix entries) impugnedLogIndex entries.length
        (UInt64.ofNat ([] : List LogEntry).length) 9 [] := by
    simp only [checkNonceMismatch, hread, Except.mapError, ok_bind, revertIf_of_not hbound, hnat]
    rfl
  rw [hcheck, hreplay, length_nil, Nat.sub_zero, nil_append]
  by_cases hmax : ∀ entry ∈ entries.take impugnedLogIndex.toNat, entry.nonce.toNat + 1 < 2 ^ 64
  · rw [if_pos hmax, Except.ok.injEq, and_iff_right hmax]
    unfold nonceVerdict
    cases hentry : entries[impugnedLogIndex.toNat]? with
    | none => simp
    | some entry =>
      simp only [Option.some.injEq, forall_eq']
      unfold followsRecorded
      cases hlast : lastOf (entries.take impugnedLogIndex.toNat) entry.signer with
      | none =>
        have hzero : expectsNonce (entries.take impugnedLogIndex.toNat) entry.signer = 0 := by
          rw [expectsNonce, countP_eq_length_filter, List.getLast?_eq_none_iff.mp hlast, length_nil]
        simp [hzero]
      | some last =>
        split_ifs <;> simp_all
        omega
  · rw [if_neg hmax]
    exact iff_of_false (by rintro ⟨⟩) fun hcondition => hmax hcondition.1

/-- Entries of signer 1 with the given nonces. -/
def entriesOf (nonces : List UInt64) : List LogEntry :=
  nonces.map fun nonce => ⟨.zero, .zero, 1, nonce, []⟩

theorem checkNonceMismatch_counts_two :
    checkNonceMismatch 1 (encodePrefix (entriesOf [0, 1])) =
      .ok (nonceVerdict expectsNonce (entriesOf [0, 1]) 1) :=
  (checkNonceMismatch_counts_iff (by decide) (by decide) 1).mpr (by decide)

/-- The first entry has nonce 5 instead of 0, and nonce 6 in the second one is accepted;
behind the largest nonce the check reverts. -/
theorem checkNonceMismatch_follows_gap :
    checkNonceMismatch 1 (encodePrefix (entriesOf [5, 6])) = .ok .rejected ∧
      nonceVerdict expectsNonce (entriesOf [5, 6]) 1 = .upheld ∧
      checkNonceMismatch 1 (encodePrefix (entriesOf [18446744073709551615, 1])) =
        .error .arithmeticPanic := by
  decide +kernel

end Dispute
end Canon
