import Canon.IngestChain

/-!
# What the ingestor has done so far

At every time the ingestor has dealt with a list of events.  The records restore the
state which belongs to this list, and the accepted actions are those which its account
asks for.
-/

namespace Canon
namespace Ingest

open List

abbrev KeyedEvents := List (ForwardedKey × IngestedEvent)

def accountOfKeyed (events : KeyedEvents) : Account := accountOf (events.map Prod.snd)

theorem accountOfKeyed_concat (events : KeyedEvents) (entry : ForwardedKey × IngestedEvent) :
    accountOfKeyed (events ++ [entry]) = (accountOfKeyed events).add entry.2 := by
  rw [accountOfKeyed, map_append]
  exact accountOf_concat _ _

def registrations (events : KeyedEvents) : KeyedEvents :=
  events.filter fun entry => entry.2.registration.isSome

structure Ingested (config : WatcherConfig) (key : BridgeActorKey)
    (done : KeyedEvents) (state : WatcherState) (file : List StateRecord)
    (submissions : List Submission) : Prop where
  restores : Restores file (accountOfKeyed done).known state
  distinct : (done.map Prod.fst).Nodup
  forwarded : state.forwarded = (done.map Prod.fst).toFinset
  nonce : state.nextNonce = BitVec.ofNat 128 (accountOfKeyed done).actions.length
  bound : (accountOfKeyed done).actions.length ≤ 2 ^ 64
  accepted : (acceptedOf submissions).map (fun entry => entry.signed.unsigned) =
    (accountOfKeyed done).unsigned
  origins : (acceptedOf submissions).map (fun entry => entry.origin) =
    (registrations done).map Prod.fst
  signed : ∀ entry ∈ acceptedOf submissions,
    sign config key entry.signed.unsigned = .ok entry.signed

/-! ## Signatures and nonces -/

theorem of_sign_ok {config : WatcherConfig} {key : BridgeActorKey}
    {unsigned : UnsignedAction} {signed : SignedActionForSubmit}
    (hsign : sign config key unsigned = .ok signed) :
    signed.unsigned = unsigned ∧ unsigned.nonce.toNat < 2 ^ 64 := by
  simp only [sign, bind_eq_ok, mapError_eq_ok, pure_eq_ok] at hsign
  obtain ⟨bytes, hbytes, signature, _, rfl⟩ := hsign
  refine ⟨rfl, ?_⟩
  simp only [signingInput, bind_eq_ok] at hbytes
  obtain ⟨_, _, _, _, _, _, last, hlast, _⟩ := hbytes
  have hencode : WireField.encode (.u128 unsigned.nonce) = .ok last := hlast
  exact (WireField.encode_eq_ok.mp hencode).1

theorem saturatingSucc_ofNat {n : ℕ} (hn : n ≤ 2 ^ 64) :
    saturatingSucc (BitVec.ofNat 128 n) = BitVec.ofNat 128 (n + 1) := by
  have hne : BitVec.ofNat 128 n ≠ BitVec.allOnes 128 := by
    intro heq
    have hnat := congrArg BitVec.toNat heq
    rw [BitVec.toNat_ofNat, BitVec.toNat_allOnes] at hnat
    omega
  rw [saturatingSucc, if_neg hne]
  exact (BitVec.ofNat_add n 1).symm

theorem ofNat_lt_saturatingSucc {n : ℕ} (hn : n ≤ 2 ^ 64) :
    BitVec.ofNat 128 n < saturatingSucc (BitVec.ofNat 128 n) := by
  rw [saturatingSucc_ofNat hn, BitVec.lt_def, BitVec.toNat_ofNat, BitVec.toNat_ofNat]
  omega

namespace Ingested

variable {config : WatcherConfig} {key : BridgeActorKey}
  {done : KeyedEvents} {state : WatcherState} {file : List StateRecord}
  {submissions later : List Submission} {entry : ForwardedKey × IngestedEvent}

theorem of_acceptedOf_eq (hingested : Ingested config key done state file submissions)
    (heq : acceptedOf later = acceptedOf submissions) :
    Ingested config key done state file later where
  restores := hingested.restores
  distinct := hingested.distinct
  forwarded := hingested.forwarded
  nonce := hingested.nonce
  bound := hingested.bound
  accepted := heq ▸ hingested.accepted
  origins := heq ▸ hingested.origins
  signed := heq ▸ hingested.signed

theorem start : Ingested config key [] .default [] [] where
  restores := .start
  distinct := nodup_nil
  forwarded := rfl
  nonce := rfl
  bound := Nat.zero_le _
  accepted := rfl
  origins := rfl
  signed := forall_mem_nil _

theorem forwarded_concat (hingested : Ingested config key done state file submissions) :
    insert entry.1 state.forwarded = ((done ++ [entry]).map Prod.fst).toFinset := by
  rw [hingested.forwarded, map_append, toFinset_append]
  ext origin
  simp

theorem distinct_concat (hingested : Ingested config key done state file submissions)
    (hfresh : entry.1 ∉ done.map Prod.fst) : ((done ++ [entry]).map Prod.fst).Nodup := by
  rw [map_append, map_singleton, nodup_append]
  refine ⟨hingested.distinct, nodup_singleton _, ?_⟩
  intro origin horigin other hother heq
  rw [heq, mem_singleton.mp hother] at horigin
  exact hfresh horigin

theorem registrations_concat_none (hnone : entry.2.registration = none) :
    registrations (done ++ [entry]) = registrations done := by
  simp [registrations, hnone]

theorem registrations_concat (hsome : entry.2.registration.isSome) :
    registrations (done ++ [entry]) = registrations done ++ [entry] := by
  simp [registrations, hsome]

theorem nonce_eq (hingested : Ingested config key done state file submissions) :
    state.nextNonce = BitVec.ofNat 128 (acceptedOf submissions).length := by
  have hcount := congrArg List.length hingested.accepted
  rw [length_map, Account.length_unsigned] at hcount
  rw [hingested.nonce, hcount]

theorem note (hingested : Ingested config key done state file submissions)
    (hnone : entry.2.registration = none) (hfresh : entry.1 ∉ done.map Prod.fst)
    (heq : acceptedOf later = acceptedOf submissions) :
    Ingested config key (done ++ [entry]) { state with forwarded := insert entry.1 state.forwarded }
      (file ++ [forwardedRecord entry.1]) later := by
  have haccount : accountOfKeyed (done ++ [entry]) = accountOfKeyed done := by
    rw [accountOfKeyed_concat, Account.add_of_none hnone]
  have hlater := hingested.of_acceptedOf_eq heq
  constructor
  case restores =>
    rw [haccount]
    exact hingested.restores.forwarded entry.1
  case distinct => exact hingested.distinct_concat hfresh
  case forwarded => exact hingested.forwarded_concat
  case nonce => rw [haccount]; exact hingested.nonce
  case bound => rw [haccount]; exact hingested.bound
  case accepted => rw [haccount]; exact hlater.accepted
  case origins =>
    rw [registrations_concat_none hnone]
    exact hlater.origins
  case signed => exact hlater.signed

theorem submit (hingested : Ingested config key done state file submissions)
    {known : List Address} {action : Action} {signed : SignedActionForSubmit}
    {record : StateRecord} {book : AddressBook} (hsome : entry.2.registration.isSome)
    (haccount : (accountOfKeyed done).add entry.2 =
      ⟨known, (accountOfKeyed done).actions ++ [action]⟩)
    (hsign : sign config key ⟨action, bridgeActorId, state.nextNonce⟩ = .ok signed)
    (hrestores : Restores (file ++ [record]) known
      { state with
        forwarded := insert entry.1 state.forwarded
        nextNonce := saturatingSucc state.nextNonce
        addressBook := book })
    (hfresh : entry.1 ∉ done.map Prod.fst)
    (haccepted : acceptedOf later = acceptedOf submissions ++ [⟨entry.1, signed, .ok .ok⟩]) :
    Ingested config key (done ++ [entry])
      { state with
        forwarded := insert entry.1 state.forwarded
        nextNonce := saturatingSucc state.nextNonce
        addressBook := book }
      (file ++ [record]) later := by
  have hnew : accountOfKeyed (done ++ [entry]) =
      ⟨known, (accountOfKeyed done).actions ++ [action]⟩ := by
    rw [accountOfKeyed_concat, haccount]
  obtain ⟨hunsigned, hnonce⟩ := of_sign_ok hsign
  have hcount : (accountOfKeyed done).actions.length < 2 ^ 64 := by
    have hbound := hingested.bound
    simp only [hingested.nonce, BitVec.toNat_ofNat] at hnonce
    omega
  constructor
  case restores => rw [hnew]; exact hrestores
  case distinct => exact hingested.distinct_concat hfresh
  case forwarded => exact hingested.forwarded_concat
  case nonce =>
    rw [hnew, hingested.nonce, saturatingSucc_ofNat hcount.le, length_append]
    rfl
  case bound =>
    rw [hnew, length_append]
    exact hcount
  case accepted =>
    rw [hnew, haccepted, map_append, hingested.accepted, Account.unsigned,
      Account.unsigned, mapIdx_concat, ← hingested.nonce]
    simp [hunsigned]
  case origins =>
    rw [registrations_concat hsome, haccepted, map_append, hingested.origins, map_append]
    rfl
  case signed =>
    rw [haccepted]
    intro later hmem
    rcases mem_append.mp hmem with hold | hnew
    · exact hingested.signed later hold
    · rw [mem_singleton.mp hnew]
      simp only [hunsigned]
      exact hsign

theorem nonce_lt (hingested : Ingested config key done state file submissions) :
    state.nextNonce < saturatingSucc state.nextNonce := by
  rw [hingested.nonce]
  exact ofNat_lt_saturatingSucc hingested.bound

section Registrations

variable {address : Address} {pk : Bytes} {signed : SignedActionForSubmit}

theorem replace (hingested : Ingested config key done state file submissions)
    (hevent : entry.2.registration = some (address, pk))
    (hmem : address ∈ (accountOfKeyed done).known)
    (hsign : sign config key ⟨.replaceKey (UInt64.ofNat
      ((accountOfKeyed done).known.idxOf address + 1)) pk, bridgeActorId,
        state.nextNonce⟩ = .ok signed) (hfresh : entry.1 ∉ done.map Prod.fst)
    (haccepted : acceptedOf later = acceptedOf submissions ++ [⟨entry.1, signed, .ok .ok⟩]) :
    Ingested config key (done ++ [entry])
      { state with
        forwarded := insert entry.1 state.forwarded
        nextNonce := saturatingSucc state.nextNonce
        addressBook := state.addressBook }
      (file ++ [submittedRecord entry.1 (saturatingSucc state.nextNonce) none])
      later :=
  hingested.submit (by rw [hevent]; rfl) (Account.add_of_mem hevent hmem) hsign
    (hingested.restores.replaced entry.1 hingested.nonce_lt) hfresh haccepted

theorem register (hingested : Ingested config key done state file submissions)
    (hevent : entry.2.registration = some (address, pk))
    (hmem : address ∉ (accountOfKeyed done).known)
    (hroom : (accountOfKeyed done).known.length + 2 < 2 ^ 64)
    (hsign : sign config key ⟨.registerIdentity (UInt64.ofNat
      ((accountOfKeyed done).known.length + 1)) pk, bridgeActorId, state.nextNonce⟩ = .ok signed)
    (hfresh : entry.1 ∉ done.map Prod.fst)
    (haccepted : acceptedOf later = acceptedOf submissions ++ [⟨entry.1, signed, .ok .ok⟩]) :
    Ingested config key (done ++ [entry])
      { state with
        forwarded := insert entry.1 state.forwarded
        nextNonce := saturatingSucc state.nextNonce
        addressBook := bookOf ((accountOfKeyed done).known ++ [address]) }
      (file ++ [submittedRecord entry.1 (saturatingSucc state.nextNonce)
        (some (address, UInt64.ofNat ((accountOfKeyed done).known.length + 1)))])
      later :=
  hingested.submit (by rw [hevent]; rfl) (Account.add_of_notMem hevent hmem)
    hsign (hingested.restores.registered entry.1 hingested.nonce_lt hmem hroom) hfresh haccepted

end Registrations

theorem confirm (hingested : Ingested config key done state file submissions)
    (blockNumber : UInt64) :
    Ingested config key done { state with lastConfirmedBlock := some blockNumber }
      (file ++ [.confirmed blockNumber]) submissions where
  restores := hingested.restores.confirmed blockNumber
  distinct := hingested.distinct
  forwarded := hingested.forwarded
  nonce := hingested.nonce
  bound := hingested.bound
  accepted := hingested.accepted
  origins := hingested.origins
  signed := hingested.signed

end Ingested

end Ingest
end Canon
