import Canon.WatcherEffects

/-!
# The events of a chain and the actions they ask for

A chain of the first layer is a header and a list of logs for each block number.  The
events which concern the ingestor are those of its two contracts, block by block and
in the order of the log indices.
-/

namespace Canon
namespace Ingest

open List

/-! ## Accounts -/

def IngestedEvent.registration : IngestedEvent → Option (Address × Bytes)
  | .registeredEcdsa actor pubkey _ => some (actor, pubkey)
  | .registeredEip1271 actor contractSigner _ =>
    some (actor, beBytes 20 contractSigner.toNat)
  | .revoked .. => none
  | .depositInitiated .. => none

structure Account where
  known : List Address
  actions : List Action

def Account.add (account : Account) (event : IngestedEvent) : Account :=
  match event.registration with
  | none => account
  | some (address, pk) =>
    if address ∈ account.known then
      ⟨account.known, account.actions ++
        [.replaceKey (UInt64.ofNat (account.known.idxOf address + 1)) pk]⟩
    else
      ⟨account.known ++ [address], account.actions ++
        [.registerIdentity (UInt64.ofNat (account.known.length + 1)) pk]⟩

def accountOf (events : List IngestedEvent) : Account := events.foldl Account.add ⟨[], []⟩

def Account.unsigned (account : Account) : List UnsignedAction :=
  account.actions.mapIdx fun i action =>
    ⟨action, bridgeActorId, BitVec.ofNat 128 i⟩

theorem Account.length_unsigned (account : Account) :
    account.unsigned.length = account.actions.length := by
  rw [Account.unsigned, length_mapIdx]

theorem accountOf_concat (events : List IngestedEvent) (event : IngestedEvent) :
    accountOf (events ++ [event]) = (accountOf events).add event := foldl_concat ..

section Accounts

variable {account : Account} {event : IngestedEvent} {address : Address} {pk : Bytes}

theorem Account.add_of_none (hnone : event.registration = none) : account.add event = account := by
  rw [Account.add, hnone]

theorem Account.add_of_mem (hevent : event.registration = some (address, pk))
    (hmem : address ∈ account.known) :
    account.add event = ⟨account.known, account.actions ++
      [.replaceKey (UInt64.ofNat (account.known.idxOf address + 1)) pk]⟩ := by
  simp only [Account.add, hevent, if_pos hmem]

theorem Account.add_of_notMem (hevent : event.registration = some (address, pk))
    (hmem : address ∉ account.known) :
    account.add event = ⟨account.known ++ [address], account.actions ++
      [.registerIdentity (UInt64.ofNat (account.known.length + 1)) pk]⟩ := by
  simp only [Account.add, hevent, if_neg hmem]

/-! ## What the watcher previews -/

theorem previewIngest_of_none (book : AddressBook) (nonce : Nonce)
    (hnone : event.registration = none) : previewIngest book event nonce = .noAction := by
  cases event with
  | registeredEcdsa | registeredEip1271 => cases hnone
  | revoked | depositInitiated => rfl

theorem previewIngest_of_some (book : AddressBook) (nonce : Nonce)
    (hevent : event.registration = some (address, pk)) :
    previewIngest book event nonce = previewRegistration book address pk nonce := by
  cases event with
  | registeredEcdsa | registeredEip1271 =>
    cases hevent
    rfl
  | revoked | depositInitiated => cases hevent

theorem previewIngest_of_mem {addresses : List Address} (nonce : Nonce)
    (hevent : event.registration = some (address, pk)) (hmem : address ∈ addresses) :
    previewIngest (bookOf addresses) event nonce =
      .emit ⟨.replaceKey (UInt64.ofNat (addresses.idxOf address + 1)) pk,
        bridgeActorId, nonce⟩ := by
  rw [previewIngest_of_some _ _ hevent, previewRegistration, lookup_bookOf_of_mem hmem]

theorem previewIngest_of_notMem {addresses : List Address} (nonce : Nonce)
    (hevent : event.registration = some (address, pk)) (hmem : address ∉ addresses) :
    previewIngest (bookOf addresses) event nonce = .emitWithAssignment
        ⟨.registerIdentity (UInt64.ofNat (addresses.length + 1)) pk, bridgeActorId, nonce⟩
        address (UInt64.ofNat (addresses.length + 1)) := by
  rw [previewIngest_of_some _ _ hevent, previewRegistration, lookup_bookOf_of_notMem hmem]
  rfl

end Accounts

theorem known_mono {events later : List IngestedEvent} (hpart : events <+: later) :
    (accountOf events).known <+: (accountOf later).known := by
  obtain ⟨rest, rfl⟩ := hpart
  induction rest using List.reverseRecOn with
  | nil => rw [append_nil]
  | append_singleton _ _ ih =>
    rw [← append_assoc, accountOf_concat]
    refine ih.trans ?_
    unfold Account.add
    split
    · exact prefix_rfl
    · split
      · exact prefix_rfl
      · exact prefix_append _ _

theorem length_known_le (events : List IngestedEvent) :
    (accountOf events).known.length ≤ events.length := by
  induction events using List.reverseRecOn with
  | nil => exact le_rfl
  | append_singleton _ _ ih =>
    rw [accountOf_concat, length_append, length_singleton]
    unfold Account.add
    split
    · exact Nat.le_succ_of_le ih
    · split
      · exact Nat.le_succ_of_le ih
      · rw [length_append]
        exact Nat.succ_le_succ ih

/-! ## Chains -/

structure Chain extends HeaderChain where
  logs : ℕ → List RawLog
  hash_injective : ∀ m n, m < 2 ^ 64 → n < 2 ^ 64 → (header m).hash = (header n).hash → m = n
  logs_sorted : ∀ n, (logs n).Pairwise fun log later =>
    log.origin.logIndex < later.origin.logIndex

def logEvent (log : RawLog) : Option IngestedEvent :=
  match decodeEvent log with
  | .ok event => event
  | .error _ => none

theorem map_some_eq_ok {ε α : Type} {call : Except ε α} {value : α} :
    (some <$> call) = .ok (some value) ↔ call = .ok value := by
  cases call <;> simp [Functor.map, Except.map]

variable {log : RawLog} {event : IngestedEvent}

theorem origin_of_decodeEvent (hdecode : decodeEvent log = .ok (some event)) :
    event.origin = log.origin := by
  unfold decodeEvent at hdecode
  cases htopic : log.topics.head? with
  | none => simp [htopic] at hdecode
  | some topic =>
    simp only [htopic] at hdecode
    cases hvariant : EventTopic.fromHash topic with
    | none => simp [hvariant] at hdecode
    | some variant =>
      cases variant with
      | registeredEcdsa =>
        simp only [hvariant, map_some_eq_ok, decodeRegisteredEcdsa,
          bind_eq_ok, pure_eq_ok] at hdecode
        obtain ⟨_, _, _, _, _, _, rfl⟩ := hdecode
        rfl
      | registeredEip1271 =>
        simp only [hvariant, map_some_eq_ok, decodeRegisteredEip1271,
          bind_eq_ok, pure_eq_ok] at hdecode
        obtain ⟨_, _, _, _, _, _, _, _, rfl⟩ := hdecode
        rfl
      | revoked =>
        simp only [hvariant, map_some_eq_ok, decodeRevoked, bind_eq_ok, pure_eq_ok] at hdecode
        obtain ⟨_, _, _, _, rfl⟩ := hdecode
        rfl
      | depositInitiated =>
        simp only [hvariant, map_some_eq_ok, decodeDepositInitiated,
          bind_eq_ok, pure_eq_ok] at hdecode
        obtain ⟨_, _, _, _, _, _, _, _, _, _, _, _, _, _, _, _, _, _, rfl⟩ := hdecode
        rfl

theorem logEvent_eq_some : logEvent log = some event ↔ decodeEvent log = .ok (some event) := by
  unfold logEvent
  cases decodeEvent log with
  | error | ok => simp

namespace Chain

variable (chain : Chain) (config : WatcherConfig) {count : ℕ}

def hash (n : ℕ) : Bytes32 := (chain.header n).hash

def contractLogs (n : ℕ) : List RawLog :=
  (chain.logs n).filter fun log => log.address = config.bridgeContract ∨
    log.address = config.identityRegistryContract

def keyedEvents (blockHash : Bytes32) (logs : List RawLog) : List (ForwardedKey × IngestedEvent) :=
  (logs.filterMap logEvent).map fun event =>
    (forwardedKey blockHash event, event)

def blockEvents (n : ℕ) : List (ForwardedKey × IngestedEvent) :=
  keyedEvents (chain.hash n) (chain.contractLogs config n)

def stream (count : ℕ) : List (ForwardedKey × IngestedEvent) :=
  (List.range (min count (2 ^ 64))).flatMap (chain.blockEvents config)

theorem keyedEvents_append (blockHash : Bytes32) (front rest : List RawLog) :
    keyedEvents blockHash (front ++ rest) =
      keyedEvents blockHash front ++ keyedEvents blockHash rest := by
  simp [keyedEvents]

theorem stream_succ (hcount : count < 2 ^ 64) :
    chain.stream config (count + 1) =
      chain.stream config count ++ chain.blockEvents config count := by
  rw [stream, stream, Nat.min_eq_left (by omega), Nat.min_eq_left hcount.le,
    range_succ, flatMap_append]
  simp

theorem stream_of_ge (hcount : 2 ^ 64 ≤ count) :
    chain.stream config count = chain.stream config (2 ^ 64) := by
  rw [stream, stream, Nat.min_eq_right hcount, Nat.min_self]

theorem contractLogs_sorted (n : ℕ) : (chain.contractLogs config n).Pairwise fun log later =>
      log.origin.logIndex < later.origin.logIndex :=
  (chain.logs_sorted n).filter _

theorem nodup_keys_blockEvents (n : ℕ) : ((chain.blockEvents config n).map Prod.fst).Nodup := by
  rw [blockEvents, keyedEvents, map_map, List.Nodup, pairwise_map, pairwise_filterMap]
  apply (chain.contractLogs_sorted config n).imp
  intro log later hlt event hevent other hother heq
  have horigin := origin_of_decodeEvent (logEvent_eq_some.mp hevent)
  have hlater := origin_of_decodeEvent (logEvent_eq_some.mp hother)
  have hindex := congrArg ForwardedKey.logIndex heq
  simp only [Function.comp_apply, forwardedKey, horigin, hlater] at hindex
  rw [hindex] at hlt
  exact UInt64.lt_irrefl _ hlt

theorem nodup_keys_stream (count : ℕ) : ((chain.stream config count).map Prod.fst).Nodup := by
  rw [stream, map_flatMap, nodup_flatMap]
  refine ⟨fun n _ => chain.nodup_keys_blockEvents config n, ?_⟩
  apply (nodup_range).imp_of_mem
  intro m n hm hn hne
  rw [mem_range] at hm hn
  intro origin hleft hright
  apply hne
  apply chain.hash_injective m n (by omega) (by omega)
  simp only [blockEvents, keyedEvents, map_map, mem_map] at hleft hright
  obtain ⟨_, _, rfl⟩ := hleft
  obtain ⟨_, _, hsame⟩ := hright
  exact (congrArg ForwardedKey.blockHash hsame).symm

theorem stream_mono {first second : ℕ} (hle : first ≤ second) :
    chain.stream config first <+: chain.stream config second := by
  have hmin : min first (2 ^ 64) ≤ min second (2 ^ 64) := by omega
  rw [stream, stream]
  have hrange : List.range (min first (2 ^ 64)) <+: List.range (min second (2 ^ 64)) := by
    rw [ prefix_iff_eq_take, length_range, take_range, Nat.min_eq_left hmin]
  obtain ⟨rest, hrest⟩ := hrange
  rw [← hrest, flatMap_append]
  exact prefix_append _ _

theorem sortLogs_of_perm {n : ℕ} {logs : List RawLog}
    (hperm : logs.Perm (chain.contractLogs config n)) :
    sortLogs logs = chain.contractLogs config n := by
  have hsorted : (sortLogs logs).Pairwise fun log later =>
      log.origin.logIndex ≤ later.origin.logIndex := by
    have hpairs := @pairwise_mergeSort RawLog
      (fun log other => decide (log.origin.logIndex ≤ other.origin.logIndex))
      (by simpa using fun _ _ _ => UInt64.le_trans)
      (by simpa using fun _ _ => UInt64.le_total _ _) logs
    simpa [sortLogs] using hpairs
  have hlogs := chain.contractLogs_sorted config n
  have hdistinct : (chain.contractLogs config n).Pairwise fun log later =>
      log.origin.logIndex ≠ later.origin.logIndex := hlogs.imp UInt64.ne_of_lt
  have hall : (sortLogs logs).Perm (chain.contractLogs config n) :=
    (mergeSort_perm _ _).trans hperm
  refine hall.eq_of_pairwise ?_ hsorted (hlogs.imp UInt64.le_of_lt)
  intro log other hlog hother hle hge
  by_contra hne
  have hsymm : Std.Symm fun log later : RawLog =>
      log.origin.logIndex ≠ later.origin.logIndex := ⟨fun _ _ h => Ne.symm h⟩
  have hindex := hdistinct.forall (hall.mem_iff.mp hlog) hother hne
  exact hindex (UInt64.le_antisymm hle hge)

theorem contractLogs_perm (n : ℕ) (hne : config.bridgeContract ≠ config.identityRegistryContract) :
    ((chain.logs n).filter (fun log => log.address = config.bridgeContract) ++
      (chain.logs n).filter (fun log =>
        log.address = config.identityRegistryContract)).Perm
      (chain.contractLogs config n) := by
  rw [contractLogs]
  induction chain.logs n with
  | nil => exact .refl _
  | cons log _ ih =>
    by_cases hbridge : log.address = config.bridgeContract
    · have hother : log.address ≠ config.identityRegistryContract := hbridge ▸ hne
      simpa [hbridge, hother, hne] using ih
    · by_cases hregistry : log.address = config.identityRegistryContract
      · have hperm := perm_middle.trans (ih.cons log)
        simpa [hregistry, Ne.symm hne] using hperm
      · simpa [hbridge, hregistry] using ih

end Chain

end Ingest
end Canon
