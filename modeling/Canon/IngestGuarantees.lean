import Canon.WatcherSessions

/-!
# Each event once, over a stable chain

With a restart after each error, the accepted actions are those of an initial part of the
confirmed events, each once and in order, as long as there are actor ids for the
registered addresses.
-/

namespace Canon
namespace Ingest

open List

/-! ## A stable chain -/

/-- The accepted actions are those of an initial part of the events, and the memory is
what the file restores. -/
def IngestedOnce (chain : Chain) (config : WatcherConfig) (key : BridgeActorKey)
    (limit : ℕ) (world : World) : Prop := ∃ done, done <+: chain.stream config limit ∧
    (acceptedOf world.submissions).map (fun entry => entry.signed.unsigned) =
      (accountOfKeyed done).unsigned ∧
    (acceptedOf world.submissions).map (fun entry => entry.origin) =
      (registrations done).map Prod.fst ∧
    (∀ entry ∈ acceptedOf world.submissions,
      sign config key entry.signed.unsigned = .ok entry.signed) ∧
    replayRecords world.file = .ok world.watcher.toWatcherState

def Grows (head : ℕ → UInt64) : Prop := ∀ time later, time ≤ later → head time ≤ head later

def restarting : Ending → Resumption → Prop := fun _ resumption => resumption = .fromFile

section StableChain

variable {env : Environment} {chain : Chain} {head : ℕ → UInt64}
  {config : WatcherConfig} {key : BridgeActorKey} {watcher : Watcher}
  {status : Option Ending} {world : World}

theorem Holds.ingestedOnce {limit : ℕ} {done : KeyedEvents}
    (hholds : Holds config key (chain.Allows config limit) done world) :
    IngestedOnce chain config key limit world :=
  ⟨done, hholds.allowed.limited, hholds.ingested.accepted,
    hholds.ingested.origins, hholds.ingested.signed, hholds.ingested.restores.replays⟩

theorem holds_fresh {allowed : Option UInt64 → KeyedEvents → Prop}
    (hnew : Watcher.new config [] = .ok watcher) (hallowed : allowed none []) :
    Holds config key allowed [] (.fresh watcher) := by
  have hingested : Ingested config key [] .default [] [] := .start
  have hstate := hingested.new hnew
  refine ⟨?_, ?_⟩
  · rw [World.fresh, hstate]
    exact hingested
  · rw [World.fresh, hstate]
    exact hallowed

theorem allows_nil (limit : ℕ) : chain.Allows config limit none [] where
  started := prefix_rfl
  next := nil_prefix
  limited := nil_prefix

theorem confirmedBlocks_mono {first second : UInt64} (hle : first ≤ second) :
    confirmedBlocks config first ≤ confirmedBlocks config second := by
  unfold confirmedBlocks
  by_cases hfirst : first < config.confirmationDepth.toUInt64
  · rw [if_pos hfirst]
    exact Nat.zero_le _
  · have hdepth := UInt64.not_lt.mp hfirst
    have hsecond := UInt64.not_lt.mpr (UInt64.le_trans hdepth hle)
    rw [if_neg hfirst, if_neg hsecond, UInt64.toNat_sub_of_le _ _ hdepth,
      UInt64.toNat_sub_of_le _ _ (UInt64.le_trans hdepth hle)]
    have hnat := UInt64.le_iff_toNat_le.mp hle
    omega

variable (hserves : env.Serves chain head) (hhead : Grows head)
  (hlives : env.Lives) (hwrites : env.Writes) (hnew : Watcher.new config [] = .ok watcher)
  (hreached : Reached env config key restarting (.fresh watcher) status world)
include hserves hhead hlives hwrites hnew hreached

theorem Reached.stands_stable :
    Stands env config key (chain.Allows config (confirmedBlocks config (head world.clock))) status
      world := by
  refine @Reached.stands env config key restarting (.fresh watcher)
    (fun time => chain.Allows config (confirmedBlocks config (head time)))
    ?_ (ensures_runIteration hwrites hserves) ?_ ?_ status world hreached
  · intro time later hle last done hallowed
    exact ⟨hallowed.started, hallowed.next, hallowed.limited.trans
      (chain.stream_mono config (confirmedBlocks_mono (hhead _ _ hle)))⟩
  · exact fun ending resumption hrestart => ⟨hrestart, .inl hlives⟩
  · exact ⟨[], holds_fresh hnew (allows_nil _)⟩

theorem ingestedOnce_of_room (hroom : (accountOfKeyed (chain.stream config
      (confirmedBlocks config (head world.clock)))).known.length + 1 < 2 ^ 64) :
    IngestedOnce chain config key (confirmedBlocks config (head world.clock))
      world := by
  have hstands := hreached.stands_stable hserves hhead hlives hwrites hnew
  cases status with
  | none =>
    obtain ⟨done, hholds⟩ := hstands
    exact hholds.ingestedOnce
  | some =>
    cases hstands with
    | consistent hholds => exact hholds.ingestedOnce
    | behind _ _ _ hdied | lost _ _ _ _ hdied => exact absurd hlives hdied
    | exhausted hallowed hused =>
      have hknown := (known_mono (hallowed.limited.map Prod.snd)).length_le
      unfold accountOfKeyed at hused hroom
      omega

end StableChain

/-! ## A block of registrations -/

theorem sign_total {config : WatcherConfig} {key : BridgeActorKey}
    (hkey : ∀ hash, ∃ signature, key.signPrehash hash = .ok signature) {unsigned : UnsignedAction}
    (hbounded : ∀ field ∈ signingItems unsigned.action unsigned.signer
      unsigned.nonce config.deploymentId, field.Bounded) :
    ∃ signed, sign config key unsigned = .ok signed := by
  obtain ⟨signature, hsignature⟩ := hkey (keccak256
    ((signingItems unsigned.action unsigned.signer unsigned.nonce
      config.deploymentId).flatMap WireField.toBytes))
  have hinput := signingInput_eq_ok.mpr ⟨hbounded, rfl⟩
  refine ⟨⟨unsigned, signature⟩, ?_⟩
  simp only [sign, bind_eq_ok, mapError_eq_ok, pure_eq_ok]
  exact ⟨_, hinput, signature, hsignature, rfl⟩

def plainConfig : WatcherConfig where
  bridgeContract := 0
  identityRegistryContract := 1
  confirmationDepth := 0
  reorgWindowCapacity := 4
  deploymentId := []
  blocksPerIteration := 1

def constantKey : BridgeActorKey where
  signPrehash _ := .ok ⟨List.replicate 64 0, length_replicate⟩

def enrolledAddress (i : ℕ) : Address := BitVec.ofNat 160 i

def enrolledOrigin (i : ℕ) : Origin := ⟨0, abiSlot 0, UInt64.ofNat i⟩

/-- A log which registers an address; the decoder is not to be run on it. -/
@[irreducible] def enrolledLog (i : ℕ) : RawLog :=
  registeredEcdsaLog 1 (enrolledAddress i) [] (enrolledOrigin i)

def enrolledEvent (i : ℕ) : IngestedEvent :=
  .registeredEcdsa (enrolledAddress i) [] (enrolledOrigin i)

theorem decodeEvent_enrolledLog (i : ℕ) :
    decodeEvent (enrolledLog i) = .ok (some (enrolledEvent i)) := by
  rw [enrolledLog]
  exact decodeEvent_registeredEcdsaLog 1 _ _ (by simp [usizeMax])

variable {count : ℕ}

theorem enrolledLogs_sorted (hcount : count ≤ 2 ^ 64) :
    ((List.range count).map enrolledLog).Pairwise fun log later =>
      log.origin.logIndex < later.origin.logIndex := by
  rw [pairwise_map]
  refine pairwise_lt_range.imp_of_mem ?_
  intro i j hi hj hlt
  rw [mem_range] at hi hj
  rw [enrolledLog, enrolledLog]
  have hindex : UInt64.ofNat i < UInt64.ofNat j :=
    (UInt64.ofNat_lt_iff_lt (show i < 2 ^ 64 by omega) (show j < 2 ^ 64 by omega)).mpr hlt
  exact hindex

def enrolledChain (count : ℕ) (hcount : count ≤ 2 ^ 64) : Chain := chainOf (2 ^ 64)
    (fun n => if n = 0 then (List.range count).map enrolledLog else []) fun n => by
      split
      · exact enrolledLogs_sorted hcount
      · exact .nil

theorem contractLogs_enrolledChain (hcount : count ≤ 2 ^ 64) :
    (enrolledChain count hcount).contractLogs plainConfig 0 =
      (List.range count).map enrolledLog := by
  have hlogs : (enrolledChain count hcount).logs 0 = (List.range count).map enrolledLog := rfl
  rw [Chain.contractLogs, hlogs, filter_eq_self]
  intro log hlog
  obtain ⟨i, _, rfl⟩ := mem_map.mp hlog
  rw [enrolledLog]
  exact decide_eq_true (.inr rfl)

structure Registered (count : ℕ) (watcher : Watcher) : Prop where
  room : count + 1 < 2 ^ 64
  book : watcher.addressBook = bookOf ((List.range count).map enrolledAddress)
  nonce : watcher.nextNonce = BitVec.ofNat 128 count
  forwarded : ∀ origin ∈ watcher.forwarded, origin.logIndex.toNat < count

theorem enrolledAddress_notMem (hcount : count < 2 ^ 64) :
    enrolledAddress count ∉ (List.range count).map enrolledAddress := by
  intro hmem
  obtain ⟨i, hi, heq⟩ := mem_map.mp hmem
  rw [mem_range] at hi
  have hnat := congrArg BitVec.toNat heq
  simp only [enrolledAddress, BitVec.toNat_ofNat] at hnat
  omega

structure OutOfIds (count : ℕ) (ending : Ending) : Prop where
  ids : count + 1 = 2 ^ 64
  message : ∃ message, ending = .failed (.config message)

section NextRegistration

variable {count : ℕ} {watcher : Watcher} (hregistered : Registered count watcher)
include hregistered

theorem Registered.fresh (blockHash : Bytes32) :
    forwardedKey blockHash (enrolledEvent count) ∉ watcher.forwarded := by
  intro hmem
  have hroom := hregistered.room
  have hlt : (UInt64.ofNat count).toNat < count := hregistered.forwarded _ hmem
  rw [UInt64.toNat_ofNat_of_lt' (show count < 2 ^ 64 by omega)] at hlt
  exact lt_irrefl _ hlt

theorem Registered.preview :
    previewIngest watcher.addressBook (enrolledEvent count) watcher.nextNonce =
      .emitWithAssignment ⟨.registerIdentity (UInt64.ofNat (count + 1)) [],
        bridgeActorId, watcher.nextNonce⟩ (enrolledAddress count) (UInt64.ofNat (count + 1)) := by
  have hroom := hregistered.room
  have hnotMem := enrolledAddress_notMem (show count < 2 ^ 64 by omega)
  rw [hregistered.book, previewIngest_of_notMem _ rfl hnotMem, length_map, length_range]

theorem Registered.sign :
    ∃ signed, sign plainConfig constantKey
      ⟨.registerIdentity (UInt64.ofNat (count + 1)) [], bridgeActorId,
        watcher.nextNonce⟩ = .ok signed := by
  have hroom := hregistered.room
  have hnonce : watcher.nextNonce.toNat < 2 ^ 64 := by
    rw [hregistered.nonce, BitVec.toNat_ofNat]
    omega
  have hbounded : ∀ field ∈ (Action.registerIdentity (UInt64.ofNat (count + 1))
      []).fields, field.Bounded := by
    simp [Action.fields, WireField.Bounded]
  exact sign_total (fun _ => ⟨_, rfl⟩) (signingItems_bounded.mpr ⟨by decide, hbounded, hnonce⟩)

end NextRegistration

theorem ensures_absorbLog_enrolled (blockHash : Bytes32) (count : ℕ) :
    Fallible.Ensures (Registered count)
      (absorbLog plainConfig constantKey blockHash (enrolledLog count))
      (fun _ => Registered (count + 1)) (fun ending _ => OutOfIds (count + 1) ending) := by
  intro watcher hregistered
  have hroom := hregistered.room
  have hlength : ((List.range count).map enrolledAddress).length = count := by
    rw [length_map, length_range]
  have hnotMem := enrolledAddress_notMem (show count < 2 ^ 64 by omega)
  obtain ⟨signed, hsign⟩ := hregistered.sign
  simp only [absorbLog, decodeEvent_enrolledLog, absorbEvent,
    Fallible.run_get_bind, if_neg (hregistered.fresh blockHash), hregistered.preview, absorbAction]
  rw [Fallible.run_bind]
  simp only [Fallible.ofExcept, hsign, Except.mapError, Fallible.run_get_bind]
  rw [Fallible.run_bind]
  by_cases hlast : count + 2 = 2 ^ 64
  · have hcommit := commitAssignment_bookOf_full hnotMem
      (by rw [hlength]; exact hlast) (UInt64.ofNat (count + 1))
    rw [← hregistered.book] at hcommit
    simp only [absorbAssignment, hcommit]
    exact ⟨hlast, _, rfl⟩
  · have hcommit := commitAssignment_bookOf hnotMem (by rw [hlength]; omega)
    rw [← hregistered.book, hlength] at hcommit
    simp only [absorbAssignment, hcommit]
    constructor
    case room => omega
    case book =>
      rw [range_succ, map_append]
      rfl
    case nonce =>
      have hsucc := saturatingSucc_ofNat (show count ≤ 2 ^ 64 by omega)
      rw [← hregistered.nonce] at hsucc
      exact hsucc
    case forwarded =>
      intro origin hmem
      rcases Finset.mem_insert.mp hmem with rfl | hold
      · have hindex : (UInt64.ofNat count).toNat = count :=
          UInt64.toNat_ofNat_of_lt' (show count < 2 ^ 64 by omega)
        exact Nat.lt_succ_of_le hindex.le
      · exact Nat.lt_succ_of_lt (hregistered.forwarded origin hold)

section Enrolled

variable {count : ℕ} (hcount : count + 1 ≤ 2 ^ 64) {watcher : Watcher}

theorem ensures_absorbLogs_enrolled : Fallible.Ensures (Registered 0)
      (absorbLogs plainConfig constantKey (enrolledChain count (Nat.le_of_succ_le hcount)) 0)
      (fun _ => Registered count) (fun ending _ => OutOfIds count ending) := by
  rw [absorbLogs, contractLogs_enrolledChain, forM_eq_forM, forM_map, ← forM_eq_forM]
  apply Fallible.Ensures.forM_range
  intro i hi
  have hlog := ensures_absorbLog_enrolled
    ((enrolledChain count (Nat.le_of_succ_le hcount)).hash 0) i
  apply hlog.weaken
  · exact fun _ h => h
  · exact fun _ _ h => h
  · intro ending watcher hout
    have hids := hout.ids
    exact ⟨by omega, hout.message⟩

theorem ensures_absorbUpTo_enrolled : Fallible.Ensures
      (fun watcher => Registered 0 watcher ∧
        watcher.reorgWindow.buffer = [] ∧ watcher.lastConfirmedBlock = none)
      (absorbUpTo plainConfig constantKey (enrolledChain count (Nat.le_of_succ_le hcount)) 0)
      (fun _ => Registered count) (fun ending _ => OutOfIds count ending) := by
  refine .get_bind fun now => ?_
  rintro watcher ⟨rfl, hregistered, hempty, hlast⟩
  rw [hlast]
  have hblock : Fallible.Ensures
      (fun watcher => Registered 0 watcher ∧ watcher.reorgWindow.buffer = [])
      (absorbBlock plainConfig constantKey (enrolledChain count (Nat.le_of_succ_le hcount)) 0)
      (fun _ => Registered count) (fun ending _ => OutOfIds count ending) := by
    have hheader : Fallible.Ensures
        (fun watcher => Registered 0 watcher ∧ watcher.reorgWindow.buffer = [])
        (absorbHeader ((enrolledChain count (Nat.le_of_succ_le hcount)).header (0 : UInt64).toNat))
        (fun _ => Registered 0) (fun ending _ => OutOfIds count ending) := by
      rintro watcher ⟨hregistered, hempty⟩
      simp only [absorbHeader, if_pos hempty]
      exact ⟨hregistered.room, hregistered.book, hregistered.nonce, hregistered.forwarded⟩
    refine hheader.bind fun _ => ?_
    refine (ensures_absorbLogs_enrolled hcount).bind fun _ => .modify ?_
    exact fun watcher h => ⟨h.room, h.book, h.nonce, h.forwarded⟩
  have hloop : Fallible.Ensures
      (fun watcher => Registered 0 watcher ∧ watcher.reorgWindow.buffer = [])
      ([0].forM fun i => absorbBlock plainConfig constantKey
        (enrolledChain count (Nat.le_of_succ_le hcount)) (startBlock none + UInt64.ofNat i))
      (fun _ => Registered count) (fun ending _ => OutOfIds count ending) :=
    hblock.bind fun _ _ h => h
  have hbatch : min (availableBlocks (startBlock none) 0)
      plainConfig.blocksPerIteration.toUInt64 = 1 := by decide
  have hrange : List.range (UInt64.toNat 1) = [0] := rfl
  exact hloop.bind (fun _ _ h => h) watcher ⟨hregistered, hempty⟩

def enrolledEnv (count : ℕ) (hcount : count ≤ 2 ^ 64) : Environment :=
  .ideal (enrolledChain count hcount) fun _ => 0

theorem registered_new (hnew : Watcher.new plainConfig [] = .ok watcher) :
    Registered 0 watcher ∧ watcher.reorgWindow.buffer = [] ∧ watcher.lastConfirmedBlock = none := by
  obtain ⟨_, hreplay, hwindow⟩ := Watcher.new_eq_ok.mp hnew
  have hstate : watcher.toWatcherState = .default :=
    Except.ok.inj (hreplay.symm.trans Restores.start.replays)
  rw [hstate, hwindow]
  refine ⟨⟨by decide, ?_, ?_, ?_⟩, rfl, rfl⟩
  · rw [hstate]
    exact Restores.start.book
  · rw [hstate]
    rfl
  · rw [hstate]
    intro origin hmem
    exact absurd hmem (Finset.notMem_empty _)

include hcount in
theorem enrolled_run (hnew : Watcher.new plainConfig [] = .ok watcher) :
    ∃ result after, runIteration (enrolledEnv count (Nat.le_of_succ_le hcount)) plainConfig
        constantKey (.fresh watcher) = (result, after) ∧
      match result with
      | .ok _ => Registered count after.watcher
      | .error ending => OutOfIds count ending := by
  have hworks : (enrolledEnv count (Nat.le_of_succ_le hcount)).WorksFrom
      (enrolledChain count (Nat.le_of_succ_le hcount)) (fun _ => 0) 0 :=
    works_ideal fun _ _ => UInt64.le_refl 0
  have hmirror := (mirrors_runIteration hworks plainConfig constantKey
    (show (World.fresh watcher).clock = 0 from rfl) (by decide)).2
  have hensures := ensures_absorbUpTo_enrolled hcount watcher (registered_new hnew)
  have hhead : (0 : UInt64) - plainConfig.confirmationDepth.toUInt64 = 0 := by
    decide
  rw [hhead] at hmirror
  rw [show watcher = (World.fresh watcher).watcher from rfl, hmirror] at hensures
  rcases hrun : runIteration (enrolledEnv count (Nat.le_of_succ_le hcount))
    plainConfig constantKey (.fresh watcher) with ⟨ending | value, after⟩
  all_goals
    rw [hrun] at hensures
    exact ⟨_, after, rfl, hensures⟩

def quietWatcher : Watcher := { Replay.start.state with reorgWindow := .new 4 (by decide) }

theorem new_plain : Watcher.new plainConfig [] = .ok quietWatcher :=
  rfl

theorem serves_enrolled (hle : count ≤ 2 ^ 64) :
    (enrolledEnv count hle).Serves (enrolledChain count hle) fun _ => 0 :=
  serves_of_source fun _ => rfl

theorem lives_enrolled (hle : count ≤ 2 ^ 64) : (enrolledEnv count hle).Lives := fun _ => rfl

theorem writes_enrolled (hle : count ≤ 2 ^ 64) : (enrolledEnv count hle).Writes := fun _ => rfl

theorem grows_const (number : UInt64) : Grows fun _ => number := fun _ _ _ => UInt64.le_refl number

end Enrolled

theorem length_stream_enrolled (hcount : count ≤ 2 ^ 64) :
    (accountOfKeyed ((enrolledChain count hcount).stream plainConfig
      (confirmedBlocks plainConfig 0))).known.length ≤ count := by
  have hblocks : confirmedBlocks plainConfig 0 = 0 + 1 := by decide
  refine (length_known_le _).trans ?_
  rw [hblocks, Chain.stream_succ _ _ (by decide), Chain.blockEvents,
    contractLogs_enrolledChain, Chain.keyedEvents]
  simp only [length_map, length_append]
  refine (Nat.add_le_add_left (length_filterMap_le _ _) _).trans ?_
  simp [Chain.stream]

theorem ingestedOnce_of_two_registrations :
    ∃ (watcher : Watcher) (world : World),
      Reached (enrolledEnv 2 (by decide)) plainConfig constantKey restarting
        (.fresh watcher) none world ∧ world.watcher.nextNonce = 2 ∧
      IngestedOnce (enrolledChain 2 (by decide)) plainConfig constantKey
        (confirmedBlocks plainConfig 0) world := by
  obtain ⟨watcher, hnew⟩ : ∃ watcher, Watcher.new plainConfig [] = .ok watcher := ⟨_, new_plain⟩
  obtain ⟨result, after, hrun, hresult⟩ := enrolled_run (show 2 + 1 ≤ 2 ^ 64 by decide) hnew
  cases result with
  | error => exact absurd hresult.ids (by decide)
  | ok =>
    have hreached : Reached (enrolledEnv 2 (by decide)) plainConfig
        constantKey restarting (.fresh watcher) none after := .iterate .start hrun
    refine ⟨watcher, after, hreached, hresult.nonce, ?_⟩
    have hroom := length_stream_enrolled (show 2 ≤ 2 ^ 64 by decide)
    have honce := ingestedOnce_of_room (serves_enrolled _) (grows_const 0)
      (lives_enrolled _) (writes_enrolled _) hnew hreached
      (Nat.lt_of_le_of_lt (Nat.succ_le_succ hroom) (by decide))
    exact honce

/-- As many addresses as there are ids: the last one is recorded and cannot be
committed, and the file cannot be opened any more. -/
theorem not_ingestedOnce_of_all_ids :
    ∃ (env : Environment) (chain : Chain) (head : ℕ → UInt64)
      (config : WatcherConfig) (key : BridgeActorKey) (watcher : Watcher)
      (status : Option Ending) (world : World),
      env.Serves chain head ∧ Grows head ∧ env.Lives ∧ env.Writes ∧
      Watcher.new config [] = .ok watcher ∧
      Reached env config key restarting (.fresh watcher) status world ∧
      ¬IngestedOnce chain config key (confirmedBlocks config (head world.clock))
        world := by
  obtain ⟨watcher, hnew⟩ : ∃ watcher, Watcher.new plainConfig [] = .ok watcher := ⟨_, new_plain⟩
  have hcount : 2 ^ 64 - 1 + 1 ≤ 2 ^ 64 := by decide
  have hserves := serves_enrolled (Nat.le_of_succ_le hcount)
  obtain ⟨result, after, hrun, hresult⟩ := enrolled_run hcount hnew
  cases result with
  | ok => exact absurd hresult.room (by decide)
  | error ending =>
    have hreached : Reached (enrolledEnv (2 ^ 64 - 1)
        (Nat.le_of_succ_le hcount)) plainConfig constantKey restarting
        (.fresh watcher) (some ending) after := .halt .start hrun
    have hlives := lives_enrolled (Nat.le_of_succ_le hcount)
    have hwrites := writes_enrolled (Nat.le_of_succ_le hcount)
    have hstands := hreached.stands_stable hserves (grows_const 0) hlives hwrites hnew
    refine ⟨_, _, fun _ => 0, plainConfig, constantKey, watcher, _, after,
      hserves, grows_const 0, hlives, hwrites, hnew, hreached, ?_⟩
    rintro ⟨_, _, _, _, _, hreplays⟩
    obtain ⟨message, rfl⟩ := hresult.message
    cases hstands with
    | consistent _ hregular => exact hregular trivial
    | behind _ _ _ hdied | lost _ _ _ _ hdied => exact hdied hlives
    | exhausted _ _ hreplay =>
      rw [hreplay] at hreplays
      cases hreplays

end Ingest
end Canon
