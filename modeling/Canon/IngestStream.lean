import Canon.IngestRuns

/-!
# Runs over a stable chain

The source answers from one chain whose head grows, or not at all.  The events which
have been dealt with are an initial part of those of the confirmed blocks, and the last
confirmed block lies at most one block behind them.
-/

namespace Canon
namespace Ingest

open List

def finished : Option UInt64 → ℕ
  | none => 0
  | some last => last.toNat + 1

structure Environment.Serves (env : Environment) (chain : Chain) (head : ℕ → UInt64) : Prop where
  latest : ∀ time number, (env.source time).latestBlockNumber = .ok number → number = head time
  headers : ∀ time number header, (env.source time).blockHeaderByNumber number = .ok header →
      header = chain.header number.toNat
  logs : ∀ time n address logs, n < 2 ^ 64 →
    (env.source time).logsInBlockByHash (chain.hash n) address = .ok logs →
      logs.Perm ((chain.logs n).filter fun log => log.address = address)

/-- The events of the finished blocks, perhaps some of the next one, and none after the
limit. -/
structure Chain.Allows (chain : Chain) (config : WatcherConfig) (limit : ℕ)
    (last : Option UInt64) (done : KeyedEvents) : Prop where
  started : chain.stream config (finished last) <+: done
  next : done <+: chain.stream config (finished last + 1)
  limited : done <+: chain.stream config limit

theorem Chain.Allows.extend {chain : Chain} {config : WatcherConfig}
    {limit n : ℕ} {last : Option UInt64} {done : KeyedEvents} {entry : ForwardedKey × IngestedEvent}
    (hallowed : chain.Allows config limit last done)
    (hnew : done ++ [entry] <+: chain.stream config (n + 1))
    (hlast : n ≤ finished last) (hlimit : n + 1 ≤ limit) :
    chain.Allows config limit last (done ++ [entry]) where
  started := hallowed.started.trans (prefix_append _ _)
  next := hnew.trans (chain.stream_mono config (by omega))
  limited := hnew.trans (chain.stream_mono config hlimit)

section Stream

variable {env : Environment} {chain : Chain} {config : WatcherConfig} {key : BridgeActorKey}
  {blockHash : Bytes32} {log : RawLog} {confirmedHead : UInt64}

/-! ## One block -/

variable (chain config key) in
def InBlock (limit n : ℕ) (last : Option UInt64) (front : List RawLog) (world : World) : Prop :=
  world.watcher.lastConfirmedBlock = last ∧ ∃ done,
    Holds config key (chain.Allows config limit) done world ∧
    chain.stream config n ++ Chain.keyedEvents (chain.hash n) front <+: done ∧
    done <+: chain.stream config (n + 1)

theorem keyedEvents_concat {event : IngestedEvent} (hevent : logEvent log = some event)
    (front : List RawLog) :
    Chain.keyedEvents blockHash (front ++ [log]) =
      Chain.keyedEvents blockHash front ++ [(forwardedKey blockHash event, event)] := by
  simp [Chain.keyedEvents, hevent]

theorem keyedEvents_concat_none (hevent : logEvent log = none) (front : List RawLog) :
    Chain.keyedEvents blockHash (front ++ [log]) = Chain.keyedEvents blockHash front := by
  simp [Chain.keyedEvents, hevent]

section Block

variable (hwrites : env.Writes) {limit n : ℕ} (hn : n < 2 ^ 64)
  {last : Option UInt64} (hlast : n ≤ finished last) (hlimit : n + 1 ≤ limit)
include hwrites hn hlast hlimit

theorem ensures_processLog {front rest : List RawLog}
    (hlogs : chain.contractLogs config n = front ++ log :: rest) :
    Fallible.Ensures (InBlock chain config key limit n last front)
      (processLog env config key (chain.hash n) log)
      (fun _ => InBlock chain config key limit n last (front ++ [log]))
      (Halted env config key (chain.Allows config limit)) := by
  rintro world ⟨hlastEq, done, hholds, hfront, hdone⟩
  cases hdecode : decodeEvent log with
  | error =>
    simp only [processLog, hdecode, Fallible.run_throw]
    exact .consistent hholds (fun h => h)
  | ok found =>
    cases found with
    | none =>
      have hnone : logEvent log = none := by rw [logEvent, hdecode]
      simp only [processLog, hdecode, Fallible.run_pure]
      refine ⟨hlastEq, done, hholds, ?_, hdone⟩
      rwa [keyedEvents_concat_none hnone]
    | some event =>
      have hevent : logEvent log = some event := logEvent_eq_some.mpr hdecode
      have hblock : chain.stream config (n + 1) = chain.stream config n ++
          Chain.keyedEvents (chain.hash n) (front ++ [log]) ++
            Chain.keyedEvents (chain.hash n) rest := by
        rw [chain.stream_succ config hn, Chain.blockEvents, hlogs,
          append_assoc, ← Chain.keyedEvents_append, append_assoc]
        rfl
      rw [keyedEvents_concat hevent, ← append_assoc] at hblock
      simp only [processLog, hdecode]
      obtain ⟨tail, rfl⟩ := hfront
      cases tail with
      | nil =>
        rw [append_nil] at hholds
        have hnew : chain.stream config n ++
            Chain.keyedEvents (chain.hash n) front ++
              [(forwardedKey (chain.hash n) event, event)] <+:
            chain.stream config (n + 1) := ⟨_, hblock.symm⟩
        have hkeys := chain.nodup_keys_stream config (n + 1)
        rw [hblock, append_assoc, map_append, nodup_append] at hkeys
        have hfresh : (forwardedKey (chain.hash n) event, event).1 ∉
            (chain.stream config n ++ Chain.keyedEvents (chain.hash n) front).map Prod.fst :=
          fun hmem => hkeys.2.2 _ hmem _ (by simp) rfl
        have hallowed : chain.Allows config limit world.watcher.lastConfirmedBlock _ :=
          hholds.allowed.extend hnew (by rw [hlastEq]; omega) hlimit
        have hsettles := (processEvent_effect env config key event
          (chain.hash n) world).settles hwrites hholds hfresh hallowed rfl
        rcases hrun : processEvent env config key event (chain.hash n)
          world with ⟨ending | done, after⟩
        · rw [hrun] at hsettles
          exact hsettles
        · rw [hrun] at hsettles
          obtain ⟨hafter, hkept⟩ := hsettles
          refine ⟨hkept.trans hlastEq, _, hafter, ?_, hnew⟩
          rw [keyedEvents_concat hevent, append_assoc]
      | cons next tail =>
        have hnext : next = (forwardedKey (chain.hash n) event, event) := by
          rw [hblock, append_assoc (_ ++ _), prefix_append_right_inj] at hdone
          exact (cons_prefix_cons.mp hdone).1
        have hknown : forwardedKey (chain.hash n) event ∈ world.watcher.forwarded := by
          rw [hholds.ingested.forwarded, hnext]
          simp
        rw [processEvent_skip env config key hknown]
        refine ⟨hlastEq, _, hholds, ?_, hdone⟩
        rw [keyedEvents_concat hevent, hnext]
        exact ⟨tail, by simp⟩

end Block

/-! ## Requests -/

section Requests

variable {pre : World → Prop} {halt : Ending → World → Prop}

theorem ensures_fetchLogs {head : ℕ → UInt64}
    (hserves : env.Serves chain head) {n : ℕ} (hn : n < 2 ^ 64)
    (htick : ∀ world, pre world → pre world.tick)
    (hhalt : ∀ ending world, pre world → ¬ending.Irregular env → halt ending world) :
    Fallible.Ensures pre (fetchLogs env config (chain.hash n))
      (fun logs world => pre world ∧ sortLogs logs = chain.contractLogs config n) halt := by
  refine .bind (ensures_callSource _ htick hhalt) fun bridgeLogs => ?_
  by_cases hsame : config.bridgeContract ≠ config.identityRegistryContract
  · rw [if_pos hsame]
    rintro world ⟨hpre, time, hbridge⟩
    have hregistry := @ensures_callSource env _ _ halt
      (fun source => source.logsInBlockByHash (chain.hash n)
        config.identityRegistryContract) htick hhalt
    refine hregistry.bind (fun registryLogs => ?_) world hpre
    apply Fallible.Ensures.pure
    rintro later ⟨hlater, second, hregistered⟩
    refine ⟨hlater, chain.sortLogs_of_perm config ?_⟩
    exact ((hserves.logs _ _ _ _ hn hbridge).append (hserves.logs _ _ _ _ hn hregistered)).trans
        (chain.contractLogs_perm config n hsame)
  · rw [if_neg hsame]
    apply Fallible.Ensures.pure
    rintro world ⟨hpre, time, hbridge⟩
    refine ⟨hpre, chain.sortLogs_of_perm config ?_⟩
    rw [ne_eq, not_not] at hsame
    have hperm := hserves.logs _ _ _ _ hn hbridge
    simpa [Chain.contractLogs, ← hsame] using hperm

end Requests

theorem allows_stream {limit : ℕ} {number : UInt64} (hlimit : number.toNat + 1 ≤ limit) :
    chain.Allows config limit (some number) (chain.stream config (number.toNat + 1)) where
  started := prefix_rfl
  next := chain.stream_mono config (Nat.le_succ _)
  limited := chain.stream_mono config hlimit

section Confirmation

variable (hwrites : env.Writes) {head : ℕ → UInt64}
  (hserves : env.Serves chain head) {limit : ℕ} {number : UInt64}
  {last : Option UInt64} (hlast : number.toNat ≤ finished last) (hlimit : number.toNat + 1 ≤ limit)
include hwrites hserves hlast hlimit

theorem ensures_processBlock :
    Fallible.Ensures (InBlock chain config key limit number.toNat last [])
      (processBlock env config key number)
      (fun _ => InBlock chain config key limit number.toNat last
        (chain.contractLogs config number.toNat))
      (Halted env config key (chain.Allows config limit)) := by
  have hhalt : ∀ ending world, InBlock chain config key limit number.toNat last [] world →
      ¬ending.Irregular env → Halted env config key (chain.Allows config limit) ending world := by
    rintro ending world ⟨_, done, hholds, _⟩ hregular
    exact .consistent hholds hregular
  have hsame : ∀ world later, later.watcher.toWatcherState = world.watcher.toWatcherState →
      later.file = world.file → later.submissions = world.submissions →
      InBlock chain config key limit number.toNat last [] world →
      InBlock chain config key limit number.toNat last [] later := by
    rintro world later hstate hfile hsubmissions ⟨hlast, done, hholds, hfront, hdone⟩
    refine ⟨(congrArg (·.lastConfirmedBlock) hstate).trans hlast, done, ⟨?_, ?_⟩, hfront, hdone⟩
    · rw [hstate, hfile, hsubmissions]
      exact hholds.ingested
    · rw [hstate]
      exact hholds.allowed
  have htick : ∀ world, InBlock chain config key limit number.toNat last [] world →
      InBlock chain config key limit number.toNat last [] world.tick :=
    fun world => hsame world world.tick rfl rfl rfl
  refine .bind (ensures_callSource _ htick hhalt) fun header => ?_
  rintro world ⟨hin, time, hheader⟩
  obtain rfl := hserves.headers _ _ _ hheader
  refine Fallible.Ensures.bind (ensures_advanceWindow _ (fun world window =>
    hsame world _ rfl rfl rfl) hhalt) (fun _ => ?_) world hin
  intro world hin
  refine Fallible.Ensures.bind (ensures_fetchLogs hserves number.toNat_lt htick hhalt)
    (fun logs => ?_) world hin
  rintro later ⟨hlater, hsorted⟩
  rw [hsorted]
  exact Fallible.Ensures.forM (fun front log rest hlogs =>
    ensures_processLog hwrites number.toNat_lt hlast hlimit hlogs) later hlater

theorem ensures_confirmBlock :
    Fallible.Ensures (InBlock chain config key limit number.toNat last [])
      (confirmBlock env config key number)
      (fun _ world => world.watcher.lastConfirmedBlock = some number ∧
        Holds config key (chain.Allows config limit) (chain.stream config (number.toNat + 1)) world)
      (Halted env config key (chain.Allows config limit)) := by
  refine .bind (ensures_processBlock hwrites hserves hlast hlimit) fun _ => ?_
  have hallowed : chain.Allows config limit (some number)
      (chain.stream config (number.toNat + 1)) := allows_stream hlimit
  have hconfirmed : Fallible.Ensures (fun world => Holds config key (chain.Allows config limit)
        (chain.stream config (number.toNat + 1)) world) (append env (.confirmed number))
      (fun _ world => Holds config key (chain.Allows config limit)
        (chain.stream config (number.toNat + 1)) (world.mapWatcher
          fun watcher => { watcher with lastConfirmedBlock := some number }))
      (Halted env config key (chain.Allows config limit)) := by
    apply ensures_append hwrites
    · exact fun world hholds => ⟨hholds.ingested.confirm number, hallowed⟩
    · exact fun hlives world hholds =>
        ⟨.behind hholds.ingested hholds.allowed (fun h => h) hlives,
          .behind (hholds.ingested.confirm number) hallowed (fun h => h) hlives⟩
  refine Fallible.Ensures.weaken (hconfirmed.bind fun _ =>
    .modify fun _ h => ⟨rfl, h⟩) ?_ (fun _ _ h => h) (fun _ _ h => h)
  rintro world ⟨_, done, hholds, hfront, hdone⟩
  have hblock : done = chain.stream config (number.toNat + 1) := by
    rw [chain.stream_succ config number.toNat_lt] at hdone ⊢
    exact (hfront.eq_of_length_le hdone.length_le).symm
  exact hblock ▸ hholds

end Confirmation

/-! ## One iteration -/

def confirmedBlocks (config : WatcherConfig) (head : UInt64) : ℕ :=
  if head < config.confirmationDepth.toUInt64 then 0
  else (head - config.confirmationDepth.toUInt64).toNat + 1

variable (chain config key) in
def Within (limit : ℕ) (world : World) : Prop :=
  ∃ done, Holds config key (chain.Allows config limit) done world

variable (chain config key) in
def Next (limit n : ℕ) (world : World) : Prop := n ≤ finished world.watcher.lastConfirmedBlock ∧
    InBlock chain config key limit n world.watcher.lastConfirmedBlock [] world

section Next

variable {limit : ℕ} {done : KeyedEvents} {world : World}
  (hholds : Holds config key (chain.Allows config limit) done world)
include hholds

theorem Holds.next {n : ℕ} (hle : n ≤ finished world.watcher.lastConfirmedBlock)
    (hge : finished world.watcher.lastConfirmedBlock ≤ n ∨ 2 ^ 64 ≤ n + 1) :
    Next chain config key limit n world := by
  refine ⟨hle, rfl, done, hholds, ?_, ?_⟩
  · rw [Chain.keyedEvents, filterMap_nil, map_nil, append_nil]
    exact (chain.stream_mono config hle).trans hholds.allowed.started
  · have hnext := hholds.allowed.next
    rcases hge with hge | hge
    · rwa [Nat.le_antisymm hge hle] at hnext
    · rwa [chain.stream_of_ge config (hge.trans (by omega)),
        ← chain.stream_of_ge config hge] at hnext

theorem Holds.next_start :
    Next chain config key limit (startBlock world.watcher.lastConfirmedBlock).toNat world := by
  cases hlast : world.watcher.lastConfirmedBlock with
  | none => exact hholds.next (Nat.zero_le _) (.inl (by rw [hlast]; rfl))
  | some last =>
    have hfinished : finished world.watcher.lastConfirmedBlock =
        last.toNat + 1 := by rw [hlast]; rfl
    have hbound := last.toNat_lt
    by_cases hmax : last = UInt64.ofNat (2 ^ 64 - 1)
    · have hnat : last.toNat = 2 ^ 64 - 1 := by rw [hmax]; rfl
      rw [startBlock, if_pos hmax]
      exact hholds.next (by omega) (.inr (by omega))
    · have hne : last.toNat ≠ 2 ^ 64 - 1 := fun heq =>
        hmax (UInt64.toNat_inj.mp (heq.trans rfl))
      have hstart : (last + 1).toNat = last.toNat + 1 := by
        rw [UInt64.toNat_add, UInt64.toNat_one, Nat.mod_eq_of_lt (by omega)]
      rw [startBlock, if_neg hmax]
      exact hholds.next (by omega) (.inl (by omega))

theorem Holds.next_succ {number : UInt64} (hlast : world.watcher.lastConfirmedBlock = some number) :
    Next chain config key limit (number.toNat + 1) world := by
  have hfinished : finished world.watcher.lastConfirmedBlock =
      number.toNat + 1 := by rw [hlast]; rfl
  exact hholds.next (by omega) (.inl (by omega))

end Next

variable (chain config key) in
def Between (limit start count done : ℕ) (world : World) : Prop :=
  (done < count → Next chain config key limit (start + done) world) ∧
    Within chain config key limit world

theorem batch_le {start : UInt64} (batch : UInt64) (hstart : ¬confirmedHead < start) :
    start.toNat + (min (availableBlocks start confirmedHead) batch).toNat ≤
      confirmedHead.toNat + 1 := by
  have hle : start ≤ confirmedHead := UInt64.not_lt.mp hstart
  have hsub := UInt64.toNat_sub_of_le _ _ hle
  have hnat := UInt64.le_iff_toNat_le.mp hle
  have havailable : (availableBlocks start confirmedHead).toNat ≤
      (confirmedHead - start).toNat + 1 := by
    by_cases hmax : confirmedHead - start = UInt64.ofNat (2 ^ 64 - 1)
    · rw [availableBlocks, if_pos hmax]
      exact Nat.le_succ _
    · rw [availableBlocks, if_neg hmax, UInt64.toNat_add, UInt64.toNat_one]
      exact Nat.mod_le _ _
  have hmin : (min (availableBlocks start confirmedHead) batch).toNat ≤
      (availableBlocks start confirmedHead).toNat := by
    change (if availableBlocks start confirmedHead ≤ batch then
      availableBlocks start confirmedHead else batch).toNat ≤ _
    split
    · exact le_rfl
    · rename_i hlt
      exact (UInt64.lt_iff_toNat_lt.mp (UInt64.not_le.mp hlt)).le
  omega

theorem add_le_of_batch {start batch : UInt64} {i : ℕ} (hstart : ¬confirmedHead < start)
    (hi : i < (min (availableBlocks start confirmedHead) batch).toNat) :
    start + UInt64.ofNat i ≤ confirmedHead := by
  have hcount := batch_le batch hstart
  have hhead := confirmedHead.toNat_lt
  rw [UInt64.le_iff_toNat_le, UInt64.toNat_add, UInt64.toNat_ofNat_of_lt'
    (show i < 2 ^ 64 by omega), Nat.mod_eq_of_lt (by omega)]
  omega

section Iteration

variable (hwrites : env.Writes) {head : ℕ → UInt64} (hserves : env.Serves chain head)
  {limit count : ℕ}
include hwrites hserves

theorem ensures_confirmBlock_at {i : ℕ} {start : UInt64} (hi : i < count)
    (hbound : start.toNat + count ≤ 2 ^ 64) (hlimit : start.toNat + count ≤ limit) :
    Fallible.Ensures (Between chain config key limit start.toNat count i)
      (confirmBlock env config key (start + UInt64.ofNat i))
      (fun _ => Between chain config key limit start.toNat count (i + 1))
      (Halted env config key (chain.Allows config limit)) := by
  have hnat : (start + UInt64.ofNat i).toNat = start.toNat + i := by
    rw [UInt64.toNat_add, UInt64.toNat_ofNat_of_lt'
      (show i < 2 ^ 64 by omega), Nat.mod_eq_of_lt (by omega)]
  rintro world ⟨hnext, _⟩
  obtain ⟨hlast, hin⟩ := hnext hi
  rw [← hnat] at hlast hin
  refine Fallible.Ensures.weaken (ensures_confirmBlock hwrites hserves hlast
    (show (start + UInt64.ofNat i).toNat + 1 ≤ limit by omega))
    (fun _ h => h) ?_ (fun _ _ h => h) world hin
  rintro _ after ⟨hafter, hholds⟩
  have hsucc := hholds.next_succ hafter
  rw [hnat] at hsucc
  exact ⟨fun _ => hsucc, _, hholds⟩

theorem ensures_confirmBlocks {start : UInt64} (result : UInt64)
    (hbound : start.toNat + count ≤ 2 ^ 64) (hlimit : start.toNat + count ≤ limit) :
    Fallible.Ensures (Between chain config key limit start.toNat count 0) (do
        (List.range count).forM fun i =>
          confirmBlock env config key (start + UInt64.ofNat i)
        return result)
      (fun _ => Within chain config key limit)
      (Halted env config key (chain.Allows config limit)) := by
  have hloop := @Fallible.Ensures.forM_range _ _ _ _ count
    (Between chain config key limit start.toNat count) fun i hi =>
      ensures_confirmBlock_at hwrites hserves hi hbound hlimit
  exact hloop.bind fun _ => .pure fun _ hbetween => hbetween.2

theorem ensures_confirmUpTo (confirmedHead : UInt64) (hlimit : limit = confirmedHead.toNat + 1) :
    Fallible.Ensures (Within chain config key limit) (confirmUpTo env config key confirmedHead)
      (fun _ => Within chain config key limit)
      (Halted env config key (chain.Allows config limit)) := by
  refine .get_bind fun now => ?_
  rintro world ⟨rfl, hdone⟩
  by_cases hbehind : confirmedHead < startBlock world.watcher.lastConfirmedBlock
  · simp only [if_pos hbehind]
    exact hdone
  · by_cases hbatch : config.blocksPerIteration.toUInt64 = 0
    · simp only [if_neg hbehind, if_pos hbatch]
      exact hdone
    · simp only [if_neg hbehind, if_neg hbatch]
      have hcount := batch_le config.blocksPerIteration.toUInt64 hbehind
      have hhead := confirmedHead.toNat_lt
      obtain ⟨done, hholds⟩ := hdone
      exact ensures_confirmBlocks hwrites hserves _ (by omega)
        (hcount.trans hlimit.ge) world ⟨fun _ => hholds.next_start, done, hholds⟩

theorem ensures_runIteration (time : ℕ) : Fallible.Ensures
      (fun world => world.clock = time ∧
        Within chain config key (confirmedBlocks config (head time)) world)
      (runIteration env config key)
      (fun _ => Within chain config key (confirmedBlocks config (head time)))
      (Halted env config key (chain.Allows config (confirmedBlocks config (head time)))) := by
  rintro world ⟨rfl, done, hholds⟩
  have htick : Holds config key (chain.Allows config
      (confirmedBlocks config (head world.clock))) done world.tick :=
    ⟨hholds.ingested, hholds.allowed⟩
  rw [runIteration, Fallible.run_bind]
  rcases callSource_cases env (·.latestBlockNumber) world with
    ⟨number, hask, hrun⟩ | ⟨ending, hregular, hrun⟩
  · have hnumber := hserves.latest _ _ hask
    subst hnumber
    rw [hrun]
    by_cases hdepth : head world.clock < config.confirmationDepth.toUInt64
    · simp only [if_pos hdepth]
      exact ⟨done, htick⟩
    · simp only [if_neg hdepth]
      exact ensures_confirmUpTo hwrites hserves _ (if_neg hdepth) world.tick ⟨done, htick⟩
  · rw [hrun]
    exact .consistent htick hregular

end Iteration

end Stream

end Ingest
end Canon
