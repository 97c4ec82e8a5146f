import Canon.WatcherRetry

/-!
# Re-orgs of processed blocks

The next block which the watcher asks for is the one after the last confirmed block.  When
processed blocks have been replaced, this block has a parent which the window does not
know, and the blocks of the new branch below it are not asked for.
-/

namespace Canon
namespace Ingest

structure Replaces (old new : Chain) (height count : ℕ) : Prop where
  agrees : ∀ n, n + count ≤ height → new.header n = old.header n
  differs : ∀ n ≤ height, height < n + count → new.hash n ≠ old.hash n

/-- Without a failure, the iterations process the blocks of the chain from the fork up to
the confirmed head. -/
def Absorbs (env : Environment) (config : WatcherConfig) (key : BridgeActorKey)
    (chain : Chain) (fork : ℕ) (head : UInt64) (world : World) : Prop :=
  ∃ after, Reached env config key (fun _ _ => False) world none after ∧
    confirmedBlocks config head ≤ finished after.watcher.lastConfirmedBlock ∧
    ∀ n, fork ≤ n → n < confirmedBlocks config head →
      ∀ log ∈ chain.contractLogs config n, ∀ event, decodeEvent log = .ok (some event) →
          forwardedKey (chain.hash n) event ∈ after.watcher.forwarded

section Reorgs

variable {env later : Environment} {old new : Chain} {config : WatcherConfig}
  {key : BridgeActorKey} {head newHead : ℕ → UInt64} {world : World}

theorem absorbBlock_foreign {cut : ℕ → Prop} {watcher : Watcher} {height : ℕ}
    {number : UInt64} (hwindow : WindowAt old cut watcher)
    (hne : watcher.reorgWindow.buffer ≠ []) (hnumber : number.toNat = height + 1)
    (hdiffers : new.hash height ≠ old.hash height) :
    ∃ ending, absorbBlock config key new number watcher = (.error ending, watcher) := by
  have hbound := number.toNat_lt
  rcases hwindow with hempty | ⟨newest, hnewest, htracks, _⟩
  · exact absurd hempty hne
  · obtain ⟨error, hadvance⟩ := htracks.advance_foreign hnewest
      (show height + 1 < 2 ^ 64 by omega) (new.number_header (height + 1))
      (by rw [new.parentHash_header]; exact hdiffers)
    have hheader : absorbHeader (new.header number.toNat) watcher =
        (.error (.failed (.reorg error)), watcher) := by
      simp only [absorbHeader, if_neg hne, hnumber, hadvance]
    exact ⟨_, Fallible.run_bind_error hheader _⟩

theorem runIteration_idle (hbatch : config.blocksPerIteration.toUInt64 = 0) :
    (runIteration env config key world).2.watcher = world.watcher := by
  rw [runIteration, Fallible.run_bind]
  rcases callSource_cases env (·.latestBlockNumber) world with
    ⟨number, _, hrun⟩ | ⟨ending, _, hrun⟩
  · rw [hrun]
    simp only
    split
    · rfl
    · simp only [confirmUpTo, Fallible.run_get_bind, if_pos hbatch]
      split
      all_goals rfl
  · rw [hrun]
    rfl

theorem Reached.watcher_eq {admits : Ending → Resumption → Prop}
    {status : Option Ending} {after : World}
    (hnever : ∀ ending resumption, ¬admits ending resumption)
    (hfails : (∃ ending, (runIteration env config key world).1 = .error ending) ∨
      config.blocksPerIteration.toUInt64 = 0)
    (hreached : Reached env config key admits world status after) :
    status = none → after.watcher = world.watcher := by
  rcases hfails with ⟨ending, herror⟩ | hbatch
  · suffices hstart : status = none → after = world from fun hnone => by rw [hstart hnone]
    induction hreached with
    | start => exact fun _ => rfl
    | @iterate before after count _ hrun ih =>
      rw [ih rfl] at hrun
      rw [hrun] at herror
      cases herror
    | halt => exact fun hnone => by cases hnone
    | retry _ hadmits | restart _ hadmits => exact absurd hadmits (hnever _ _)
  · induction hreached with
    | start => exact fun _ => rfl
    | @iterate before after count _ hrun ih =>
      intro _
      have hidle := @runIteration_idle env config key before hbatch
      rw [hrun] at hidle
      exact hidle.trans (ih rfl)
    | halt => exact fun hnone => by cases hnone
    | retry _ hadmits | restart _ hadmits => exact absurd hadmits (hnever _ _)

theorem not_absorbs_of_window {cut : ℕ → Prop} {height fork : ℕ}
    (hwindow : WindowAt old cut world.watcher) (hne : world.watcher.reorgWindow.buffer ≠ [])
    (hheight : finished world.watcher.lastConfirmedBlock = height + 1)
    (hdiffers : new.hash height ≠ old.hash height)
    (hworks : later.WorksFrom new newHead world.clock)
    (hconfirmed : height + 1 < confirmedBlocks config (newHead world.clock)) :
    ¬Absorbs later config key new fork (newHead world.clock) world := by
  rintro ⟨after, hreached, hfinished, _⟩
  have hdepth : ¬newHead world.clock < config.confirmationDepth.toUInt64 := by
    intro hlt
    rw [confirmedBlocks, if_pos hlt] at hconfirmed
    exact Nat.not_lt_zero _ hconfirmed
  have hfails : (∃ ending, (runIteration later config key world).1 =
      .error ending) ∨ config.blocksPerIteration.toUInt64 = 0 := by
    by_cases hbatch : config.blocksPerIteration.toUInt64 = 0
    · exact .inr hbatch
    · left
      have hblocks := hconfirmed
      rw [confirmedBlocks, if_neg hdepth] at hblocks
      generalize hhead : newHead world.clock - config.confirmationDepth.toUInt64 = confirmedHead
        at hblocks
      have hbound := confirmedHead.toNat_lt
      have hnumber : (UInt64.ofNat (height + 1)).toNat = height + 1 :=
        UInt64.toNat_ofNat_of_lt' (show height + 1 < 2 ^ 64 by omega)
      have hstart : startBlock world.watcher.lastConfirmedBlock = UInt64.ofNat (height + 1) :=
        startBlock_of_finished (hheight.trans hnumber.symm)
      have hdue : UInt64.ofNat (height + 1) ≤ confirmedHead := by
        rw [UInt64.le_iff_toNat_le, hnumber]
        omega
      obtain ⟨rest, hfirst, _⟩ := @absorbUpTo_first new config key world.watcher
        _ confirmedHead hstart hdue hbatch
      obtain ⟨ending, hblock⟩ := @absorbBlock_foreign old new config key cut
        world.watcher height _ hwindow hne hnumber hdiffers
      obtain ⟨_, hrun⟩ := mirrors_runIteration hworks config key rfl hdepth
      rw [hhead, hfirst, Fallible.run_bind_error hblock] at hrun
      exact ⟨ending, (congrArg Prod.fst hrun).symm⟩
  rw [hreached.watcher_eq (fun _ _ h => h) hfails rfl, hheight] at hfinished
  omega

/-- No re-org of processed blocks is absorbed, however shallow. -/
theorem not_absorbs_reorg {watcher : Watcher}
    {admits : Ending → Resumption → Prop} {status : Option Ending} (hserves : env.Serves old head)
    (hnew : Watcher.new config [] = .ok watcher)
    (hreached : Reached env config key admits (.fresh watcher) status world) {height count : ℕ}
    (hheight : finished world.watcher.lastConfirmedBlock = height + 1) (hcount : 0 < count)
    (hshallow : count < world.watcher.reorgWindow.buffer.length)
    (hreplaces : Replaces old new height count) (hworks : later.WorksFrom new newHead world.clock)
    (hconfirmed : height + 1 < confirmedBlocks config (newHead world.clock)) :
    ¬Absorbs later config key new (height + 1 - count) (newHead world.clock)
      world := by
  have hwindow := hreached.windowAt (fun _ _ => True) hserves
    (fun _ _ _ _ => trivial) (fun _ _ _ _ h => h) hnew
  have hne : world.watcher.reorgWindow.buffer ≠ [] := by
    intro hempty
    rw [hempty] at hshallow
    exact Nat.not_lt_zero _ hshallow
  exact not_absorbs_of_window hwindow hne hheight
    (hreplaces.differs height le_rfl (Nat.lt_add_of_pos_right hcount)) hworks hconfirmed

end Reorgs

/-! ## The second of two blocks is replaced -/

def quietEnv (fork : ℕ) (height : UInt64) : Environment := .ideal (quietChain fork) fun _ => height

def twoBlocksWorld : World :=
  (runIteration (quietEnv 2 1) quietConfig constantKey
    (runIteration (quietEnv 2 1) quietConfig constantKey (.fresh quietWatcher)).2).2

theorem reached_twoBlocksWorld : Reached (quietEnv 2 1) quietConfig constantKey restarting
      (.fresh quietWatcher) none twoBlocksWorld := by
  have hfirst : (runIteration (quietEnv 2 1) quietConfig constantKey
      (.fresh quietWatcher)).1 = .ok 1 := by
    with_unfolding_all rfl
  have hsecond : (runIteration (quietEnv 2 1) quietConfig constantKey
      (runIteration (quietEnv 2 1) quietConfig constantKey (.fresh quietWatcher)).2).1 = .ok 1 := by
    with_unfolding_all rfl
  exact .iterate (.iterate .start (Prod.ext hfirst rfl)) (Prod.ext hsecond rfl)

theorem finished_twoBlocksWorld : finished twoBlocksWorld.watcher.lastConfirmedBlock = 1 + 1 := by
  with_unfolding_all rfl

theorem length_twoBlocksWorld : twoBlocksWorld.watcher.reorgWindow.buffer.length = 2 := by
  with_unfolding_all rfl

theorem hash_quiet_ne : (quietChain 1).hash 1 ≠ (quietChain 2).hash 1 := by
  decide

theorem replaces_quiet : Replaces (quietChain 2) (quietChain 1) 1 1 where
  agrees n hn := by
    obtain rfl : n = 0 := by omega
    rfl
  differs n hle hlt := by
    obtain rfl : n = 1 := by omega
    exact hash_quiet_ne

theorem serves_quiet (fork : ℕ) (height : UInt64) :
    (quietEnv fork height).Serves (quietChain fork) fun _ => height := serves_of_source fun _ => rfl

theorem works_quiet (fork : ℕ) (height : UInt64) (start : ℕ) :
    (quietEnv fork height).WorksFrom (quietChain fork) (fun _ => height) start :=
  works_ideal fun _ _ => UInt64.le_refl height

theorem not_absorbs_second_block :
    ¬Absorbs (quietEnv 1 2) quietConfig constantKey (quietChain 1) 1 2
      twoBlocksWorld :=
  not_absorbs_reorg (serves_quiet 2 1) new_quiet reached_twoBlocksWorld
    finished_twoBlocksWorld Nat.one_pos (by rw [length_twoBlocksWorld]; decide) replaces_quiet
    (works_quiet 1 2 _) (by decide)

/-- A re-org of depth one, with two headers in the window. -/
theorem exists_shallow_reorg_not_absorbed :
    ∃ world, Reached (quietEnv 2 1) quietConfig constantKey restarting
        (.fresh quietWatcher) none world ∧ finished world.watcher.lastConfirmedBlock = 2 ∧
      1 < world.watcher.reorgWindow.buffer.length ∧ Replaces (quietChain 2) (quietChain 1) 1 1 ∧
      (quietEnv 1 2).WorksFrom (quietChain 1) (fun _ => 2) world.clock ∧
      2 < confirmedBlocks quietConfig 2 ∧
      ¬Absorbs (quietEnv 1 2) quietConfig constantKey (quietChain 1) 1 2
        world := by
  have hwindow := reached_twoBlocksWorld.windowAt (fun _ _ => True)
    (serves_quiet 2 1) (fun _ _ _ _ => trivial) (fun _ _ _ _ h => h) new_quiet
  have hlength : 1 < twoBlocksWorld.watcher.reorgWindow.buffer.length := by
    rw [length_twoBlocksWorld]
    decide
  have hne : twoBlocksWorld.watcher.reorgWindow.buffer ≠ [] :=
    List.ne_nil_of_length_pos (Nat.zero_lt_of_lt hlength)
  exact ⟨twoBlocksWorld, reached_twoBlocksWorld, finished_twoBlocksWorld,
    hlength, replaces_quiet, works_quiet 1 2 _, by decide,
    not_absorbs_of_window hwindow hne finished_twoBlocksWorld hash_quiet_ne
      (works_quiet 1 2 _) (by decide)⟩

end Ingest
end Canon
