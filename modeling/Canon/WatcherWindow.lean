import Canon.IngestGuarantees

/-!
# The window of a running watcher

Over a stable chain the window ends with the last confirmed block, or with the block after
it when an error has cut off its iteration.
-/

namespace Canon
namespace Ingest

/-- The window ends with the last confirmed block, or with a block which was cut off. -/
def WindowAt (chain : Chain) (cut : ℕ → Prop) (watcher : Watcher) : Prop :=
  watcher.reorgWindow.buffer = [] ∨ ∃ newest < 2 ^ 64, chain.Tracks watcher.reorgWindow newest ∧
    (newest + 1 = finished watcher.lastConfirmedBlock ∨
      newest = finished watcher.lastConfirmedBlock ∧ cut newest)

theorem startBlock_toNat (last : Option UInt64) :
    (startBlock last).toNat = min (finished last) (2 ^ 64 - 1) := by
  cases last with
  | none => rfl
  | some last =>
    have hbound := last.toNat_lt
    by_cases hmax : last = UInt64.ofNat (2 ^ 64 - 1)
    · have hnat : last.toNat = 2 ^ 64 - 1 := by rw [hmax]; rfl
      rw [startBlock, if_pos hmax, finished]
      omega
    · have hne : last.toNat ≠ 2 ^ 64 - 1 := fun heq =>
        hmax (UInt64.toNat_inj.mp (heq.trans rfl))
      rw [startBlock, if_neg hmax, finished, UInt64.toNat_add,
        UInt64.toNat_one, Nat.mod_eq_of_lt (by omega)]
      omega

section Window

variable {env : Environment} {chain : Chain} {config : WatcherConfig}
  {key : BridgeActorKey} {cut wider : ℕ → Prop} {watcher : Watcher}

theorem WindowAt.mono (hwider : ∀ n, cut n → wider n) (hwindow : WindowAt chain cut watcher) :
    WindowAt chain wider watcher := by
  rcases hwindow with hempty | ⟨newest, hbound, htracks, hlast | hlast⟩
  · exact .inl hempty
  · exact .inr ⟨newest, hbound, htracks, .inl hlast⟩
  · exact .inr ⟨newest, hbound, htracks, .inr ⟨hlast.1, hwider _ hlast.2⟩⟩

variable (chain) in
structure Entered (number : UInt64) (watcher : Watcher) : Prop where
  tracks : chain.Tracks watcher.reorgWindow number.toNat
  next : number = startBlock watcher.lastConfirmedBlock

theorem Entered.windowAt {number : UInt64} (hentered : Entered chain number watcher)
    (hcut : cut number.toNat) : WindowAt chain cut watcher := by
  have hnumber := startBlock_toNat watcher.lastConfirmedBlock
  have hbound := number.toNat_lt
  rw [← hentered.next] at hnumber
  refine .inr ⟨number.toNat, hbound, hentered.tracks, ?_⟩
  by_cases hmax : finished watcher.lastConfirmedBlock < 2 ^ 64
  · exact .inr ⟨by omega, hcut⟩
  · left
    have hle : finished watcher.lastConfirmedBlock ≤ 2 ^ 64 := by
      cases watcher.lastConfirmedBlock with
      | none => exact Nat.zero_le _
      | some last => exact last.toNat_lt
    omega

theorem routine_watcher {property : Watcher → Prop}
    (hproperty : ∀ watcher other : Watcher, other.reorgWindow = watcher.reorgWindow →
      other.lastConfirmedBlock = watcher.lastConfirmedBlock → property watcher → property other) :
    Routine fun world => property world.watcher where
  tick _ hworld := hworld
  addRecord _ _ hworld := hworld
  addSubmission _ _ hworld := hworld
  mapWatcher world _ hchange hworld := hproperty world.watcher _ (hchange _).1 (hchange _).2 hworld

theorem routine_entered (number : UInt64) :
    Routine fun world => Entered chain number world.watcher := by
  apply routine_watcher
  intro watcher other hwindow hlast hentered
  exact ⟨by rw [hwindow]; exact hentered.tracks, by rw [hlast]; exact hentered.next⟩

theorem advance_newest {window : ReorgWindow} {newest : ℕ}
    (hbound : newest < 2 ^ 64) (htracks : chain.Tracks window newest) :
    if 2 ≤ window.buffer.length then
      ∃ outcome, window.advance (chain.header newest) = .ok (outcome, window)
    else
      window.advance (chain.header newest) =
        .error (.deepReorg (UInt64.ofNat newest) (UInt64.ofNat newest)) := by
  obtain ⟨oldest, count, rfl, hbuffer⟩ := htracks
  have hlength : window.buffer.length = count + 1 := by
    rw [hbuffer, HeaderChain.span_length]
  cases count with
  | zero =>
    rw [if_neg (by omega)]
    apply HeaderChain.advance_alone
    rw [hbuffer, HeaderChain.span_concat]
    rfl
  | succ =>
    rw [if_pos (by omega)]
    exact HeaderChain.advance_again hbuffer hbound

theorem ensures_advanceWindow_next (number : UInt64) : Fallible.Ensures
      (fun world => WindowAt chain cut world.watcher ∧
        number = startBlock world.watcher.lastConfirmedBlock)
      (advanceWindow (chain.header number.toNat))
      (fun _ world => Entered chain number world.watcher)
      (fun _ world => WindowAt chain cut world.watcher) := by
  rintro world ⟨hwindow, hnext⟩
  have hnumber := startBlock_toNat world.watcher.lastConfirmedBlock
  rw [← hnext] at hnumber
  rcases hwindow with hempty | ⟨newest, hbound, htracks, hlast⟩
  · simp only [advanceWindow, if_pos hempty]
    exact ⟨HeaderChain.tracks_seed _ _, hnext⟩
  · have hne := htracks.ne_nil
    simp only [advanceWindow, if_neg hne]
    by_cases hsame : number.toNat = newest
    · have hnewest := advance_newest hbound htracks
      by_cases htwo : 2 ≤ world.watcher.reorgWindow.buffer.length
      · rw [if_pos htwo, ← hsame] at hnewest
        obtain ⟨outcome, hadvance⟩ := hnewest
        rw [hadvance]
        exact ⟨hsame ▸ htracks, hnext⟩
      · rw [if_neg htwo, ← hsame] at hnewest
        rw [hnewest]
        exact .inr ⟨newest, hbound, htracks, hlast⟩
    · have hsucc : number.toNat = newest + 1 := by omega
      obtain ⟨hadvance, hafter⟩ := htracks.advance_next (by omega)
      rw [hsucc, hadvance]
      exact ⟨hsucc ▸ hafter, hnext⟩

section Serving

variable {head : ℕ → UInt64} (hserves : env.Serves chain head)
include hserves

theorem ensures_confirmBlock_window (number : UInt64)
    (hwider : ∀ n, cut n → wider n) (hnumber : wider number.toNat) :
    Fallible.Ensures
      (fun world => WindowAt chain cut world.watcher ∧
        number = startBlock world.watcher.lastConfirmedBlock) (confirmBlock env config key number)
      (fun _ world => WindowAt chain cut world.watcher ∧
        world.watcher.lastConfirmedBlock = some number)
      (fun _ world => WindowAt chain wider world.watcher) := by
  have hroutine : Routine fun world => Entered chain number world.watcher := routine_entered number
  have hhalt : ∀ (ending : Ending) (world : World), Entered chain number world.watcher →
      WindowAt chain wider world.watcher := fun _ world hentered => hentered.windowAt hnumber
  have hblock : Fallible.Ensures
      (fun world => WindowAt chain cut world.watcher ∧
        number = startBlock world.watcher.lastConfirmedBlock) (processBlock env config key number)
      (fun _ world => Entered chain number world.watcher)
      (fun _ world => WindowAt chain wider world.watcher) := by
    refine .bind (ensures_callSource _ (fun _ h => h)
      (fun _ world h _ => h.1.mono hwider)) fun header => ?_
    rintro world ⟨hpre, time, hheader⟩
    obtain rfl := hserves.headers _ _ _ hheader
    refine Fallible.Ensures.bind ((ensures_advanceWindow_next number).weaken
      (fun _ h => h) (fun _ _ h => h) (fun _ _ h => h.mono hwider)) (fun _ => ?_) world hpre
    refine .bind (.of_keeps (keeps_fetchLogs hroutine _) hhalt) fun logs => ?_
    exact .of_keeps (.forM _ fun log _ => keeps_processLog hroutine _ log) hhalt
  refine hblock.bind fun _ => ?_
  refine .bind (.of_keeps (keeps_append hroutine _) hhalt) fun _ => ?_
  apply Fallible.Ensures.modify
  intro world hentered
  exact ⟨.inr ⟨number.toNat, number.toNat_lt, hentered.tracks, .inl rfl⟩, rfl⟩

omit hserves in
theorem startBlock_some_add {start : UInt64} {i : ℕ} (hbound : start.toNat + (i + 1) < 2 ^ 64) :
    start + UInt64.ofNat (i + 1) = startBlock (some (start + UInt64.ofNat i)) := by
  have hat : ∀ j, start.toNat + j < 2 ^ 64 → (start + UInt64.ofNat j).toNat = start.toNat + j := by
    intro j hj
    rw [UInt64.toNat_add, UInt64.toNat_ofNat_of_lt' (show j < 2 ^ 64 by omega), Nat.mod_eq_of_lt hj]
  apply UInt64.toNat_inj.mp
  rw [startBlock_toNat, hat _ hbound, finished, hat _ (by omega)]
  omega

theorem ensures_confirmBlocks_window {count : ℕ} {start : UInt64}
    (result : UInt64) (hbound : start.toNat + count ≤ 2 ^ 64) (hwider : ∀ n, cut n → wider n)
    (hcut : ∀ i < count, wider (start.toNat + i)) :
    Fallible.Ensures
      (fun world => WindowAt chain cut world.watcher ∧
        start = startBlock world.watcher.lastConfirmedBlock)
      (do
        (List.range count).forM fun i =>
          confirmBlock env config key (start + UInt64.ofNat i)
        return result)
      (fun _ world => WindowAt chain cut world.watcher)
      (fun _ world => WindowAt chain wider world.watcher) := by
  have hloop := @Fallible.Ensures.forM_range Ending World
    (fun _ world => WindowAt chain wider world.watcher)
    (fun i => confirmBlock env config key (start + UInt64.ofNat i)) count
    (fun i world => WindowAt chain cut world.watcher ∧
      (i < count → start + UInt64.ofNat i = startBlock world.watcher.lastConfirmedBlock)) ?_
  · refine (hloop.bind fun _ => .pure fun _ h => h.1).weaken ?_ (fun _ _ h => h) (fun _ _ h => h)
    rintro world ⟨hwindow, hstart⟩
    refine ⟨hwindow, fun _ => ?_⟩
    rw [← hstart]
    exact UInt64.add_zero start
  · intro i hi
    have hnat : (start + UInt64.ofNat i).toNat = start.toNat + i := by
      rw [UInt64.toNat_add, UInt64.toNat_ofNat_of_lt'
        (show i < 2 ^ 64 by omega), Nat.mod_eq_of_lt (by omega)]
    refine (ensures_confirmBlock_window hserves _ hwider
      (by rw [hnat]; exact hcut i hi)).weaken ?_ ?_ (fun _ _ h => h)
    · rintro world ⟨hwindow, hnext⟩
      exact ⟨hwindow, hnext hi⟩
    · rintro _ world ⟨hwindow, hlast⟩
      refine ⟨hwindow, fun hnext => ?_⟩
      rw [hlast]
      exact startBlock_some_add (by omega)

theorem ensures_runIteration_window (time : ℕ) (hwider : ∀ n, cut n → wider n)
    (hcut : config.blocksPerIteration.toUInt64 ≠ 0 →
      ∀ n < confirmedBlocks config (head time), wider n) :
    Fallible.Ensures (fun world => world.clock = time ∧ WindowAt chain cut world.watcher)
      (runIteration env config key) (fun _ world => WindowAt chain cut world.watcher)
      (fun _ world => WindowAt chain wider world.watcher) := by
  rintro world ⟨rfl, hwindow⟩
  rw [runIteration, Fallible.run_bind]
  rcases callSource_cases env (·.latestBlockNumber) world with
    ⟨number, hask, hrun⟩ | ⟨ending, _, hrun⟩
  · have hnumber := hserves.latest _ _ hask
    subst hnumber
    rw [hrun]
    by_cases hdepth : head world.clock < config.confirmationDepth.toUInt64
    · simp only [if_pos hdepth]
      exact hwindow
    · simp only [if_neg hdepth, confirmUpTo, Fallible.run_get_bind]
      have hblocks : confirmedBlocks config (head world.clock) =
          (head world.clock - config.confirmationDepth.toUInt64).toNat + 1 := if_neg hdepth
      generalize head world.clock - config.confirmationDepth.toUInt64 = confirmedHead at hblocks ⊢
      generalize hstart : startBlock world.tick.watcher.lastConfirmedBlock = start
      by_cases hbehind : confirmedHead < start
      · simp only [if_pos hbehind]
        exact hwindow
      · by_cases hbatch : config.blocksPerIteration.toUInt64 = 0
        · simp only [if_neg hbehind, if_pos hbatch]
          exact hwindow
        · simp only [if_neg hbehind, if_neg hbatch]
          have hcount := batch_le config.blocksPerIteration.toUInt64 hbehind
          have hhead := confirmedHead.toNat_lt
          exact ensures_confirmBlocks_window hserves _ (by omega) hwider
            (fun i hi => hcut hbatch _ (by omega)) world.tick ⟨hwindow, hstart.symm⟩
  · rw [hrun]
    exact hwindow.mono hwider

end Serving

/-! ## Sessions -/

section Sessions

variable {head : ℕ → UInt64} {watcher : Watcher} {first world : World}
  {admits : Ending → Resumption → Prop} {status : Option Ending}

def Due (config : WatcherConfig) (head : UInt64) (n : ℕ) : Prop :=
  config.blocksPerIteration.toUInt64 ≠ 0 ∧ n < confirmedBlocks config head

theorem windowAt_new {file : List StateRecord} (hnew : Watcher.new config file = .ok watcher) :
    WindowAt chain cut watcher := by
  obtain ⟨_, _, hwindow⟩ := Watcher.new_eq_ok.mp hnew
  left
  rw [hwindow]
  rfl

theorem Reached.windowAt (cutAt : ℕ → ℕ → Prop) (hserves : env.Serves chain head)
    (hcut : ∀ time, config.blocksPerIteration.toUInt64 ≠ 0 →
      ∀ n < confirmedBlocks config (head time), cutAt time n)
    (hmono : ∀ time later, time ≤ later → ∀ n, cutAt time n → cutAt later n)
    (hnew : Watcher.new config [] = .ok watcher)
    (hreached : Reached env config key admits (.fresh watcher) status world) :
    WindowAt chain (cutAt world.clock) world.watcher := by
  have hstep : ∀ time, Fallible.Ensures
      (fun world => world.clock = time ∧ WindowAt chain (cutAt time) world.watcher)
      (runIteration env config key) (fun _ world => WindowAt chain (cutAt time) world.watcher)
      (fun _ world => WindowAt chain (cutAt time) world.watcher) :=
    fun time => ensures_runIteration_window hserves time (fun _ h => h) (hcut time)
  induction hreached with
  | start => exact windowAt_new hnew
  | @iterate before after _ _ hrun ih =>
    exact ((hstep before.clock).of_ok ⟨rfl, ih⟩ hrun).mono (hmono _ _ (clock_le_of_run hrun))
  | @halt before after _ _ hrun ih =>
    exact ((hstep before.clock).of_error ⟨rfl, ih⟩ hrun).mono (hmono _ _ (clock_le_of_run hrun))
  | retry _ _ ih => exact ih
  | restart _ _ hrestart => exact windowAt_new hrestart

end Sessions

end Window

end Ingest
end Canon
