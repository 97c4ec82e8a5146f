import Canon.FaultProofSettlement

/-!
# Progress of the bisection

The invariant `Bisecting` bounds the range by `(high - low - 1) * 2 ^ depth < range`,
which is the ceiling of the halved initial range without a division: a response
halves what is left above a single step, and needs a range of two at least.
-/

namespace Canon
namespace FaultProof

open Function

/-- A game which was opened on `range` steps and has been `first` at some time. -/
structure Bisecting (range : ℕ) (first game : Game) : Prop where
  range_lt : range < 2 ^ 64
  nonempty : game.low.idx.toNat < game.high.idx.toNat
  midpoint : game.hasPendingMidpoint = true →
    game.low.idx.toNat + 1 < game.high.idx.toNat ∧
      game.pendingMidpoint.idx.toNat = (game.low.idx.toNat + game.high.idx.toNat) / 2
  halved : (game.high.idx.toNat - game.low.idx.toNat - 1) * 2 ^ game.depth.toNat < range
  depth_le : game.depth.toNat ≤ 64
  low_le : first.low.idx ≤ game.low.idx
  le_high : game.high.idx ≤ first.high.idx

theorem toNat_midpoint {low high : UInt64} (hlt : low.toNat + high.toNat < 2 ^ 64) :
    ((low + high) / 2).toNat = (low.toNat + high.toNat) / 2 := by
  simp only [UInt64.toNat_div, UInt64.toNat_add, UInt64.reduceToNat, Nat.mod_eq_of_lt hlt]

theorem toNat_succ_depth {depth : UInt64} (hlt : depth.toNat < 64) :
    (depth + 1).toNat = depth.toNat + 1 := by
  simp only [UInt64.toNat_add, UInt64.reduceToNat]
  omega

section Steps

variable {deployment : Deployment} {context : CallContext} {state next : State} {gameId range : ℕ}
  {first game : Game}

theorem Bisecting.restart (hinv : Bisecting range first game) : Bisecting range game game :=
  { hinv with low_le := UInt64.le_refl _, le_high := UInt64.le_refl _ }

theorem Bisecting.of_ended {status : GameStatus} {bond : ℕ} (hinv : Bisecting range first game) :
    Bisecting range first { game with status := status, sequencerBond := bond } :=
  { hinv with }

theorem Bisecting.submitMidpoint {midpointCommit : Bytes32}
    (hcall : submitMidpoint deployment context state gameId midpointCommit = .ok next)
    (hinv : Bisecting range first (state.game.games gameId)) :
    Bisecting range first (next.game.games gameId) := by
  simp only [FaultProof.submitMidpoint, bind_eq_ok, revertIf_eq_ok, exists_const,
    checkedAdd64_eq_ok, pure_eq_ok] at hcall
  obtain ⟨⟨⟩, _, sum, ⟨hlt, hsum⟩, hrange, turnDeadline, _, hnext⟩ := hcall
  subst hsum hnext
  simp only [State.setGame, update_self]
  generalize state.game.games gameId = game at *
  rw [not_or, UInt64.not_le, UInt64.not_le, UInt64.lt_iff_toNat_lt, UInt64.lt_iff_toNat_lt,
    toNat_midpoint hlt] at hrange
  have hwide : game.low.idx.toNat + 1 < game.high.idx.toNat := by omega
  exact { hinv with midpoint := fun _ => ⟨hwide, toNat_midpoint hlt⟩ }

/-- While a midpoint is pending the depth is below the cap. -/
theorem Bisecting.depth_lt (hinv : Bisecting range first game)
    (hpending : game.hasPendingMidpoint = true) : game.depth.toNat < 64 := by
  obtain ⟨hwide, _⟩ := hinv.midpoint hpending
  have hpow : 2 ^ game.depth.toNat < 2 ^ 64 :=
    calc 2 ^ game.depth.toNat
        ≤ (game.high.idx.toNat - game.low.idx.toNat - 1) * 2 ^ game.depth.toNat :=
          Nat.le_mul_of_pos_left _ (by omega)
      _ < range := hinv.halved
      _ < 2 ^ 64 := hinv.range_lt
  exact (Nat.pow_lt_pow_iff_right (by omega)).mp hpow

theorem Bisecting.respondToMidpoint {agree : Bool}
    (hcall : respondToMidpoint deployment context state gameId agree = .ok next)
    (hinv : Bisecting range first (state.game.games gameId)) :
    Bisecting range first (next.game.games gameId) := by
  simp only [FaultProof.respondToMidpoint, bind_eq_ok, revertIf_eq_ok, exists_const,
    checkedAdd64_eq_ok, pure_eq_ok] at hcall
  obtain ⟨⟨⟩, hcheck, depth, ⟨_, hdepth⟩, _, turnDeadline, _, hnext⟩ := hcall
  obtain ⟨_, hpending⟩ := checkMove_effect hcheck
  subst hnext
  simp only [State.setGame, update_self]
  generalize state.game.games gameId = game at *
  obtain ⟨hwide, hmid⟩ := hinv.midpoint hpending
  have hlt := hinv.depth_lt hpending
  have hdeeper := toNat_succ_depth hlt
  have hlow := UInt64.le_iff_toNat_le.mp hinv.low_le
  have hhigh := UInt64.le_iff_toNat_le.mp hinv.le_high
  rw [hdepth] at hdeeper
  -- the kept half has at most half of the steps above one
  have hshrink : ∀ kept, 2 * kept ≤ game.high.idx.toNat - game.low.idx.toNat - 1 →
      kept * 2 ^ depth.toNat < range := by
    intro kept hkept
    calc kept * 2 ^ depth.toNat = 2 * kept * 2 ^ game.depth.toNat := by rw [hdeeper, pow_succ]; ring
      _ ≤ _ := Nat.mul_le_mul_right _ hkept
      _ < range := hinv.halved
  cases agree <;>
    exact ⟨hinv.range_lt, by simp; omega, by simp, hshrink _ (by simp; omega), by simp; omega,
      UInt64.le_iff_toNat_le.mpr (by simp; omega), UInt64.le_iff_toNat_le.mpr (by simp; omega)⟩

theorem Bisecting.moved {moved : ℕ} {played : Game} (hmoved : Moved state next moved played)
    (hsame : gameId = moved → Bisecting range first (next.game.games gameId))
    (hinv : Bisecting range first (state.game.games gameId)) :
    next.game.nextGameId = state.game.nextGameId ∧
      Bisecting range first (next.game.games gameId) := by
  refine ⟨by rw [hmoved.next_eq]; rfl, ?_⟩
  by_cases hid : gameId = moved
  · exact hsame hid
  · rw [hmoved.next_eq]
    simpa only [State.setGame, update_of_ne hid] using hinv

theorem Bisecting.settled {ended : ℕ} {finalStatus : GameStatus}
    (hsettled : Settled state next ended finalStatus)
    (hinv : Bisecting range first (state.game.games gameId)) :
    next.game.nextGameId = state.game.nextGameId ∧
      Bisecting range first (next.game.games gameId) := by
  obtain ⟨bond, hgames⟩ := hsettled.games
  refine ⟨hsettled.nextGameId, ?_⟩
  rw [hgames]
  by_cases hid : gameId = ended
  · subst hid
    rw [update_self]
    exact hinv.of_ended
  · rwa [update_of_ne hid]

theorem Bisecting.callGame {call : GameCall}
    (hcall : callGame deployment context state call = .ok next)
    (hid : gameId ≤ state.game.nextGameId)
    (hinv : Bisecting range first (state.game.games gameId)) :
    state.game.nextGameId ≤ next.game.nextGameId ∧
      Bisecting range first (next.game.games gameId) := by
  cases call with
  | initiateChallenge =>
    have hopened := initiateChallenge_effect hcall
    obtain ⟨turnDeadline, hgames⟩ := hopened.games
    rw [hopened.nextGameId, hgames, update_of_ne (by omega)]
    exact ⟨by omega, hinv⟩
  | submitMidpoint moved =>
    obtain ⟨played, hmoved⟩ := submitMidpoint_effect hcall
    exact (hinv.moved hmoved fun hsame => .submitMidpoint (hsame ▸ hcall) hinv).imp_left Eq.ge
  | respondToMidpoint moved =>
    obtain ⟨played, hmoved⟩ := respondToMidpoint_effect hcall
    exact (hinv.moved hmoved fun hsame => .respondToMidpoint (hsame ▸ hcall) hinv).imp_left Eq.ge
  | terminateOnSingleStep =>
    obtain ⟨_, _, _, _, _, hsettled⟩ := terminateOnSingleStep_effect hcall
    exact (hinv.settled hsettled).imp_left Eq.ge
  | claimTimeout =>
    exact (hinv.settled (claimTimeout_effect hcall).2).imp_left Eq.ge

theorem Bisecting.step {call : SystemCall} (hstep : systemStep deployment state call = .ok next)
    (hinv : gameId ≤ state.game.nextGameId ∧ Bisecting range first (state.game.games gameId)) :
    gameId ≤ next.game.nextGameId ∧ Bisecting range first (next.game.games gameId) := by
  cases call with
  | game =>
    obtain ⟨hle, hafter⟩ := hinv.2.callGame (mapError_eq_ok.mp hstep) hinv.1
    exact ⟨hinv.1.trans hle, hafter⟩
  | _ =>
    obtain ⟨hgames, hnextId⟩ := systemStep_games hstep (by simp)
    rwa [hgames, hnextId]

theorem Bisecting.reachable (hreach : Reachable (systemStep deployment) state next)
    (hid : gameId ≤ state.game.nextGameId)
    (hinv : Bisecting range first (state.game.games gameId)) :
    gameId ≤ next.game.nextGameId ∧ Bisecting range first (next.game.games gameId) :=
  hreach.invariant (fun _ _ _ hstep hkept => Bisecting.step hstep hkept) (And.intro hid hinv)

theorem Bisecting.opened {disputedLogIndex lowLogIndex : UInt64} {lowCommit : Bytes32}
    (hopened : Opened deployment context state next disputedLogIndex lowCommit lowLogIndex) :
    Bisecting (disputedLogIndex.toNat - lowLogIndex.toNat)
      (next.game.games next.game.nextGameId) (next.game.games next.game.nextGameId) := by
  obtain ⟨turnDeadline, hgames⟩ := hopened.games
  have hlow := hopened.low_lt
  have hhigh := disputedLogIndex.toNat_lt
  rw [UInt64.lt_iff_toNat_lt] at hlow
  rw [hopened.nextGameId, hgames, update_self]
  constructor <;> simp [openedGame] <;> omega

end Steps

end FaultProof
end Canon
