import Canon.EventSchedules

/-!
# Overflowing queues

Two runs of the event server.  With a positive lag limit the queue of a subscriber
overflows once, and the next event is accepted again.  With the lag limit zero the
overflow evicts the subscriber, but its thread has not asked the cache yet and is
still answered.
-/

namespace Canon
namespace EventStream

open Sequenced List

/-! ## A tolerated overflow -/

section Overflow

variable {α : Type} {log : ℕ → List α} {config : ServerConfig}
  {state : ServerState α} {conn : Connection α}

theorem ServerState.Hosts.lose {events : List (CachedEvent α)} {lost : CachedEvent α}
    (hhosts : state.Hosts config log conn)
    (hextractor : state.extractor = .checking) (hidle : conn.Idle)
    (hjoined : conn.history.joinedAt.isSome = true) (hlag : 0 < config.lagLimit)
    (hevents : batch log (state.read + 1) = events) (hfull : events.length = config.queueDepth)
    (hlost : batch log (state.read + 2) = [lost]) :
    ∃ next last, ServerState.Hosts config log last next ∧
      next.read = state.read + 2 ∧ next.extractor = .checking ∧
      conn.Served ((events.map fun event => (event, .enqueued)) ++ [(lost, .lagging 1)]) last := by
  obtain ⟨_, full, hhostsFull, hread, hchecking, haccepts, hunasked⟩ :=
    hhosts.fill hextractor hidle hevents (Nat.le_of_eq hfull)
  have hphase : full.phase = .looping [] := haccepts.phase.trans hidle.phase
  have hfullJoined : full.history.joinedAt.isSome = true := by
    rw [haccepts.joinedAt]
    exact hjoined
  have hqueue : ¬full.queue.length < config.queueDepth := by
    rw [haccepts.queue, hidle.queue, nil_append, length_map, hfull]
    exact Nat.lt_irrefl _
  have hfullLag : full.lag = 0 := by
    refine haccepts.lag ?_
    rintro rfl
    have hpositive := config.queueDepth_pos
    rw [← hfull] at hpositive
    exact Nat.lt_irrefl 0 hpositive
  have hdropped : full.receiverDropped = false := by
    rw [Connection.receiverDropped, hphase]
  obtain ⟨_, hbehind, hbehindRead, hbehindExtractor⟩ := hhostsFull.frame hchecking
  rw [hread, hlost, foldl_cons, foldl_nil,
    Connection.enqueued_fallBehind hunasked.disconnected hdropped hqueue
      (by rw [hfullLag]; omega)] at hbehind
  obtain ⟨next, last, hlast, hlastRead, hlastExtractor, hkept, hlastIdle,
    hlastJoined⟩ := hbehind.catchUp hphase
      ⟨hunasked.disconnected, hunasked.shutdownRequested, hunasked.sentinel⟩
  have hoffers : (full.fallBehind lost).history.offers =
      full.history.offers ++ [(lost, .lagging 1)] := by
    change (full.history.offer lost (.lagging (full.lag + 1))).offers = _
    rw [History.offers_offer lost _ (History.after_of_isSome hfullJoined), hfullLag]
  refine ⟨next, last, hlast, ?_, hlastExtractor.trans hbehindExtractor,
    hlastIdle, hkept.resumeFrom.trans haccepts.resumeFrom, ?_, ?_, ?_, ?_⟩
  · rw [hlastRead, hbehindRead, hread]
  · exact hkept.since.trans ((full.history.offer_since _ _).trans haccepts.since)
  · exact hkept.before.trans ((History.before_offer _ _ hfullJoined).trans
      (haccepts.before hjoined))
  · exact hlastJoined.trans ((full.history.offer_joinedAt _ _).trans haccepts.joinedAt)
  · rw [hkept.offers, hoffers, haccepts.offers (History.after_of_isSome hjoined), append_assoc]

def overflowLog [Inhabited α] (missed base depth : ℕ) (n : ℕ) : List α :=
  if n = 1 then List.replicate missed default
  else if n = base + 1 then List.replicate depth default
  else if n = base + 2 ∨ n = base + 3 then [default]
  else []

theorem upTo_overflowLog [Inhabited α] (missed depth : ℕ) {base : ℕ} (hbase : 0 < base) :
    (upTo (overflowLog missed base depth : ℕ → List α) base).length =
      missed := by
  have hframes : ∀ n, 1 ≤ n → n ≤ base →
      upTo (overflowLog missed base depth : ℕ → List α) n =
        batch (overflowLog missed base depth) 1 := by
    intro n hn
    induction n, hn using Nat.le_induction with
    | base =>
      intro _
      rw [upTo, upTo, nil_append]
    | succ n hn ih =>
      intro hle
      have hempty : batch (overflowLog missed base depth : ℕ → List α) (n + 1) = [] := by
        have hone : n + 1 ≠ 1 := by omega
        have hfirst : n + 1 ≠ base + 1 := by omega
        have hlater : ¬(n + 1 = base + 2 ∨ n + 1 = base + 3) := by omega
        rw [batch, overflowLog, if_neg hone, if_neg hfirst, if_neg hlater]
        rfl
      rw [upTo, hempty, append_nil, ih (by omega)]
  rw [hframes base hbase (Nat.le_refl base), batch, overflowLog, if_pos rfl,
    length_map, length_replicate]

theorem exists_overflow [Inhabited α] (config : ServerConfig)
    (hlag : 0 < config.maxSubscriberLag) (resumeFrom missed : ℕ) :
    ∃ (log : ℕ → List α) (state : ServerState α) (conn : Connection α) (base : ℕ),
      state.Hosts config log conn ∧ state.read = base + 3 ∧
      resumeFrom ≤ base ∧ (upTo log base).length = missed ∧ conn.resumeFrom = resumeFrom ∧
      conn.history.since = base ∧ conn.history.before = [] ∧
      ⟨base + 2, default⟩ ∈ upTo log (base + 3) ∧
      conn.delivered =
        List.replicate config.queueDepth ⟨base + 1, default⟩ ++ [⟨base + 3, default⟩] := by
  let base := max 1 resumeFrom
  let log : ℕ → List α := overflowLog missed base config.queueDepth
  have hone : 1 ≤ base := Nat.le_max_left _ _
  have hresume : resumeFrom = 0 ∨ base ≤ resumeFrom := by
    omega
  let filling : CachedEvent α := ⟨base + 1, default⟩
  let lost : CachedEvent α := ⟨base + 2, default⟩
  let accepted : CachedEvent α := ⟨base + 3, default⟩
  have hfilling : batch log (base + 1) = List.replicate config.queueDepth filling := by
    have hne : base + 1 ≠ 1 := by omega
    rw [batch, show log (base + 1) = _ from if_neg hne, if_pos rfl, map_replicate]
  have hlost : batch log (base + 2) = [lost] := by
    simp [batch, log, overflowLog, lost]
  have haccepted : batch log (base + 3) = [accepted] := by
    simp [batch, log, overflowLog, accepted]
  have hlimit : 0 < config.lagLimit := Nat.lt_min.mpr ⟨hlag, by decide⟩
  obtain ⟨start, first, hfirst, hfirstRead, hfirstExtractor, hfirstIdle,
    hfirstResume, hfirstSince, hfirstBefore, hfirstOffers, hfirstJoined⟩ :=
    exists_tail_subscriber config log hresume
  have hfirstSome : first.history.joinedAt.isSome = true := by
    rw [hfirstJoined]
    rfl
  obtain ⟨middle, second, hsecond, hsecondRead, hsecondExtractor,
    hlosing⟩ := hfirst.lose hfirstExtractor hfirstIdle hfirstSome hlimit
      (hfirstRead.symm ▸ hfilling) length_replicate (hfirstRead.symm ▸ hlost)
  rw [hfirstRead] at hsecondRead
  obtain ⟨final, last, hlast, hlastRead, _, haccepting⟩ := hsecond.serve
    hsecondExtractor hlosing.idle (hlosing.joinedAt ▸ hfirstSome)
  rw [hsecondRead] at hlastRead haccepting
  rw [haccepted] at haccepting
  have hserved := hlosing.trans haccepting
  have hanswer : last.answer log = [] := by
    refine Connection.answer_eq_nil (hserved.joinedAt.trans hfirstJoined) ?_
    rw [hserved.resumeFrom, hfirstResume]
    exact hresume
  have htracked := hlast.reached.sound.tracked 0 last hlast.found
  refine ⟨log, final, last, base, hlast, hlastRead, Nat.le_max_right _ _,
    upTo_overflowLog missed _ hone, hserved.resumeFrom.trans hfirstResume,
    hserved.since.trans hfirstSince, hserved.before.trans hfirstBefore, ?_, ?_⟩
  · rw [upTo, upTo, hlost]
    simp [lost]
  · have hnothing : acceptedOf [(lost, .lagging 1)] = [] := rfl
    rw [htracked.delivered_liveTail hserved.idle.phase hserved.idle.queue
      hanswer, hserved.offers, hfirstOffers, nil_append,
      acceptedOf_append, acceptedOf_append, hnothing, append_nil,
      acceptedOf_enqueuedAll, acceptedOf_enqueuedAll]

end Overflow

/-! ## An eviction before the answer of the cache -/

section Evicted

variable {α : Type}

def evictionLog [Inhabited α] (depth : ℕ) (n : ℕ) : List α :=
  if n = 1 then List.replicate (depth + 1) default
  else if n = 2 then [default]
  else []

theorem exists_evicted [Inhabited α] (config : ServerConfig) (hlag : config.maxSubscriberLag = 0) :
    ∃ (log : ℕ → List α) (state : ServerState α)
      (conn : Connection α) (earlier later : List (Offer α)) (event : CachedEvent α),
      state.Hosts config log conn ∧ conn.history.since = 0 ∧
      conn.history.offers = earlier ++ (event, .lagExceeded) :: later ∧
      (∀ offer ∈ earlier, offer.1.seq = 1) ∧ conn.delivered = [⟨2, default⟩] := by
  let log : ℕ → List α := evictionLog config.queueDepth
  let refused : CachedEvent α := ⟨1, default⟩
  let second : CachedEvent α := ⟨2, default⟩
  have hfirst : batch log 1 = List.replicate config.queueDepth refused ++ [refused] := by
    rw [batch, show log 1 = _ from if_pos rfl, map_replicate, ← replicate_succ']
  have hsecond : batch log 2 = [second] := by
    simp [batch, log, evictionLog, second]
  obtain ⟨before, hbefore, hread, hchecking⟩ := ServerState.exists_lonely config log 0
  obtain ⟨asking, hasking, haskingRead, haskingExtractor⟩ := hbefore.subscribe 1
  rw [hread] at haskingRead
  rw [hchecking] at haskingExtractor
  -- the first frame fills the queue and evicts the subscriber
  let fresh : Connection α := .new 1 .registered [] before
  let fill := List.replicate config.queueDepth refused
  let full := fill.foldl Connection.accept fresh
  have haccepts : fresh.Accepts fill full := Connection.accepts_foldl fill fresh
  have hqueue : ¬full.queue.length < config.queueDepth := by
    rw [haccepts.queue, length_append, length_map, length_replicate]
    omega
  have hlimit : config.lagLimit < full.lag + 1 := by
    rw [ServerConfig.lagLimit, hlag, Nat.zero_min]
    exact Nat.succ_pos _
  have hdropped : full.receiverDropped = false := by
    rw [Connection.receiverDropped, haccepts.phase]
    rfl
  have hexceed : (batch log 1).foldl (Connection.enqueued config) fresh = full.exceed refused := by
    have hroom : fresh.queue.length + fill.length ≤ config.queueDepth := by
      rw [length_replicate]
      exact Nat.le_of_eq (Nat.zero_add _)
    rw [hfirst, foldl_append, Connection.foldl_enqueued rfl rfl hroom]
    exact Connection.enqueued_exceed haccepts.disconnected hdropped hqueue hlimit
  obtain ⟨evicted, hevicted, hevictedRead, hevictedExtractor⟩ := hasking.frame haskingExtractor
  rw [haskingRead, hexceed] at hevicted
  rw [haskingRead] at hevictedRead
  obtain ⟨closing, hclosing, hclosingRead, hclosingExtractor⟩ := hevicted.frame hevictedExtractor
  rw [hevictedRead, hsecond, foldl_cons, foldl_nil,
    Connection.enqueued_disconnected rfl] at hclosing
  rw [hevictedRead] at hclosingRead
  -- the cache still answers with the second frame
  let last := (full.exceed refused).offer second .disconnected
  have hrange : closing.cache.range last.resumeFrom = .inWindow [second] := by
    have hholds := hclosing.reached.sound.cache
    have hsorted := @upTo_sorted α log closing.read
    rw [hclosingRead, upTo, upTo, upTo, nil_append, hsecond] at hholds hsorted
    have hresume : last.resumeFrom = 1 := haccepts.resumeFrom
    rw [hresume]
    refine hholds.range_newest hsorted ?_ Nat.one_pos rfl
    intro entry hmem
    exact Nat.le_of_eq (seq_of_mem_batch hmem)
  have hlocked : closing.locked = false := by
    rw [ServerState.locked, hclosingExtractor]
  have hasked := @serverStep_backfill α log config closing 0 last true
    hclosing.found haccepts.phase hlocked
  rw [hrange] at hasked
  let answered := last.backfill closing.read (.inWindow [second])
  let written := (answered.deliver second).goTo (.backfilling [])
  have hwritten := @serverStep_advance α log config
    (closing.setConnection 0 answered) 0 answered true written
    (closing.setConnection_found 0 answered) rfl
  rw [ServerState.setConnection_setConnection] at hwritten
  have hruns : closing.ThreadRuns config log 0 (closing.setConnection 0 written) :=
    @Reachable.tail _ _ _ _ _ _ _ ()
      (@Reachable.tail _ _ _ _ _ _ _ () (.refl closing) hasked) hwritten
  have hjoined : full.history.joinedAt = none := haccepts.joinedAt
  have hafter : full.history.after = [] := haccepts.after rfl
  have hexceeded : (full.exceed refused).history.offers =
      full.history.offers ++ [(refused, .lagExceeded)] :=
    History.offers_offer refused .lagExceeded fun _ => hafter
  have hlast : last.history.offers =
      (full.exceed refused).history.offers ++ [(second, .disconnected)] :=
    History.offers_offer second .disconnected fun _ =>
      (full.history.after_offer refused .lagExceeded hjoined).trans hafter
  refine ⟨log, _, written, fill.map fun event => (event, .enqueued),
    [(second, .disconnected)], refused, hclosing.setConnection hruns, ?_, ?_, ?_, ?_⟩
  · have hsnapshots : before.snapshots = 0 := by
      rw [ServerState.snapshots, hchecking]
      exact hread
    change ((full.history.offer refused _).offer second _).since = 0
    rw [History.offer_since, History.offer_since, haccepts.since]
    exact hsnapshots
  · change last.history.offers = _
    rw [hlast, hexceeded, haccepts.offers fun _ => rfl, append_assoc]
    rfl
  · intro offer hoffer
    obtain ⟨event, hevent, rfl⟩ := mem_map.mp hoffer
    rw [eq_of_mem_replicate hevent]
  · change (full.written ++ [OutboundFrame.event second]).filterMap _ = _
    rw [haccepts.written]
    rfl

end Evicted

end EventStream
end Canon
