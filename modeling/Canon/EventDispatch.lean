import Canon.EventOffers

/-!
# The thread of a connection

The thread asks the cache, writes the backfill, drains what the queue has of it a
second time, and dispatches the rest.  Every move keeps the connection tracked.
-/

namespace Canon
namespace EventStream

open Sequenced List

section Thread

variable {α : Type} {log : ℕ → List α} {config : ServerConfig}
  {snapshots : ℕ} {member : Prop} {rest : List (CachedEvent α)}
  {conn next : Connection α} {phase : Phase α}

/-! ## Moves of the thread -/

def Phase.Running (phase : Phase α) : Prop := phase ≠ .unregistering ∧ phase ≠ .closed

variable {frame : OutboundFrame α} {event : CachedEvent α} {item : DeliveryEvent α}
  {queue pending : List (DeliveryEvent α)}

theorem Phase.Serving.running (hserving : phase.Serving) : phase.Running := by
  constructor
  all_goals
    rintro rfl
    cases hserving

section

variable (htracked : conn.Tracked log snapshots member rest)
include htracked

theorem Connection.Tracked.not_ended
    (hrunning : conn.phase.Running) (hmem : frame ∈ conn.written) : frame.event? ≠ none := by
  intro hframe
  rcases (htracked.ended frame hmem hframe).2 with hleft | hclosed
  · exact hrunning.1 hleft
  · exact hrunning.2 hclosed

theorem Connection.Tracked.goTo
    (hrunning : conn.phase.Running) (hserving : phase.Serving → conn.phase.Serving)
    (hstreams : (conn.goTo phase).Streams log) :
    (conn.goTo phase).Tracked log snapshots member rest where
  offered := htracked.offered
  channel := htracked.channel
  unserved := htracked.unserved
  serving := fun hphase => htracked.serving (hserving hphase)
  delivers := htracked.delivers
  streams := hstreams
  lastDelivered := htracked.lastDelivered
  ended := fun _ hmem hframe =>
    absurd hframe (htracked.not_ended hrunning hmem)
  isOpen := fun _ => htracked.isOpen hrunning.2

theorem Connection.Tracked.fail
    (hrunning : conn.phase.Running) : conn.fail.Tracked log snapshots member rest := by
  have hflagged : ({ conn with disconnected := true } :
      Connection α).Tracked log snapshots member rest :=
    htracked.of_same ⟨rfl, rfl, rfl, rfl⟩ rfl rfl rfl rfl
  exact hflagged.goTo hrunning False.elim trivial

end

theorem Connection.delivered_deliver (event : CachedEvent α) :
    ((conn.deliver event).goTo phase).delivered = conn.delivered ++ [event] :=
  delivered_snoc conn (.event event)

theorem Connection.Tracked.deliver
    (htracked : conn.Tracked log snapshots member rest) (hserving : conn.phase.Serving)
    (hnext : conn.delivered ++ [event] <+: conn.stream log)
    (hstreams : ((conn.deliver event).goTo phase).Streams log) :
    ((conn.deliver event).goTo phase).Tracked log snapshots member rest where
  offered := htracked.offered
  channel := htracked.channel
  unserved := htracked.unserved
  serving := fun _ => htracked.serving hserving
  delivers := by
    rw [Connection.delivered_deliver]
    exact hnext
  streams := hstreams
  lastDelivered := by
    rw [Connection.delivered_deliver, lastSeq_snoc]
    rfl
  ended := by
    intro frame hmem hframe
    rcases mem_append.mp hmem with hold | hnew
    · exact absurd hframe (htracked.not_ended hserving.running hold)
    · rw [mem_singleton.mp hnew] at hframe
      cases hframe
  isOpen := fun _ => htracked.isOpen hserving.running.2

theorem Connection.Tracked.finish (htracked : conn.Tracked log snapshots member rest)
    (hrunning : conn.phase.Running) (hframe : frame.event? = none) (hends : conn.Ends frame) :
    ((conn.write frame).goTo .unregistering).Tracked log snapshots member rest := by
  have hdelivered : ((conn.write frame).goTo .unregistering).delivered = conn.delivered := by
    have hsnoc := delivered_snoc conn frame
    rw [hframe] at hsnoc
    exact hsnoc.trans (append_nil _)
  refine ⟨htracked.offered, htracked.channel, htracked.unserved, False.elim,
    ?_, trivial, ?_, ?_, fun _ => htracked.isOpen hrunning.2⟩
  · rw [hdelivered]
    exact htracked.delivers
  · rw [hdelivered]
    exact htracked.lastDelivered
  · intro other hmem hother
    rcases mem_append.mp hmem with hold | hnew
    · exact absurd hother (htracked.not_ended hrunning hold)
    · rw [mem_singleton.mp hnew]
      exact ⟨hends.of_eq hdelivered rfl, .inl rfl⟩

theorem Connection.stream_pop (item : DeliveryEvent α) (queue : List (DeliveryEvent α)) :
    ((conn.pop item queue).goTo phase).stream log = conn.stream log ++ item.event?.toList.filter
        fun event => conn.backfilled log < event.seq := by
  change conn.answer log ++ (conn.history.taken ++ item.event?.toList).filter _ = _
  rw [filter_append, ← append_assoc]
  rfl

section

variable (htracked : conn.Tracked log snapshots member rest) {maxBackfilled : ℕ}
include htracked

theorem Connection.Tracked.pop (hqueue : conn.queue = item :: queue) (hserving : conn.phase.Serving)
    (hstreams : ((conn.pop item queue).goTo phase).Streams log) :
    ((conn.pop item queue).goTo phase).Tracked log snapshots member rest where
  offered := htracked.offered
  channel := by
    have hchannel := htracked.channel
    rw [hqueue, liveEvents_cons, ← append_assoc] at hchannel
    exact hchannel
  unserved := by
    intro hnone
    have hjoined : conn.history.joinedAt.isSome = true := htracked.serving hserving
    have hnone' : conn.history.joinedAt = none := hnone
    rw [hnone'] at hjoined
    cases hjoined
  serving := fun _ => htracked.serving hserving
  delivers := by
    rw [Connection.stream_pop]
    exact htracked.delivers.trans (prefix_append _ _)
  streams := hstreams
  lastDelivered := htracked.lastDelivered
  ended := fun _ hmem hframe =>
    absurd hframe (htracked.not_ended hserving.running hmem)
  isOpen := fun _ => htracked.isOpen hserving.running.2

theorem Connection.Tracked.queue_pos (hmem : event ∈ liveEvents conn.queue) : 0 < event.seq := by
  obtain ⟨last, _, _, _, hoffered⟩ := htracked.offered
  apply hoffered.seq_pos
  apply mem_offered_of_mem_accepted
  rw [htracked.channel]
  exact mem_append_right _ hmem

/-! ## The phases one by one -/

theorem Connection.Tracked.streams_of
    (hphase : conn.phase = phase) : (conn.goTo phase).Streams log := by
  subst hphase
  exact htracked.streams

theorem Connection.Tracked.move {target : Phase α}
    (hphase : conn.phase = phase) (hserving : phase.Serving)
    (hsame : (conn.goTo phase).Streams log → (conn.goTo target).Streams log) :
    (conn.goTo target).Tracked log snapshots member rest := by
  have hhere : conn.phase.Serving := hphase ▸ hserving
  exact htracked.goTo hhere.running (fun _ => hhere) (hsame (htracked.streams_of hphase))

theorem Connection.Tracked.close (hphase : conn.phase = phase) (hserving : phase.Serving)
    (hframe : frame = .lagExceeded conn.lastDeliveredSeq ∨
      frame = .serverShutdown conn.lastDeliveredSeq) :
    (conn.goTo (.closing frame)).Tracked log snapshots member rest := by
  have hhere : conn.phase.Serving := hphase ▸ hserving
  rw [htracked.lastDelivered] at hframe
  exact htracked.goTo hhere.running False.elim hframe

theorem Connection.Tracked.writeBackfill {later : List (CachedEvent α)}
    (hphase : conn.phase = .backfilling (event :: later)) :
    ((conn.deliver event).goTo (.backfilling later)).Tracked log snapshots member rest := by
  obtain ⟨hanswer, htaken⟩ := htracked.streams_of hphase
  have hnext : conn.delivered ++ [event] ++ later = conn.answer log := by
    rw [append_assoc]
    exact hanswer
  refine htracked.deliver (hphase ▸ trivial) ?_ ⟨?_, htaken⟩
  · rw [Connection.stream, ← hnext]
    exact (prefix_append _ _).trans (prefix_append _ _)
  · rw [Connection.delivered_deliver]
    exact hnext

theorem Connection.Tracked.requestOwn {op : ShutdownOp} (hphase : conn.phase = .requesting op)
    (hnext : phase = .entering ∨ ∃ more, phase = .requesting more) :
    ((conn.requestShutdown config op).1.goTo phase).Tracked log snapshots member rest := by
  obtain ⟨hsame, hkept, _⟩ := conn.requestShutdown_effect config op
  have hrequested := htracked.requestShutdown config op
  rcases hnext with rfl | ⟨more, rfl⟩
  all_goals exact hrequested.move (hkept.trans hphase) trivial id

theorem Connection.Tracked.enter
    (hphase : conn.phase = .entering) (hzero : conn.lastDeliveredSeq = 0) :
    (conn.goTo (.looping [])).Tracked log snapshots member rest := by
  refine htracked.move hphase trivial ?_
  rintro ⟨hanswer, htaken⟩
  have hdelivered : conn.delivered = conn.answer log := hanswer
  have hnone : conn.history.taken = [] := htaken
  refine ⟨?_, ?_⟩
  · change conn.delivered ++ [] = conn.answer log ++ conn.history.taken.filter _
    rw [hdelivered, hnone]
    rfl
  · intro event hevent
    have hpos := htracked.queue_pos hevent
    have hlast := htracked.lastDelivered
    rw [hdelivered, hzero] at hlast
    change lastSeq (conn.answer log) < event.seq
    omega

theorem Connection.Tracked.enterDrain (hphase : conn.phase = .entering) :
    (conn.goTo (.draining conn.lastDeliveredSeq [])).Tracked log snapshots member rest := by
  refine htracked.move hphase trivial ?_
  rintro ⟨hanswer, htaken⟩
  have hdelivered : conn.delivered = conn.answer log := hanswer
  have hnone : conn.history.taken = [] := htaken
  refine ⟨?_, hanswer, ?_⟩
  · change conn.lastDeliveredSeq = lastSeq (conn.answer log)
    rw [htracked.lastDelivered, hdelivered]
  · change [] = conn.history.taken.filter _
    rw [hnone]
    rfl

theorem Connection.Tracked.drain (hphase : conn.phase = .draining maxBackfilled pending)
    (hqueue : conn.queue = item :: queue) :
    ((conn.pop item queue).goTo (.draining maxBackfilled
      (pending ++ drained maxBackfilled item))).Tracked log snapshots member
      rest := by
  obtain ⟨hmax, hanswer, hpending⟩ := htracked.streams_of hphase
  refine htracked.pop hqueue (hphase ▸ trivial) ⟨hmax, hanswer, ?_⟩
  have hmax' : maxBackfilled = conn.backfilled log := hmax
  change liveEvents (pending ++ drained maxBackfilled item) =
    (conn.history.taken ++ item.event?.toList).filter _
  rw [liveEvents_append, liveEvents_drained, hpending, filter_append, hmax']
  rfl

theorem Connection.Tracked.drainDone (hphase : conn.phase = .draining maxBackfilled pending)
    (hqueue : conn.queue = []) :
    (conn.goTo (.looping pending)).Tracked log snapshots member
      rest := by
  refine htracked.move hphase trivial ?_
  rintro ⟨_, hanswer, hpending⟩
  have hdelivered : conn.delivered = conn.answer log := hanswer
  refine ⟨?_, ?_⟩
  · change conn.delivered ++ liveEvents pending = _
    rw [hdelivered, hpending]
    rfl
  · intro event hevent
    change event ∈ liveEvents conn.queue at hevent
    rw [hqueue] at hevent
    cases hevent

theorem Connection.Tracked.take
    (hphase : conn.phase = .pulling []) (hqueue : conn.queue = item :: queue) :
    ((conn.pop item queue).goTo (.handling item [])).Tracked log snapshots member rest := by
  obtain ⟨hdelivered, habove⟩ := htracked.streams_of hphase
  have hall : conn.delivered = conn.stream log := (append_nil _).symm.trans hdelivered
  change ∀ event ∈ liveEvents conn.queue, _ at habove
  rw [hqueue, liveEvents_cons] at habove
  have hkept : item.event?.toList.filter (fun event =>
      conn.backfilled log < event.seq) = item.event?.toList := by
    rw [filter_eq_self]
    intro event hevent
    exact decide_eq_true (habove event (mem_append_left _ hevent))
  refine htracked.pop hqueue (hphase ▸ trivial) ⟨?_, ?_⟩
  · rw [Connection.stream_pop, hkept, ← hall, liveEvents_cons, liveEvents_nil, append_nil]
    rfl
  · intro event hevent
    exact habove event (mem_append_right _ hevent)

theorem Connection.Tracked.dispatch (hphase : conn.phase = .handling (.live event) pending) :
    ((conn.deliver event).goTo (.looping pending)).Tracked log snapshots member rest := by
  obtain ⟨hdelivered, habove⟩ := htracked.streams_of hphase
  have hnext : conn.delivered ++ [event] ++ liveEvents pending = conn.stream log := by
    rw [append_assoc]
    exact hdelivered
  refine htracked.deliver (hphase ▸ trivial) ?_ ⟨?_, habove⟩
  · rw [← hnext]
    exact prefix_append _ _
  · rw [Connection.delivered_deliver]
    exact hnext

theorem Connection.Tracked.writeLast (hphase : conn.phase = .closing frame) :
    ((conn.write frame).goTo .unregistering).Tracked log snapshots member rest := by
  have hrunning : conn.phase.Running := by
    rw [hphase]
    exact ⟨by simp, by simp⟩
  have hframe : frame = .lagExceeded (lastSeq conn.delivered) ∨
      frame = .serverShutdown (lastSeq conn.delivered) := htracked.streams_of hphase
  rcases hframe with rfl | rfl
  all_goals exact htracked.finish hrunning rfl rfl

theorem Connection.Tracked.advance {stop io : Bool}
    (hstep : conn.advance config stop io = some next) :
    next.Tracked log snapshots member rest := by
  unfold Connection.advance at hstep
  cases hphase : conn.phase with
  | registered | unregistering | closed => simp [hphase] at hstep
  | truncating =>
    have hrunning : conn.phase.Running := by
      rw [hphase]
      exact ⟨by simp, by simp⟩
    simp only [hphase] at hstep
    split_ifs at hstep
    · cases hstep
      exact htracked.finish hrunning rfl (htracked.streams_of hphase)
    · cases hstep
      exact htracked.goTo hrunning False.elim trivial
  | backfilling events =>
    cases events with
    | nil =>
      simp only [hphase] at hstep
      cases hstep
      refine htracked.move hphase trivial ?_
      rintro ⟨hanswer, htaken⟩
      exact ⟨(append_nil _).symm.trans hanswer, htaken⟩
    | cons =>
      simp only [hphase] at hstep
      split_ifs at hstep
      · cases hstep
        exact htracked.writeBackfill hphase
      · cases hstep
        exact htracked.fail (hphase ▸ ⟨by simp, by simp⟩)
  | backfilled =>
    simp only [hphase] at hstep
    split_ifs at hstep
    all_goals
      cases hstep
      exact htracked.move hphase trivial id
  | requesting op =>
    simp only [hphase] at hstep
    cases hmore : (conn.requestShutdown config op).2 with
    | none =>
      simp only [hmore] at hstep
      cases hstep
      exact htracked.requestOwn hphase (.inl rfl)
    | some more =>
      simp only [hmore] at hstep
      cases hstep
      exact htracked.requestOwn hphase (.inr ⟨more, rfl⟩)
  | entering =>
    simp only [hphase] at hstep
    split_ifs at hstep with hzero
    · cases hstep
      exact htracked.enterDrain hphase
    · cases hstep
      exact htracked.enter hphase (Nat.eq_zero_of_not_pos hzero)
  | draining =>
    simp only [hphase] at hstep
    cases hqueue : conn.queue with
    | nil =>
      simp only [hqueue] at hstep
      cases hstep
      exact htracked.drainDone hphase hqueue
    | cons =>
      simp only [hqueue] at hstep
      cases hstep
      exact htracked.drain hphase hqueue
  | looping =>
    simp only [hphase] at hstep
    split_ifs at hstep
    · cases hstep
      exact htracked.close hphase trivial (.inr rfl)
    · cases hstep
      exact htracked.move hphase trivial id
  | checking =>
    simp only [hphase] at hstep
    split_ifs at hstep
    · cases hstep
      exact htracked.close hphase trivial (.inl rfl)
    · cases hstep
      exact htracked.move hphase trivial id
  | pulling pending =>
    cases pending with
    | cons =>
      simp only [hphase] at hstep
      cases hstep
      exact htracked.move hphase trivial id
    | nil =>
      simp only [hphase] at hstep
      cases hqueue : conn.queue with
      | nil =>
        simp only [hqueue] at hstep
        split_ifs at hstep
        · cases hstep
          exact htracked.move hphase trivial id
        · cases hstep
          exact htracked.fail (hphase ▸ ⟨by simp, by simp⟩)
      | cons =>
        simp only [hqueue] at hstep
        cases hstep
        exact htracked.take hphase hqueue
  | handling item =>
    cases item with
    | live =>
      simp only [hphase] at hstep
      split_ifs at hstep
      · cases hstep
        exact htracked.dispatch hphase
      · cases hstep
        exact htracked.fail (hphase ▸ ⟨by simp, by simp⟩)
    | shutdown =>
      simp only [hphase] at hstep
      cases hstep
      exact htracked.close hphase trivial (.inr rfl)
  | closing =>
    simp only [hphase] at hstep
    split_ifs at hstep
    · cases hstep
      exact htracked.writeLast hphase
    · cases hstep
      exact htracked.goTo (hphase ▸ ⟨by simp, by simp⟩) False.elim trivial

end

/-! ## The cache and the registry -/

/-- The cache answers while the extractor does not hold its lock, so everything
it has pushed was offered. -/
theorem Connection.Tracked.backfill {cache : EventCache α}
    (htracked : conn.Tracked log snapshots member [])
    (hphase : conn.phase = .registered) (hcache : cache.Holds (upTo log snapshots)) :
    (conn.backfill snapshots (cache.range conn.resumeFrom)).Tracked log snapshots member [] := by
  have hrunning : conn.phase.Running := by simp [Phase.Running, hphase]
  have hmember := htracked.isOpen hrunning.2
  have hunjoined : conn.history.joinedAt = none := by
    have hstreams := htracked.streams
    unfold Connection.Streams at hstreams
    rw [hphase] at hstreams
    exact hstreams
  have htaken := htracked.unserved hunjoined
  have hdelivered : conn.delivered = [] := by
    have hdelivers := htracked.delivers
    rw [Connection.stream, Connection.answer, hunjoined, htaken] at hdelivers
    exact prefix_nil.mp hdelivers
  obtain ⟨last, hsince, _, hcurrent, hoffered⟩ := htracked.offered
  obtain rfl := hcurrent hmember
  -- joining with an answer, in any phase that has written nothing of it yet
  have hjoin : ∀ phase : Phase α,
      ({ conn with
          phase := phase
          history := { conn.history with joinedAt := some last } } :
        Connection α).Streams log → (phase ≠ .closed → member) →
      ({ conn with
          phase := phase
          history := { conn.history with joinedAt := some last } } :
        Connection α).Tracked log last member [] := by
    intro phase hstreams hisOpen
    unfold History.Offered at hoffered
    simp only [hunjoined, append_nil] at hoffered
    refine ⟨⟨last, hsince, Nat.le_refl _, fun _ => rfl, ?_⟩,
      htracked.channel, by simp, fun _ => rfl, ?_, hstreams, htracked.lastDelivered, ?_, hisOpen⟩
    · refine ⟨hsince, Nat.le_refl _, hoffered.1, ?_⟩
      rw [hoffered.2, between_of_le (Nat.le_refl last)]
      rfl
    · change conn.delivered <+: _
      rw [hdelivered]
      exact nil_prefix
    · intro frame hmem hframe
      exact absurd hframe (htracked.not_ended hrunning hmem)
  cases hrange : cache.range conn.resumeFrom with
  | outOfWindow =>
    exact htracked.goTo hrunning False.elim hunjoined
  | inWindow events =>
    obtain ⟨hfrom, hevents⟩ := hcache.inWindow (upTo_sorted last) hrange
    refine hjoin (.backfilling events) ⟨?_, htaken⟩ fun _ => hmember
    change conn.delivered ++ events =
      if conn.resumeFrom = 0 then []
      else between log conn.resumeFrom last
    rw [hdelivered, if_neg (by omega), hevents]
    rfl
  | atLiveTail =>
    refine hjoin .backfilled ⟨?_, htaken⟩ fun _ => hmember
    change conn.delivered =
      if conn.resumeFrom = 0 then []
      else between log conn.resumeFrom last
    rw [hdelivered]
    by_cases hzero : conn.resumeFrom = 0
    · rw [if_pos hzero]
    · rw [if_neg hzero]
      exact (hcache.atLiveTail (upTo_sorted last) (Nat.pos_of_ne_zero hzero) hrange).symm

theorem Connection.Tracked.unregister {left : Prop}
    (htracked : conn.Tracked log snapshots member rest) (hleft : ¬left) :
    (conn.goTo .closed).Tracked log snapshots left rest := by
  obtain ⟨last, hsince, hlast, _, hoffered⟩ := htracked.offered
  refine ⟨⟨last, hsince, hlast, fun hyes => absurd hyes hleft, hoffered⟩,
    htracked.channel, htracked.unserved, False.elim, htracked.delivers,
    trivial, htracked.lastDelivered, ?_, fun hopen => absurd rfl hopen⟩
  intro frame hmem hframe
  exact ⟨(htracked.ended frame hmem hframe).1, .inr rfl⟩

end Thread

end EventStream
end Canon
