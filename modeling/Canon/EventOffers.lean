import Canon.EventServer

/-!
# What a connection has been offered and has delivered

A connection is offered, event by event, the frames whose snapshot is taken while
it is registered.  The queue takes some of them, in order; the thread takes them
out again, drops what the backfill has delivered already, and writes the rest.
`Connection.Tracked` says this for one connection; the other threads keep it up.
-/

namespace Canon
namespace EventStream

open Sequenced List

section Definitions

variable {α : Type}

def acceptedOf (offers : List (Offer α)) : List (CachedEvent α) :=
  (offers.filter fun offer => offer.2 = .enqueued).map Prod.fst

def History.offers (history : History α) : List (Offer α) := history.before ++ history.after

def EnqueueOp.event? : EnqueueOp α → Option (CachedEvent α)
  | .check event => some event
  | .send event => some event
  | .evict => none

def coming (id : ℕ) (todo : List (ℕ × EnqueueOp α)) : List (CachedEvent α) :=
  todo.filterMap fun call => if call.1 = id then call.2.event? else none

def Extractor.todo : Extractor α → List (ℕ × EnqueueOp α)
  | .broadcasting todo => todo
  | _ => []

def Connection.answer (log : ℕ → List α) (conn : Connection α) : List (CachedEvent α) :=
  match conn.history.joinedAt with
  | none => []
  | some joined =>
    if conn.resumeFrom = 0 then []
    else between log conn.resumeFrom joined

def Connection.backfilled (log : ℕ → List α) (conn : Connection α) : ℕ := lastSeq (conn.answer log)

/-- The events to deliver: the backfill, and what was taken above it. -/
def Connection.stream (log : ℕ → List α) (conn : Connection α) : List (CachedEvent α) :=
  conn.answer log ++ conn.history.taken.filter fun event => conn.backfilled log < event.seq

/-- All frames up to `last` from the registration on were offered or are still
coming. -/
def History.Offered (log : ℕ → List α) (coming : List (CachedEvent α))
    (last : ℕ) (history : History α) : Prop :=
  match history.joinedAt with
  | none =>
    history.before.map Prod.fst ++ coming = between log history.since last ∧ history.after = []
  | some joined =>
    history.since ≤ joined ∧ joined ≤ last ∧
      history.before.map Prod.fst = between log history.since joined ∧
      history.after.map Prod.fst ++ coming = between log joined last

/-- In the dispatch loop, with these items in the hands of the thread. -/
def Connection.Dispatches (log : ℕ → List α)
    (items : List (DeliveryEvent α)) (conn : Connection α) : Prop :=
  conn.delivered ++ liveEvents items = conn.stream log ∧
    ∀ event ∈ liveEvents conn.queue, conn.backfilled log < event.seq

def Connection.Streams (log : ℕ → List α) (conn : Connection α) :
    Prop :=
  match conn.phase with
  | .registered => conn.history.joinedAt = none
  | .truncating _ => conn.history.joinedAt = none
  | .backfilling rest =>
    conn.delivered ++ rest = conn.answer log ∧ conn.history.taken = []
  | .backfilled | .requesting _ | .entering =>
    conn.delivered = conn.answer log ∧ conn.history.taken = []
  | .draining maxBackfilled pending =>
    maxBackfilled = conn.backfilled log ∧ conn.delivered = conn.answer log ∧
      liveEvents pending = conn.history.taken.filter fun event => conn.backfilled log < event.seq
  | .looping pending | .checking pending | .pulling pending =>
    conn.Dispatches log pending
  | .handling next pending => conn.Dispatches log (next :: pending)
  | .closing frame =>
    frame = .lagExceeded (lastSeq conn.delivered) ∨ frame = .serverShutdown (lastSeq conn.delivered)
  | .unregistering | .closed => True

def Phase.Serving : Phase α → Prop
  | .registered | .truncating _ | .closing _ | .unregistering | .closed =>
    False
  | _ => True

/-- What a frame that is not an event says about the connection it ends. -/
def Connection.Ends (conn : Connection α) : OutboundFrame α → Prop
  | .lagExceeded seq | .serverShutdown seq =>
    seq = lastSeq conn.delivered
  | .truncated _ => conn.history.joinedAt = none
  | _ => True

/-- A connection in a server where the snapshots of the first frames are taken,
`member` says whether the connection is in the registry, and `coming` is what the
extractor still has to offer to it. -/
structure Connection.Tracked (log : ℕ → List α) (snapshots : ℕ)
    (member : Prop) (coming : List (CachedEvent α)) (conn : Connection α) : Prop where
  offered : ∃ last, conn.history.since ≤ last ∧ last ≤ snapshots ∧
    (member → last = snapshots) ∧ conn.history.Offered log coming last
  channel : acceptedOf conn.history.offers = conn.history.taken ++ liveEvents conn.queue
  unserved : conn.history.joinedAt = none → conn.history.taken = []
  serving : conn.phase.Serving → conn.history.joinedAt.isSome = true
  delivers : conn.delivered <+: conn.stream log
  streams : conn.Streams log
  lastDelivered : conn.lastDeliveredSeq = lastSeq conn.delivered
  ended : ∀ frame ∈ conn.written, frame.event? = none →
    conn.Ends frame ∧ (conn.phase = .unregistering ∨ conn.phase = .closed)
  isOpen : conn.phase ≠ .closed → member

end Definitions

/-! ## Small facts -/

section Facts

variable {α : Type} {log : ℕ → List α}

variable {event : CachedEvent α} {rest : List (CachedEvent α)} {id last : ℕ} {conn : Connection α}

@[simp] theorem acceptedOf_nil : acceptedOf ([] : List (Offer α)) = [] := rfl

@[simp] theorem acceptedOf_append (first second : List (Offer α)) :
    acceptedOf (first ++ second) = acceptedOf first ++ acceptedOf second := by
  rw [acceptedOf, filter_append, map_append]
  rfl

@[simp] theorem acceptedOf_enqueued (event : CachedEvent α) :
    acceptedOf [(event, .enqueued)] = [event] := rfl

theorem acceptedOf_of_ne {outcome : EnqueueOutcome} (event : CachedEvent α)
    (hrefused : outcome ≠ .enqueued) : acceptedOf [(event, outcome)] = [] := by
  simp [acceptedOf, hrefused]

theorem mem_offered_of_mem_accepted {offers : List (Offer α)}
     (hmem : event ∈ acceptedOf offers) : event ∈ offers.map Prod.fst := by
  obtain ⟨offer, hoffer, rfl⟩ := mem_map.mp hmem
  exact mem_map_of_mem (mem_of_mem_filter hoffer)

@[simp] theorem liveEvents_nil : liveEvents ([] : List (DeliveryEvent α)) = [] :=
  rfl

@[simp] theorem liveEvents_live (event : CachedEvent α) (rest : List (DeliveryEvent α)) :
    liveEvents (.live event :: rest) = event :: liveEvents rest := rfl

@[simp] theorem liveEvents_shutdown (rest : List (DeliveryEvent α)) :
    liveEvents (.shutdown :: rest) = liveEvents rest := rfl

@[simp] theorem liveEvents_append (first second : List (DeliveryEvent α)) :
    liveEvents (first ++ second) = liveEvents first ++ liveEvents second := filterMap_append

theorem liveEvents_cons (item : DeliveryEvent α) (rest : List (DeliveryEvent α)) :
    liveEvents (item :: rest) = item.event?.toList ++ liveEvents rest := by
  cases item with
  | live | shutdown => rfl

theorem liveEvents_drained (maxBackfilled : ℕ) (item : DeliveryEvent α) :
    liveEvents (drained maxBackfilled item) =
      item.event?.toList.filter fun event => maxBackfilled < event.seq := by
  cases item with
  | live event =>
    by_cases habove : maxBackfilled < event.seq
    all_goals simp [drained, DeliveryEvent.event?, habove]
  | shutdown => rfl

theorem delivered_snoc (conn : Connection α) (frame : OutboundFrame α) :
    (conn.written ++ [frame]).filterMap OutboundFrame.event? =
      conn.delivered ++ frame.event?.toList := by
  rw [filterMap_append, Connection.delivered]
  cases frame <;> rfl

@[simp] theorem coming_nil (id : ℕ) : coming id ([] : List (ℕ × EnqueueOp α)) = [] := rfl

theorem coming_append (id : ℕ) (first second : List (ℕ × EnqueueOp α)) :
    coming id (first ++ second) = coming id first ++ coming id second := filterMap_append

theorem coming_cons_self (id : ℕ) (op : EnqueueOp α) (todo : List (ℕ × EnqueueOp α)) :
    coming id ((id, op) :: todo) = op.event?.toList ++ coming id todo := by
  cases op <;> simp [coming, EnqueueOp.event?]

theorem coming_cons_of_ne {target : ℕ} (hne : target ≠ id) (op : EnqueueOp α)
    (todo : List (ℕ × EnqueueOp α)) : coming id ((target, op) :: todo) = coming id todo := by
  simp [coming, hne]

theorem coming_of_lt {todo : List (ℕ × EnqueueOp α)} (htodo : ∀ call ∈ todo, call.1 < id) :
    coming id todo = [] := by
  rw [coming, filterMap_eq_nil_iff]
  intro call hcall
  rw [if_neg (Nat.ne_of_lt (htodo call hcall))]

/-- A snapshot without repetitions offers every event of the batch once to each
of its members. -/
theorem coming_broadcastCalls {snapshot : List ℕ} (hnodup : snapshot.Nodup)
    (id : ℕ) (events : List (CachedEvent α)) :
    coming id (broadcastCalls snapshot events) =
      if id ∈ snapshot then events else [] := by
  have hone : ∀ event : CachedEvent α,
      coming id (snapshot.map fun target => (target, .check event)) =
        if id ∈ snapshot then [event] else [] := by
    intro event
    induction snapshot with
    | nil => rfl
    | cons target rest ih =>
      rw [nodup_cons] at hnodup
      rw [map_cons]
      by_cases hid : target = id
      · subst hid
        rw [coming_cons_self, ih hnodup.2, if_neg hnodup.1, if_pos mem_cons_self]
        rfl
      · rw [coming_cons_of_ne hid, ih hnodup.2]
        have hmem : id ∈ target :: rest ↔ id ∈ rest := by
          rw [mem_cons]
          exact or_iff_right (Ne.symm hid)
        simp only [hmem]
  induction events with
  | nil => simp [broadcastCalls]
  | cons _ _ ih =>
    rw [broadcastCalls, flatMap_cons, coming_append, hone, ← broadcastCalls, ih]
    by_cases hmem : id ∈ snapshot
    · rw [if_pos hmem, if_pos hmem, if_pos hmem]
      rfl
    · rw [if_neg hmem, if_neg hmem, if_neg hmem]
      rfl

@[simp] theorem History.offer_joinedAt (history : History α)
    (event : CachedEvent α) (outcome : EnqueueOutcome) :
    (history.offer event outcome).joinedAt = history.joinedAt := by
  unfold History.offer
  split <;> simp_all

@[simp] theorem History.offer_taken (history : History α)
    (event : CachedEvent α) (outcome : EnqueueOutcome) :
    (history.offer event outcome).taken = history.taken := by
  unfold History.offer
  split <;> rfl

@[simp] theorem History.offer_since (history : History α)
    (event : CachedEvent α) (outcome : EnqueueOutcome) :
    (history.offer event outcome).since = history.since := by
  unfold History.offer
  split <;> rfl

@[simp] theorem History.offer_registeredAt (history : History α)
    (event : CachedEvent α) (outcome : EnqueueOutcome) :
    (history.offer event outcome).registeredAt = history.registeredAt := by
  unfold History.offer
  split <;> rfl

theorem History.Offered.offer {history : History α} {event : CachedEvent α}
    {rest : List (CachedEvent α)} {last : ℕ}
    (hoffered : history.Offered log (event :: rest) last) (outcome : EnqueueOutcome) :
    (history.offer event outcome).Offered log rest last ∧
      (history.offer event outcome).offers = history.offers ++ [(event, outcome)] := by
  unfold History.Offered at hoffered ⊢
  unfold History.offer
  cases hjoined : history.joinedAt with
  | none =>
    simp only [hjoined] at hoffered ⊢
    obtain ⟨hbefore, hafter⟩ := hoffered
    refine ⟨⟨?_, hafter⟩, ?_⟩
    · simpa using hbefore
    · simp [History.offers, hafter]
  | some =>
    simp only [hjoined] at hoffered ⊢
    obtain ⟨hsince, hlast, hbefore, hafter⟩ := hoffered
    refine ⟨⟨hsince, hlast, hbefore, ?_⟩, ?_⟩
    · simpa using hafter
    · simp [History.offers]

theorem History.Offered.seq_pos {history : History α} (hoffered : history.Offered log rest last)
    (hmem : event ∈ history.offers.map Prod.fst) : 0 < event.seq := by
  unfold History.Offered at hoffered
  rw [History.offers, map_append, mem_append] at hmem
  cases hjoined : history.joinedAt with
  | none =>
    simp only [hjoined] at hoffered
    obtain ⟨hbefore, hafter⟩ := hoffered
    rw [hafter, map_nil] at hmem
    have hlog : event ∈ between log history.since last := by
      rw [← hbefore]
      exact mem_append_left _ (hmem.resolve_right not_mem_nil)
    exact Nat.lt_of_le_of_lt (Nat.zero_le _) (seq_of_mem_between hlog).1
  | some joined =>
    simp only [hjoined] at hoffered
    obtain ⟨_, _, hbefore, hafter⟩ := hoffered
    rcases hmem with hold | hnew
    · rw [hbefore] at hold
      exact Nat.lt_of_le_of_lt (Nat.zero_le _) (seq_of_mem_between hold).1
    · have hlog : event ∈ between log joined last := by
        rw [← hafter]
        exact mem_append_left _ hnew
      exact Nat.lt_of_le_of_lt (Nat.zero_le _) (seq_of_mem_between hlog).1

theorem Connection.Tracked.after_eq_nil {snapshots : ℕ} {member : Prop}
    (htracked : conn.Tracked log snapshots member rest) (hnone : conn.history.joinedAt = none) :
    conn.history.after = [] := by
  obtain ⟨_, _, _, _, hoffered⟩ := htracked.offered
  unfold History.Offered at hoffered
  simp only [hnone] at hoffered
  exact hoffered.2

theorem Connection.backfilled_le {conn : Connection α} {joined : ℕ}
    (hjoined : conn.history.joinedAt = some joined) : conn.backfilled log ≤ joined := by
  unfold Connection.backfilled Connection.answer
  rw [hjoined]
  simp only
  by_cases hzero : conn.resumeFrom = 0
  · rw [if_pos hzero]
    exact Nat.zero_le joined
  · rw [if_neg hzero]
    exact lastSeq_between_le _ _

theorem Connection.backfilled_lt_coming (hoffered : conn.history.Offered log (event :: rest) last) :
    conn.backfilled log < event.seq := by
  unfold History.Offered at hoffered
  cases hjoined : conn.history.joinedAt with
  | none =>
    simp only [hjoined] at hoffered
    have hlog : event ∈ between log conn.history.since last := by
      rw [← hoffered.1]
      simp
    have hseq := (seq_of_mem_between hlog).1
    unfold Connection.backfilled Connection.answer
    rw [hjoined]
    simp only [lastSeq_nil]
    omega
  | some joined =>
    simp only [hjoined] at hoffered
    have hlog : event ∈ between log joined last := by
      rw [← hoffered.2.2.2]
      simp
    exact Nat.lt_of_le_of_lt (Connection.backfilled_le hjoined) (seq_of_mem_between hlog).1

end Facts

/-! ## What the other threads do to a connection -/

section Remote

variable {α : Type} {log : ℕ → List α} {config : ServerConfig}
  {snapshots : ℕ} {member : Prop} {rest : List (CachedEvent α)} {conn other : Connection α}

structure Connection.Same (conn other : Connection α) : Prop where
  resumeFrom : other.resumeFrom = conn.resumeFrom
  written : other.written = conn.written
  joinedAt : other.history.joinedAt = conn.history.joinedAt
  taken : other.history.taken = conn.history.taken

theorem Connection.Same.delivered (hsame : conn.Same other) : other.delivered = conn.delivered := by
  rw [Connection.delivered, hsame.written, Connection.delivered]

theorem Connection.Same.answer (hsame : conn.Same other) : other.answer log = conn.answer log := by
  rw [Connection.answer, hsame.joinedAt, hsame.resumeFrom, Connection.answer]

theorem Connection.Same.backfilled (hsame : conn.Same other) :
    other.backfilled log = conn.backfilled log := by
  rw [Connection.backfilled, hsame.answer, Connection.backfilled]

theorem Connection.Same.stream (hsame : conn.Same other) : other.stream log = conn.stream log := by
  rw [Connection.stream, hsame.answer, hsame.backfilled, hsame.taken, Connection.stream]

theorem Connection.Ends.of_eq {frame : OutboundFrame α} (hends : conn.Ends frame)
    (hdelivered : other.delivered = conn.delivered)
    (hjoined : other.history.joinedAt = conn.history.joinedAt) : other.Ends frame := by
  cases frame with
  | event | invalidRequest => trivial
  | lagExceeded | serverShutdown => exact hends.trans (congrArg lastSeq hdelivered.symm)
  | truncated => exact hjoined.trans hends

theorem Connection.Same.streams (hsame : conn.Same other) (hphase : other.phase = conn.phase)
    (hqueue : ∀ event ∈ liveEvents other.queue, event ∈ liveEvents conn.queue ∨
        conn.backfilled log < event.seq) (hstreams : conn.Streams log) : other.Streams log := by
  have hdispatches : ∀ items, conn.Dispatches log items → other.Dispatches log items := by
    rintro items ⟨hdelivered, habove⟩
    refine ⟨by rw [hsame.delivered, hsame.stream, hdelivered], ?_⟩
    intro event hevent
    rw [hsame.backfilled]
    exact (hqueue event hevent).elim (habove event) id
  unfold Connection.Streams at hstreams ⊢
  rw [hphase]
  cases hcase : conn.phase with
  | registered | truncating =>
    rw [hcase] at hstreams
    exact hsame.joinedAt.trans hstreams
  | backfilling | backfilled | requesting | entering =>
    rw [hcase] at hstreams
    simp only [hsame.delivered, hsame.answer, hsame.taken]
    exact hstreams
  | draining =>
    rw [hcase] at hstreams
    simp only [hsame.delivered, hsame.answer, hsame.backfilled, hsame.taken]
    exact hstreams
  | looping pending | checking pending | pulling pending =>
    rw [hcase] at hstreams
    exact hdispatches pending hstreams
  | handling next pending =>
    rw [hcase] at hstreams
    exact hdispatches (next :: pending) hstreams
  | closing =>
    rw [hcase] at hstreams
    simp only [hsame.delivered]
    exact hstreams
  | unregistering | closed => trivial

theorem Connection.Tracked.of_same (htracked : conn.Tracked log snapshots member rest)
    (hsame : conn.Same other) (hphase : other.phase = conn.phase)
    (hhistory : other.history = conn.history)
    (hlast : other.lastDeliveredSeq = conn.lastDeliveredSeq)
    (hqueue : liveEvents other.queue = liveEvents conn.queue) :
    other.Tracked log snapshots member rest where
  offered := by
    rw [hhistory]
    exact htracked.offered
  channel := by
    rw [hhistory, hqueue]
    exact htracked.channel
  unserved := by
    rw [hhistory]
    exact htracked.unserved
  serving := by
    rw [hphase, hhistory]
    exact htracked.serving
  delivers := by
    rw [hsame.delivered, hsame.stream]
    exact htracked.delivers
  streams := by
    refine hsame.streams hphase ?_ htracked.streams
    intro event hevent
    rw [hqueue] at hevent
    exact .inl hevent
  lastDelivered := by
    rw [hlast, hsame.delivered]
    exact htracked.lastDelivered
  ended := by
    rw [hsame.written, hphase]
    intro frame hmem hframe
    obtain ⟨hends, hlast⟩ := htracked.ended frame hmem hframe
    exact ⟨hends.of_eq hsame.delivered hsame.joinedAt, hlast⟩
  isOpen := by
    rw [hphase]
    exact htracked.isOpen

theorem Connection.Tracked.offer {event : CachedEvent α} {outcome : EnqueueOutcome}
    {queue : List (DeliveryEvent α)} (htracked : conn.Tracked log snapshots member (event :: rest))
    (hqueue : liveEvents queue = liveEvents conn.queue ++ acceptedOf [(event, outcome)]) :
    ({ conn.offer event outcome with queue := queue } :
      Connection α).Tracked log snapshots member rest := by
  have hsame : conn.Same { conn.offer event outcome with queue := queue } :=
    ⟨rfl, rfl, conn.history.offer_joinedAt event outcome, conn.history.offer_taken event outcome⟩
  obtain ⟨last, hsince, hlast, hmember, hoffered⟩ := htracked.offered
  obtain ⟨hafter, hoffers⟩ := hoffered.offer outcome
  constructor
  case offered =>
    refine ⟨last, ?_, hlast, hmember, hafter⟩
    exact (conn.history.offer_since event outcome).symm ▸ hsince
  case channel =>
    change acceptedOf (conn.history.offer event outcome).offers =
      (conn.history.offer event outcome).taken ++ liveEvents queue
    rw [hoffers, acceptedOf_append, History.offer_taken, hqueue, ← append_assoc, htracked.channel]
  case unserved =>
    rw [hsame.joinedAt, hsame.taken]
    exact htracked.unserved
  case serving =>
    rw [hsame.joinedAt]
    exact htracked.serving
  case delivers =>
    rw [hsame.delivered, hsame.stream]
    exact htracked.delivers
  case streams =>
    refine hsame.streams rfl ?_ htracked.streams
    intro offered hmem
    rw [hqueue, mem_append] at hmem
    refine hmem.imp_right ?_
    intro hnew
    have heq := mem_singleton.mp (mem_offered_of_mem_accepted hnew)
    rw [heq]
    exact Connection.backfilled_lt_coming hoffered
  case lastDelivered =>
    exact htracked.lastDelivered
  case ended =>
    intro frame hmem hframe
    obtain ⟨hends, hlast⟩ := htracked.ended frame hmem hframe
    exact ⟨hends.of_eq hsame.delivered hsame.joinedAt, hlast⟩
  case isOpen => exact htracked.isOpen

theorem Connection.Tracked.tryEnqueue {op : EnqueueOp α}
    (htracked : conn.Tracked log snapshots member (op.event?.toList ++ rest)) :
    (conn.tryEnqueue config op).1.Tracked log snapshots member
      (((conn.tryEnqueue config op).2.bind EnqueueOp.event?).toList ++ rest) := by
  have hrefused : ∀ (event : CachedEvent α) (outcome : EnqueueOutcome), outcome ≠ .enqueued →
      conn.Tracked log snapshots member (event :: rest) →
      (conn.offer event outcome).Tracked log snapshots member rest := by
    intro event outcome hne hevent
    refine hevent.offer ?_
    rw [acceptedOf_of_ne event hne, append_nil]
  cases op with
  | check event =>
    simp only [Connection.tryEnqueue]
    split_ifs
    · exact hrefused event .disconnected (by simp) htracked
    · exact htracked
  | send event =>
    simp only [Connection.tryEnqueue]
    split_ifs
    · exact hrefused event .disconnected (by simp) htracked
    · have htaken := @htracked.offer _ _ _ _ _ _ event .enqueued
        (conn.queue ++ [.live event]) (liveEvents_append _ _)
      exact htaken.of_same ⟨rfl, rfl, rfl, rfl⟩ rfl rfl rfl rfl
    · exact (hrefused event .lagExceeded (by simp) htracked).of_same
        ⟨rfl, rfl, rfl, rfl⟩ rfl rfl rfl rfl
    · exact (hrefused event (.lagging _) (by simp) htracked).of_same
        ⟨rfl, rfl, rfl, rfl⟩ rfl rfl rfl rfl
  | evict =>
    exact htracked.of_same ⟨rfl, rfl, rfl, rfl⟩ rfl rfl rfl rfl

theorem Connection.requestShutdown_effect (config : ServerConfig)
    (conn : Connection α) (op : ShutdownOp) :
    conn.Same (conn.requestShutdown config op).1 ∧
      (conn.requestShutdown config op).1.phase = conn.phase ∧
      (conn.requestShutdown config op).1.history = conn.history ∧
      (conn.requestShutdown config op).1.lastDeliveredSeq = conn.lastDeliveredSeq ∧
      liveEvents (conn.requestShutdown config op).1.queue = liveEvents conn.queue := by
  cases op with
  | check | flag | evict => exact ⟨⟨rfl, rfl, rfl, rfl⟩, rfl, rfl, rfl, rfl⟩
  | send =>
    simp only [Connection.requestShutdown]
    split_ifs
    · exact ⟨⟨rfl, rfl, rfl, rfl⟩, rfl, rfl, rfl, rfl⟩
    · refine ⟨⟨rfl, rfl, rfl, rfl⟩, rfl, rfl, rfl, ?_⟩
      rw [liveEvents_append]
      exact append_nil _
    · exact ⟨⟨rfl, rfl, rfl, rfl⟩, rfl, rfl, rfl, rfl⟩

theorem Connection.Tracked.requestShutdown (htracked : conn.Tracked log snapshots member rest)
    (config : ServerConfig) (op : ShutdownOp) :
    (conn.requestShutdown config op).1.Tracked log snapshots member
      rest := by
  obtain ⟨hsame, hphase, hhistory, hlast, hqueue⟩ := conn.requestShutdown_effect config op
  exact htracked.of_same hsame hphase hhistory hlast hqueue

theorem Connection.Tracked.snapshot (htracked : conn.Tracked log snapshots member [])
    {events : List (CachedEvent α)} (hmember : member → events = batch log (snapshots + 1))
    (hother : ¬member → events = []) : conn.Tracked log (snapshots + 1) member events := by
  obtain ⟨last, hsince, hlast, hcurrent, hoffered⟩ := htracked.offered
  refine ⟨?_, htracked.channel, htracked.unserved, htracked.serving,
    htracked.delivers, htracked.streams, htracked.lastDelivered, htracked.ended, htracked.isOpen⟩
  by_cases hregistered : member
  · rw [hmember hregistered]
    obtain rfl := hcurrent hregistered
    refine ⟨last + 1, Nat.le_succ_of_le hsince, Nat.le_refl _, fun _ => rfl, ?_⟩
    unfold History.Offered at hoffered ⊢
    cases hjoined : conn.history.joinedAt with
    | none =>
      simp only [hjoined, append_nil] at hoffered ⊢
      rw [hoffered.1, between_succ hsince]
      exact ⟨rfl, hoffered.2⟩
    | some =>
      simp only [hjoined, append_nil] at hoffered ⊢
      obtain ⟨hfirst, hle, hbefore, hafter⟩ := hoffered
      rw [hafter, between_succ hle]
      exact ⟨hfirst, Nat.le_succ_of_le hle, hbefore, rfl⟩
  · rw [hother hregistered]
    exact ⟨last, hsince, Nat.le_succ_of_le hlast, fun hyes => absurd hyes hregistered, hoffered⟩

end Remote

end EventStream
end Canon
