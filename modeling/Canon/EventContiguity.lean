import Canon.EventOverflow

/-!
# Gaps in the event stream of a connection

The events on one connection should be consecutive entries of the log, and none of
them should come after a refused one.  Both hold for a subscriber whose queue never
overflows.
-/

namespace Canon
namespace EventStream

open Sequenced List

/-- When the queue of a connection may overflow: never, only after the cache has
answered, or at any time. -/
inductive Overflow where
  | never
  | afterBackfill
  | anytime
  deriving DecidableEq

section GapFree

variable {α : Type} {log : ℕ → List α} {config : ServerConfig}
  {state : ServerState α} {id : ℕ} {conn : Connection α} {snapshots : ℕ} {member : Prop}
  {rest : List (CachedEvent α)} {earlier later : List (Offer α)} {event : CachedEvent α}
  {outcome : EnqueueOutcome}

def Overflow.Allows (overflow : Overflow) (conn : Connection α) :
    Prop :=
  match overflow with
  | .never => ¬Overflowed conn.history.offers
  | .afterBackfill => ¬Overflowed conn.history.before
  | .anytime => True

/-- The delivered events are consecutive entries of the frames read, and they come
before every refused event. -/
def Connection.GapFree (log : ℕ → List α) (read : ℕ) (conn : Connection α) : Prop :=
  conn.delivered <:+: upTo log read ∧
    ∀ earlier event outcome later,
      conn.history.offers = earlier ++ (event, outcome) :: later → outcome ≠ .enqueued →
      conn.delivered <:+: upTo log conn.history.since ++ earlier.map Prod.fst

theorem Connection.Tracked.delivered_infix {read : ℕ}
    (htracked : conn.Tracked log snapshots member rest) (hunbroken : Unbroken conn.history.offers)
    (hread : snapshots ≤ read) : conn.delivered <:+: upTo log read :=
  ((htracked.delivered_between hunbroken).isInfix.trans
    (between_suffix _ _).isInfix).trans (upTo_prefix_of_le hread).isInfix

theorem before_prefix_of_refused {before after : List (Offer α)}
    (hoffers : before ++ after = earlier ++ (event, outcome) :: later)
    (hbefore : AllEnqueued before) (hrefused : outcome ≠ .enqueued) : before <+: earlier := by
  rcases append_eq_append_iff.mp hoffers with
    ⟨between, rfl, _⟩ | ⟨between, rfl, hrest⟩
  · exact prefix_append _ _
  · cases between with
    | nil => rw [append_nil]
    | cons offer =>
      rw [cons_append, List.cons.injEq] at hrest
      have hmem := hbefore offer (mem_append_right _ mem_cons_self)
      rw [← hrest.1] at hmem
      exact absurd hmem hrefused

theorem Connection.Tracked.delivered_before_refused
    (htracked : conn.Tracked log snapshots member rest) (hunbroken : Unbroken conn.history.offers)
    (hbefore : conn.history.joinedAt.isSome = true → AllEnqueued conn.history.before)
    (hoffers : conn.history.offers = earlier ++ (event, outcome) :: later)
    (hrefused : outcome ≠ .enqueued) :
    conn.delivered <:+: upTo log conn.history.since ++ earlier.map Prod.fst := by
  obtain ⟨last, _, _, _, hlog, hjoin⟩ := htracked.offered_log
  have haccepted : acceptedOf conn.history.offers <+: earlier.map Prod.fst := by
    rw [hoffers] at hunbroken ⊢
    rw [hunbroken.accepted_before hrefused]
    exact Unbroken.accepted_prefix_offered (pairwise_append.mp hunbroken).1
  have hevents : earlier.map Prod.fst <+: between log conn.history.since last := by
    rw [← hlog, hoffers, map_append, append_assoc]
    exact prefix_append _ _
  refine (htracked.delivered_accepted.trans ?_).isInfix.trans
    (Connection.answer_suffix hevents ?_).isInfix
  · rw [prefix_append_right_inj]
    exact haccepted.filter _
  · intro joined hjoined
    obtain ⟨hfirst, hle, hmap⟩ := hjoin joined hjoined
    refine ⟨hfirst, hle, ?_⟩
    rw [← hmap]
    exact (before_prefix_of_refused hoffers (hbefore (by rw [hjoined]; rfl)) hrefused).map _

theorem ServerState.Reached.gapFree (hreached : state.Reached config log)
    (hfound : state.connections id = some conn) (hcareful : conn.Careful config)
    (hbefore : ¬Overflowed conn.history.before) : conn.GapFree log state.read := by
  have htracked := hreached.sound.tracked id conn hfound
  have hsettled := hreached.orderly.settled id conn hfound
  have hunbroken := hsettled.unbroken hcareful
  refine ⟨htracked.delivered_infix hunbroken state.snapshots_le_read, ?_⟩
  intro earlier event outcome later hoffers hrefused
  exact htracked.delivered_before_refused hunbroken
    (fun hjoined => hsettled.joined hjoined hbefore) hoffers hrefused

theorem Overflow.allows_of_before_nil {overflow : Overflow}
    (hnever : overflow ≠ .never) (hbefore : conn.history.before = []) : overflow.Allows conn := by
  cases overflow with
  | never => exact absurd rfl hnever
  | afterBackfill =>
    rw [Overflow.Allows, hbefore]
    rintro ⟨_, hmem, _⟩
    cases hmem
  | anytime => trivial

theorem Overflow.allows_of_offers_nil (overflow : Overflow)
    (hoffers : conn.history.offers = []) : overflow.Allows conn := by
  have hbefore : conn.history.before = [] := (append_eq_nil_iff.mp hoffers).1
  by_cases hnever : overflow = .never
  · rw [hnever, Overflow.Allows, hoffers]
    rintro ⟨_, hmem, _⟩
    cases hmem
  · exact Overflow.allows_of_before_nil hnever hbefore

theorem not_infix_of_overflow [Inhabited α] (config : ServerConfig) {base : ℕ}
    (hlost : ⟨base + 2, default⟩ ∈ upTo log (base + 3)) :
    ¬List.replicate config.queueDepth ⟨base + 1, default⟩ ++
        [⟨base + 3, default⟩] <:+: upTo log (base + 3) := by
  refine not_infix_of_gap hlost ?_ ?_ ?_ (cons_ne_nil _ _)
  · intro entry hentry
    rw [eq_of_mem_replicate hentry]
    exact Nat.lt_succ_self _
  · intro entry hentry
    rw [mem_singleton.mp hentry]
    exact Nat.lt_succ_self _
  · intro hnil
    have hlength := congrArg List.length hnil
    rw [length_replicate, length_nil] at hlength
    exact Nat.ne_of_gt config.queueDepth_pos hlength

/-- For which configurations and which overflows all streams are free of gaps. -/
theorem gap_free_iff [Inhabited α] (config : ServerConfig) (overflow : Overflow) :
    (∀ (log : ℕ → List α) (state : ServerState α) (id : ℕ) (conn : Connection α),
      state.Reached config log → state.connections id = some conn →
      overflow.Allows conn → conn.GapFree log state.read) ↔
    overflow = .never ∨ config.maxSubscriberLag = 0 ∧ overflow = .afterBackfill := by
  constructor
  · intro hall
    by_contra hcondition
    rw [not_or, not_and_or] at hcondition
    obtain ⟨hnever, hlimit⟩ := hcondition
    by_cases hlag : config.maxSubscriberLag = 0
    · have hanytime : overflow = .anytime := by
        cases overflow with
        | never => exact absurd rfl hnever
        | afterBackfill => exact absurd rfl (hlimit.resolve_left fun hno => hno hlag)
        | anytime => rfl
      subst hanytime
      obtain ⟨log, state, conn, earlier, later, event, hhosts, hsince,
        hoffers, hearlier, hdelivered⟩ := @exists_evicted α _ config hlag
      have hgap := (hall log state 0 conn hhosts.reached hhosts.found
        trivial).2 earlier event .lagExceeded later hoffers (by simp)
      have hmem : ⟨2, default⟩ ∈ earlier.map Prod.fst := by
        rw [hdelivered, hsince] at hgap
        exact hgap.subset mem_cons_self
      obtain ⟨offer, hoffer, hevent⟩ := mem_map.mp hmem
      have hseq := hearlier offer hoffer
      rw [hevent] at hseq
      cases hseq
    · obtain ⟨log, state, conn, base, hhosts, hread, _, _, _, _,
        hbefore, hlost, hdelivered⟩ := @exists_overflow α _ config (Nat.pos_of_ne_zero hlag) 0 0
      have hcontiguous := (hall log state 0 conn hhosts.reached
        hhosts.found (Overflow.allows_of_before_nil hnever hbefore)).1
      rw [hdelivered, hread] at hcontiguous
      exact not_infix_of_overflow config hlost hcontiguous
  · intro hcondition log state id conn hreached hfound hallows
    rcases hcondition with rfl | ⟨hlag, rfl⟩
    · refine hreached.gapFree hfound (.inr hallows) ?_
      intro hbefore
      exact hallows (overflowed_append.mpr (.inl hbefore))
    · refine hreached.gapFree hfound (.inl ?_) hallows
      rw [ServerConfig.lagLimit, hlag]
      rfl

end GapFree

/-! ## A lost event -/

def lossyServer : ServerConfig where
  keepHistory := 16
  sendQueueDepth := 1
  maxSubscriberLag := 1
  maxSubscribers := 0
  keepHistory_pos := Nat.succ_pos 15

def singleEvents (n : ℕ) : List ℕ := [10 * n]

/-- The second frame comes before the subscriber has taken the first one out of its
queue, the third one afterwards. -/
def lossyRun : ServerState ℕ :=
  ServerState.afterSchedule lossyServer singleEvents (.initial lossyServer)
    [(1, .subscribe (some 0) true), (3, .connection 0 true),
      (12, .extractor .frame), (4, .connection 0 true), (6, .extractor .frame),
      (4, .connection 0 true)]

theorem lossyRun_delivers :
    lossyRun.read = 3 ∧
      ∃ conn, lossyRun.connections 0 = some conn ∧ conn.delivered = [⟨1, 10⟩, ⟨3, 30⟩] :=
  ⟨by decide +kernel, exists_connection (by decide +kernel)⟩

theorem lossyServer_loses_event :
    ∃ (state : ServerState ℕ) (conn : Connection ℕ), state.Reached lossyServer singleEvents ∧
      state.connections 0 = some conn ∧ ⟨2, 20⟩ ∈ upTo singleEvents state.read ∧
      conn.delivered = [⟨1, 10⟩, ⟨3, 30⟩] ∧ ¬conn.GapFree singleEvents state.read := by
  obtain ⟨hread, conn, hfound, hdelivered⟩ := lossyRun_delivers
  have hlost : ⟨2, 20⟩ ∈ upTo singleEvents lossyRun.read := by
    decide
  refine ⟨lossyRun, conn,
    ServerState.afterSchedule_reachable _ _ _ _, hfound, hlost, hdelivered, ?_⟩
  rintro ⟨hcontiguous, _⟩
  rw [hdelivered] at hcontiguous
  exact @not_infix_of_gap ℕ singleEvents [⟨1, 10⟩] [⟨3, 30⟩] _ _ hlost
    (by simp) (by simp) (cons_ne_nil _ _) (cons_ne_nil _ _) hcontiguous

end EventStream
end Canon
