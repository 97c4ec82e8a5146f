import Canon.EventServerInvariant

/-!
# Refused events

A queue refuses an event when it is full, when the subscriber was evicted before,
or when its thread has returned.  A full queue alone does not end the session: up
to the lag limit the next event may be accepted again.  The other refusals are
final, and `Connection.Settled` is the invariant behind this.
-/

namespace Canon
namespace EventStream

open Sequenced List

section Definitions

variable {α : Type}

def Overflowed (offers : List (Offer α)) : Prop := ∃ offer ∈ offers, offer.2.overflowed = true

def AllEnqueued (offers : List (Offer α)) : Prop := ∀ offer ∈ offers, offer.2 = .enqueued

def Unbroken (offers : List (Offer α)) : Prop := offers.Pairwise fun earlier later =>
    later.2 = .enqueued → earlier.2 = .enqueued

/-- The call of `try_enqueue` in progress, if it is for this connection. -/
def Extractor.current (id : ℕ) (extractor : Extractor α) : Option (EnqueueOp α) :=
  match extractor.todo with
  | [] => none
  | (target, op) :: _ => if target = id then some op else none

def Connection.Careful (config : ServerConfig) (conn : Connection α) :
    Prop :=
  config.lagLimit = 0 ∨ ¬Overflowed conn.history.offers

/-- A connection with the call of `try_enqueue` in progress; `doomed` says that a
thread is about to mark it as disconnected. -/
structure Connection.Settled (config : ServerConfig)
    (current : Option (EnqueueOp α)) (doomed : Prop) (conn : Connection α) : Prop where
  unbroken : conn.Careful config → Unbroken conn.history.offers
  refused : conn.Careful config → ¬AllEnqueued conn.history.offers →
    conn.disconnected = true ∨ current = some .evict
  sending : conn.Careful config → ∀ event,
    current = some (.send event) → AllEnqueued conn.history.offers
  dooming : current = some .evict ∨ doomed → Overflowed conn.history.offers ∨ conn.phase = .closed
  registered : conn.phase = .registered → conn.disconnected = true → Overflowed conn.history.offers
  joined : conn.history.joinedAt.isSome = true → ¬Overflowed conn.history.before →
    AllEnqueued conn.history.before
  window : conn.history.registeredAt ≤ conn.history.since + 1

end Definitions

/-! ## Lists of offers -/

section Offers

variable {α : Type} {offers first second : List (Offer α)}

theorem overflowed_append :
    Overflowed (first ++ second) ↔ Overflowed first ∨ Overflowed second := by
  simp [Overflowed, or_and_right, exists_or]

theorem overflowed_singleton (event : CachedEvent α) (outcome : EnqueueOutcome) :
    Overflowed [(event, outcome)] ↔ outcome.overflowed = true := by
  simp [Overflowed]

theorem allEnqueued_append :
    AllEnqueued (first ++ second) ↔ AllEnqueued first ∧ AllEnqueued second := by
  simp [AllEnqueued, or_imp, forall_and]

theorem AllEnqueued.unbroken (hall : AllEnqueued offers) : Unbroken offers := by
  apply pairwise_of_forall_mem_list
  intro earlier hearlier _ _ _
  exact hall earlier hearlier

theorem Unbroken.refuse (hunbroken : Unbroken offers) (event : CachedEvent α)
    {outcome : EnqueueOutcome} (hrefused : outcome ≠ .enqueued) :
    Unbroken (offers ++ [(event, outcome)]) := by
  rw [Unbroken, pairwise_append]
  refine ⟨hunbroken, pairwise_singleton _ _, ?_⟩
  intro earlier _ later hlater henqueued
  rw [mem_singleton.mp hlater] at henqueued
  exact absurd henqueued hrefused

theorem acceptedOf_of_allEnqueued (hall : AllEnqueued offers) :
    acceptedOf offers = offers.map Prod.fst := by
  have hkeep : offers.filter (fun offer => offer.2 = .enqueued) = offers := by
    rw [filter_eq_self]
    intro offer hoffer
    exact decide_eq_true (hall offer hoffer)
  rw [acceptedOf, hkeep]

theorem acceptedOf_enqueuedAll (events : List (CachedEvent α)) :
    acceptedOf (events.map fun event => (event, .enqueued)) = events := by
  rw [acceptedOf_of_allEnqueued, map_map]
  · exact map_id events
  · intro offer hoffer
    obtain ⟨event, _, rfl⟩ := mem_map.mp hoffer
    rfl

theorem acceptedOf_of_refused (hnone : ∀ offer ∈ offers, offer.2 ≠ .enqueued) :
    acceptedOf offers = [] := by
  have hdrop : offers.filter (fun offer => offer.2 = .enqueued) = [] := by
    rw [filter_eq_nil_iff]
    intro offer hoffer
    rw [decide_eq_true_eq]
    exact hnone offer hoffer
  rw [acceptedOf, hdrop]
  rfl

theorem Unbroken.accepted_before {event : CachedEvent α}
    {outcome : EnqueueOutcome} (hrefused : outcome ≠ .enqueued)
    (hunbroken : Unbroken (first ++ (event, outcome) :: second)) :
    acceptedOf (first ++ (event, outcome) :: second) = acceptedOf first := by
  rw [Unbroken, pairwise_append, pairwise_cons] at hunbroken
  have hnone : acceptedOf ((event, outcome) :: second) = [] := by
    apply acceptedOf_of_refused
    intro offer hoffer
    rcases mem_cons.mp hoffer with rfl | hlater
    · exact hrefused
    · intro henqueued
      exact hrefused (hunbroken.2.1.1 offer hlater henqueued)
  rw [acceptedOf_append, hnone, append_nil]

theorem Unbroken.accepted_prefix_offered (hunbroken : Unbroken offers) :
    acceptedOf offers <+: offers.map Prod.fst := by
  by_cases hall : AllEnqueued offers
  · rw [acceptedOf_of_allEnqueued hall]
  · induction offers with
    | nil => exact nil_prefix
    | cons offer rest ih =>
      rw [Unbroken, pairwise_cons] at hunbroken
      obtain ⟨event, outcome⟩ := offer
      by_cases henqueued : outcome = .enqueued
      · subst henqueued
        have hrest : ¬AllEnqueued rest := by
          intro hrest
          exact hall (forall_mem_cons.mpr ⟨rfl, hrest⟩)
        have hcons : acceptedOf ((event, .enqueued) :: rest) = event :: acceptedOf rest := rfl
        rw [hcons, map_cons, prefix_cons_inj]
        exact ih hunbroken.2 hrest
      · have hnone := @Unbroken.accepted_before α [] rest event outcome
          henqueued (pairwise_cons.mpr hunbroken)
        rw [nil_append] at hnone
        rw [hnone]
        exact nil_prefix

end Offers

/-! ## One connection -/

section Settled

variable {α : Type} {config : ServerConfig} {current : Option (EnqueueOp α)}
  {doomed : Prop} {conn next : Connection α} {history : History α}

theorem Connection.Settled.idle {op : Option (EnqueueOp α)} {other : Prop}
    (hsettled : conn.Settled config none doomed)
    (hop : ∀ op', op = some op' → ∃ event, op' = .check event)
    (hother : other → doomed) : conn.Settled config op other := by
  have hevict : op ≠ some .evict := by
    intro hevict
    obtain ⟨event, hcheck⟩ := hop _ hevict
    cases hcheck
  refine ⟨hsettled.unbroken, ?_, ?_, ?_, hsettled.registered, hsettled.joined, hsettled.window⟩
  · intro hcareful hrefused
    exact .inl ((hsettled.refused hcareful hrefused).resolve_right (by simp))
  · intro hcareful event hsend
    obtain ⟨checked, hcheck⟩ := hop _ hsend
    cases hcheck
  · intro hdoomed
    exact hsettled.dooming (.inr (hother (hdoomed.resolve_left hevict)))

theorem Connection.Settled.fresh (hoffers : conn.history.offers = [])
    (hdisconnected : conn.disconnected = false) (hjoined : conn.history.joinedAt = none)
    (hwindow : conn.history.registeredAt ≤ conn.history.since + 1) :
    conn.Settled config none False := by
  have hall : AllEnqueued conn.history.offers := by
    rw [hoffers]
    rintro offer ⟨⟩
  refine ⟨fun _ => hall.unbroken, fun _ hrefused => absurd hall hrefused,
    (by simp), ?_, ?_, ?_, hwindow⟩
  · rintro (hevict | hdoomed)
    · cases hevict
    · exact hdoomed.elim
  · intro _ hyes
    rw [hdisconnected] at hyes
    cases hyes
  · intro hsome
    rw [hjoined] at hsome
    cases hsome

theorem History.offers_offer (event : CachedEvent α) (outcome : EnqueueOutcome)
    (hafter : history.joinedAt = none → history.after = []) :
    (history.offer event outcome).offers = history.offers ++ [(event, outcome)] := by
  unfold History.offer History.offers
  cases hjoined : history.joinedAt with
  | none => simp [hafter hjoined]
  | some => simp

theorem History.before_offer (event : CachedEvent α) (outcome : EnqueueOutcome)
    (hjoined : history.joinedAt.isSome = true) :
    (history.offer event outcome).before = history.before := by
  unfold History.offer
  cases hcase : history.joinedAt with
  | none => simp [hcase] at hjoined
  | some => rfl

theorem History.after_offer (history : History α) (event : CachedEvent α)
    (outcome : EnqueueOutcome) (hjoined : history.joinedAt = none) :
    (history.offer event outcome).after = history.after := by
  rw [History.offer, hjoined]

theorem Connection.Settled.offer {event : CachedEvent α}
    {outcome : EnqueueOutcome} {op : Option (EnqueueOp α)}
    (hsettled : conn.Settled config current doomed)
    (hafter : conn.history.joinedAt = none → conn.history.after = [])
    (hhistory : next.history = conn.history.offer event outcome) (hphase : next.phase = conn.phase)
    (hdisconnected : next.disconnected = conn.disconnected)
    (haccepted : outcome = .enqueued → conn.Careful config → AllEnqueued conn.history.offers)
    (hrefused : outcome ≠ .enqueued → next.Careful config →
      conn.disconnected = true ∨ op = some .evict) (hop : ∀ sent, op ≠ some (.send sent))
    (hevict : op = some .evict → outcome.overflowed = true ∨ conn.phase = .closed) :
    next.Settled config op doomed := by
  have hoffers : next.history.offers = conn.history.offers ++ [(event, outcome)] := by
    rw [hhistory, History.offers_offer event outcome hafter]
  have hcareful : next.Careful config → conn.Careful config := by
    rintro (hzero | hnone)
    · exact .inl hzero
    · rw [hoffers, overflowed_append] at hnone
      exact .inr fun hsome => hnone (.inl hsome)
  have hoverflowed : Overflowed conn.history.offers → Overflowed next.history.offers := by
    rw [hoffers, overflowed_append]
    exact .inl
  have hall : outcome = .enqueued → next.Careful config → AllEnqueued next.history.offers := by
    intro henqueued hnext
    rw [hoffers, allEnqueued_append]
    refine ⟨haccepted henqueued (hcareful hnext), ?_⟩
    intro offer hoffer
    rw [mem_singleton.mp hoffer]
    exact henqueued
  refine ⟨?_, ?_, fun _ sent hsent => absurd hsent (hop sent), ?_, ?_, ?_, ?_⟩
  · intro hnext
    by_cases henqueued : outcome = .enqueued
    · exact (hall henqueued hnext).unbroken
    · rw [hoffers]
      exact (hsettled.unbroken (hcareful hnext)).refuse event henqueued
  · intro hnext hsome
    by_cases henqueued : outcome = .enqueued
    · exact absurd (hall henqueued hnext) hsome
    · rw [hdisconnected]
      exact hrefused henqueued hnext
  · rintro (hnow | hdoomed)
    · rw [hphase, hoffers, overflowed_append, overflowed_singleton]
      exact (hevict hnow).imp_left .inr
    · rw [hphase]
      exact (hsettled.dooming (.inr hdoomed)).imp_left hoverflowed
  · rw [hphase, hdisconnected]
    exact fun hregistered hyes =>
      hoverflowed (hsettled.registered hregistered hyes)
  · rw [hhistory, History.offer_joinedAt]
    intro hsome
    rw [History.before_offer event outcome hsome]
    exact hsettled.joined hsome
  · rw [hhistory, History.offer_registeredAt, History.offer_since]
    exact hsettled.window

theorem Connection.Settled.tryEnqueue {op : EnqueueOp α}
    (hsettled : conn.Settled config (some op) doomed)
    (hafter : conn.history.joinedAt = none → conn.history.after = []) :
    (conn.tryEnqueue config op).1.Settled config (conn.tryEnqueue config op).2 doomed := by
  cases op with
  | check event =>
    simp only [Connection.tryEnqueue]
    by_cases hdisconnected : conn.disconnected = true
    · rw [if_pos hdisconnected]
      exact hsettled.offer hafter rfl rfl rfl (by simp)
        (fun _ _ => .inl hdisconnected) (by simp) (by simp)
    · rw [if_neg hdisconnected]
      have hnone : conn.disconnected = true ∨
          some (EnqueueOp.check event) = some .evict → False := by
        rintro (hyes | hevict)
        · exact hdisconnected hyes
        · cases hevict
      refine ⟨hsettled.unbroken, ?_, ?_, ?_, hsettled.registered, hsettled.joined, hsettled.window⟩
      · intro hcareful hrefused
        exact (hnone (hsettled.refused hcareful hrefused)).elim
      · intro hcareful _ _
        by_contra hrefused
        exact hnone (hsettled.refused hcareful hrefused)
      · rintro (hevict | hdoomed)
        · cases hevict
        · exact hsettled.dooming (.inr hdoomed)
  | send event =>
    simp only [Connection.tryEnqueue]
    by_cases hdropped : conn.receiverDropped = true
    · rw [if_pos hdropped]
      have hclosed : conn.phase = .closed := by
        unfold Connection.receiverDropped at hdropped
        split at hdropped
        · assumption
        · cases hdropped
      exact hsettled.offer hafter rfl rfl rfl (by simp)
        (fun _ _ => .inr rfl) (by simp) (fun _ => .inr hclosed)
    · rw [if_neg hdropped]
      by_cases hroom : conn.queue.length < config.queueDepth
      · rw [if_pos hroom]
        exact hsettled.offer hafter rfl rfl rfl
          (fun _ hcareful => hsettled.sending hcareful event rfl)
          (fun hne => absurd rfl hne) (by simp) (by simp)
      · rw [if_neg hroom]
        by_cases hlag : config.lagLimit < conn.lag + 1
        · rw [if_pos hlag]
          exact hsettled.offer hafter rfl rfl rfl (by simp)
            (fun _ _ => .inr rfl) (by simp) (fun _ => .inl rfl)
        · rw [if_neg hlag]
          refine hsettled.offer hafter rfl rfl rfl (by simp) ?_ (by simp) (by simp)
          -- a tolerated overflow: the limit is not zero
          rintro _ (hzero | hnone)
          · omega
          · refine absurd ?_ hnone
            change Overflowed (conn.history.offer event _).offers
            rw [History.offers_offer event _ hafter, overflowed_append, overflowed_singleton]
            exact .inr rfl
  | evict =>
    refine ⟨hsettled.unbroken, fun _ _ => .inl rfl, by rintro _ _ ⟨⟩, ?_, ?_,
      hsettled.joined, hsettled.window⟩
    · rintro (hevict | hdoomed)
      · cases hevict
      · exact hsettled.dooming (.inr hdoomed)
    · intro hregistered _
      have hregistered' : conn.phase = .registered := hregistered
      refine (hsettled.dooming (.inl rfl)).resolve_right ?_
      rw [hregistered']
      simp

theorem Connection.Settled.requestShutdown {op : ShutdownOp}
    (hsettled : conn.Settled config current doomed) (hdoomed : op = .evict → doomed) :
    (conn.requestShutdown config op).1.Settled config current doomed ∧
      ((conn.requestShutdown config op).2 = some .evict → conn.phase = .closed) := by
  cases op with
  | check =>
    refine ⟨hsettled, ?_⟩
    simp only [Connection.requestShutdown]
    split_ifs
    all_goals simp
  | flag =>
    refine ⟨⟨hsettled.unbroken, hsettled.refused, hsettled.sending,
      hsettled.dooming, hsettled.registered, hsettled.joined, hsettled.window⟩, by rintro ⟨⟩⟩
  | send =>
    simp only [Connection.requestShutdown]
    split_ifs with hdropped hroom
    · refine ⟨hsettled, fun _ => ?_⟩
      unfold Connection.receiverDropped at hdropped
      split at hdropped
      · assumption
      · cases hdropped
    · exact ⟨⟨hsettled.unbroken, hsettled.refused, hsettled.sending,
        hsettled.dooming, hsettled.registered, hsettled.joined,
      hsettled.window⟩, by simp⟩
    · exact ⟨hsettled, by simp⟩
  | evict =>
    refine ⟨⟨hsettled.unbroken, fun _ _ => .inl rfl, hsettled.sending,
      hsettled.dooming, ?_, hsettled.joined, hsettled.window⟩, by rintro ⟨⟩⟩
    intro hregistered _
    have hregistered' : conn.phase = .registered := hregistered
    refine (hsettled.dooming (.inr (hdoomed rfl))).resolve_right ?_
    rw [hregistered']
    simp

end Settled

/-! ## The thread of the connection -/

section Thread

variable {α : Type} {config : ServerConfig} {current : Option (EnqueueOp α)}
  {doomed : Prop} {conn next : Connection α} {io : Bool}

structure Connection.Kept (conn next : Connection α) : Prop where
  resumeFrom : next.resumeFrom = conn.resumeFrom
  since : next.history.since = conn.history.since
  registeredAt : next.history.registeredAt = conn.history.registeredAt
  before : next.history.before = conn.history.before
  after : next.history.after = conn.history.after

theorem Connection.Kept.offers (hkept : conn.Kept next) :
    next.history.offers = conn.history.offers := by
  rw [History.offers, hkept.before, hkept.after, History.offers]

theorem Connection.Kept.refl (conn : Connection α) : conn.Kept conn := ⟨rfl, rfl, rfl, rfl, rfl⟩

theorem Connection.Kept.trans {last : Connection α}
    (hfirst : conn.Kept next) (hsecond : next.Kept last) : conn.Kept last :=
  ⟨hsecond.resumeFrom.trans hfirst.resumeFrom, hsecond.since.trans hfirst.since,
    hsecond.registeredAt.trans hfirst.registeredAt,
    hsecond.before.trans hfirst.before, hsecond.after.trans hfirst.after⟩

structure Connection.Moves (conn next : Connection α) : Prop extends conn.Kept next where
  disconnected : conn.disconnected = true → next.disconnected = true
  left : conn.phase ≠ .closed
  entered : next.phase ≠ .registered

theorem Connection.requestShutdown_disconnected (config : ServerConfig)
    (conn : Connection α) (op : ShutdownOp) (hdisconnected : conn.disconnected = true) :
    (conn.requestShutdown config op).1.disconnected = true := by
  cases op with
  | check | flag => exact hdisconnected
  | send =>
    simp only [Connection.requestShutdown]
    split_ifs
    all_goals exact hdisconnected
  | evict => rfl

theorem Connection.advance_moves {stop : Bool} (hstep : conn.advance config stop io = some next) :
    conn.Moves next ∧ next.history.joinedAt = conn.history.joinedAt := by
  have hleft : conn.phase ≠ .closed := by
    intro hclosed
    simp [Connection.advance, hclosed] at hstep
  unfold Connection.advance at hstep
  split at hstep
  case h_6 op hphase =>
    obtain ⟨hsame, _, hhistory, _, _⟩ := conn.requestShutdown_effect config op
    have hflag := conn.requestShutdown_disconnected config op
    simp only at hstep
    split at hstep
    all_goals cases hstep
    all_goals refine ⟨⟨⟨hsame.resumeFrom, ?_, ?_, ?_, ?_⟩, hflag, hleft, by rintro ⟨⟩⟩, ?_⟩
    all_goals exact congrArg _ hhistory
  all_goals try split at hstep
  all_goals try split_ifs at hstep
  all_goals cases hstep
  all_goals first
    | exact ⟨⟨⟨rfl, rfl, rfl, rfl, rfl⟩, id, hleft, by rintro ⟨⟩⟩, rfl⟩
    | exact ⟨⟨⟨rfl, rfl, rfl, rfl, rfl⟩, fun _ => rfl, hleft, by rintro ⟨⟩⟩, rfl⟩

theorem Connection.backfill_moves (read : ℕ) (answer : RangeOutcome α)
    (hphase : conn.phase = .registered) : conn.Moves (conn.backfill read answer) := by
  have hleft : conn.phase ≠ .closed := by
    rw [hphase]
    simp
  cases answer with
  | outOfWindow =>
    exact ⟨⟨rfl, rfl, rfl, rfl, rfl⟩, id, hleft, by rintro ⟨⟩⟩
  | inWindow | atLiveTail => exact ⟨⟨rfl, rfl, rfl, rfl, rfl⟩, id, hleft, by rintro ⟨⟩⟩

theorem ServerState.connectionStep_moves {state final : ServerState α} {id : ℕ}
    (hstep : state.connectionStep config id io conn = some final) :
    ∃ next registry, final = { state.setConnection id next with registry := registry } ∧
      conn.Moves next ∧
      (conn.phase = .registered ∨ next.history.joinedAt = conn.history.joinedAt) := by
  unfold ServerState.connectionStep at hstep
  split at hstep
  · rename_i hphase
    split_ifs at hstep
    exact ⟨_, state.registry, (Option.some.inj hstep).symm,
      conn.backfill_moves _ _ hphase, .inl hphase⟩
  · rename_i hphase
    have hleft : conn.phase ≠ .closed := by
      rw [hphase]
      simp
    exact ⟨_, _, (Option.some.inj hstep).symm,
      ⟨⟨rfl, rfl, rfl, rfl, rfl⟩, fun hyes => hyes, hleft, by rintro ⟨⟩⟩, .inr rfl⟩
  · obtain ⟨next, hnext, rfl⟩ := Option.map_eq_some_iff.mp hstep
    obtain ⟨hmoves, hjoined⟩ := Connection.advance_moves hnext
    exact ⟨next, state.registry, rfl, hmoves, .inr hjoined⟩

theorem Connection.Settled.moves (hsettled : conn.Settled config current doomed)
    (hmoves : conn.Moves next)
    (hjoined : next.history.joinedAt.isSome = true → ¬Overflowed conn.history.before →
      AllEnqueued conn.history.before) :
    next.Settled config current doomed := by
  have hcareful : next.Careful config → conn.Careful config := by
    rw [Connection.Careful, hmoves.offers]
    exact id
  refine ⟨?_, ?_, ?_, ?_, ?_, ?_, ?_⟩
  · rw [hmoves.offers]
    exact fun hnext => hsettled.unbroken (hcareful hnext)
  · rw [hmoves.offers]
    intro hnext hrefused
    exact (hsettled.refused (hcareful hnext) hrefused).imp_left hmoves.disconnected
  · rw [hmoves.offers]
    exact fun hnext => hsettled.sending (hcareful hnext)
  · rw [hmoves.offers]
    intro hdoomed
    exact .inl ((hsettled.dooming hdoomed).resolve_right hmoves.left)
  · intro hregistered
    exact absurd hregistered hmoves.entered
  · rw [hmoves.before]
    exact hjoined
  · rw [hmoves.registeredAt, hmoves.since]
    exact hsettled.window

theorem Connection.Settled.allEnqueued_of_registered
    (hsettled : conn.Settled config current doomed) (hphase : conn.phase = .registered)
    (hnone : ¬Overflowed conn.history.offers) : AllEnqueued conn.history.offers := by
  by_contra hrefused
  rcases hsettled.refused (.inr hnone) hrefused with hyes | hevict
  · exact hnone (hsettled.registered hphase hyes)
  · refine hnone ((hsettled.dooming (.inl hevict)).resolve_right ?_)
    rw [hphase]
    simp

end Thread

end EventStream
end Canon
