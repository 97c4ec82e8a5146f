import Canon.EventDelivery

/-!
# A connection catches up

As long as its writes succeed and nobody asks it to end, the thread of a connection
comes to the head of its loop with an empty queue: the number of items in its hands
and in the queue decreases, and the other threads do not have to move.
-/

namespace Canon
namespace EventStream

open Sequenced List

section Thread

variable {α : Type} {config : ServerConfig} {conn : Connection α} {pending : List (DeliveryEvent α)}

/-- Steps of the thread with successful writes, while the server is not
stopping. -/
def Connection.Advances (config : ServerConfig) : Connection α → Connection α → Prop :=
  Relation.ReflTransGen fun conn next =>
    conn.advance config false true = some next

def Phase.items : Phase α → List (DeliveryEvent α)
  | .draining _ pending | .looping pending | .checking pending
  | .pulling pending => pending
  | .handling next pending => next :: pending
  | _ => []

structure Connection.Unasked (conn : Connection α) : Prop where
  disconnected : conn.disconnected = false
  shutdownRequested : conn.shutdownRequested = false
  sentinel : .shutdown ∉ conn.phase.items ++ conn.queue

def Phase.ending : Phase α → Bool
  | .requesting _ | .closing _ | .unregistering | .closed => true
  | _ => false

theorem Connection.Advances.kept {last : Connection α} (hadvances : conn.Advances config last) :
    conn.Kept last ∧ last.history.joinedAt = conn.history.joinedAt := by
  induction hadvances with
  | refl => exact ⟨.refl conn, rfl⟩
  | tail _ hstep ih =>
    obtain ⟨hmoves, hjoined⟩ := Connection.advance_moves hstep
    exact ⟨ih.1.trans hmoves.toKept, hjoined.trans ih.2⟩

structure Connection.Idle (conn : Connection α) : Prop where
  unasked : conn.Unasked
  phase : conn.phase = .looping []
  queue : conn.queue = []

theorem Connection.Unasked.goTo (hunasked : conn.Unasked)
    {phase : Phase α} (hitems : ∀ item ∈ phase.items,
      item ∈ conn.phase.items ++ conn.queue) : (conn.goTo phase).Unasked := by
  refine ⟨hunasked.disconnected, hunasked.shutdownRequested, ?_⟩
  intro hmem
  rcases mem_append.mp hmem with hitem | hqueue
  · exact hunasked.sentinel (hitems _ hitem)
  · exact hunasked.sentinel (mem_append_right _ hqueue)

theorem Connection.advances_item (hunasked : conn.Unasked)
    (hphase : conn.phase = .pulling pending) (hsome : pending ++ conn.queue ≠ []) :
    ∃ next event later, conn.Advances config next ∧ next.Unasked ∧
      next.phase = .handling (.live event) later ∧
      later.length + next.queue.length + 1 = pending.length + conn.queue.length := by
  have hsentinel := hunasked.sentinel
  rw [hphase] at hsentinel
  cases pending with
  | cons item later =>
    have hpull : conn.advance config false true = some (conn.goTo (.handling item later)) := by
      simp [Connection.advance, hphase]
    cases item with
    | shutdown => simp [Phase.items] at hsentinel
    | live event =>
      refine ⟨_, event, later, .single hpull, hunasked.goTo ?_, rfl, ?_⟩
      · intro item hitem
        rw [hphase]
        exact mem_append_left _ hitem
      · change later.length + conn.queue.length + 1 = _
        rw [length_cons]
        omega
  | nil =>
    cases hqueue : conn.queue with
    | nil => simp [hqueue] at hsome
    | cons item queue =>
      have hpull : conn.advance config false true =
          some ((conn.pop item queue).goTo (.handling item [])) := by
        simp [Connection.advance, hphase, hqueue]
      cases item with
      | shutdown => simp [hqueue, Phase.items] at hsentinel
      | live event =>
        refine ⟨_, event, [], .single hpull,
          ⟨hunasked.disconnected, hunasked.shutdownRequested, ?_⟩, rfl, ?_⟩
        · rw [hqueue] at hsentinel
          exact hsentinel
        · change 0 + queue.length + 1 = _
          rfl

theorem Connection.advances_handled {event : CachedEvent α} (hunasked : conn.Unasked)
    (hphase : conn.phase = .handling (.live event) pending) :
    conn.Advances config ((conn.deliver event).goTo (.looping pending)) ∧
      ((conn.deliver event).goTo (.looping pending)).Unasked := by
  have hwrite : conn.advance config false true =
      some ((conn.deliver event).goTo (.looping pending)) := by
    simp [Connection.advance, hphase]
  refine ⟨.single hwrite, ⟨hunasked.disconnected, hunasked.shutdownRequested, ?_⟩⟩
  intro hmem
  refine hunasked.sentinel ?_
  rw [hphase]
  exact mem_cons_of_mem _ hmem

theorem Connection.advances_looping (hunasked : conn.Unasked)
    (hphase : conn.phase = .looping pending) : ∃ last, conn.Advances config last ∧ last.Idle := by
  generalize hcount : pending.length + conn.queue.length = count
  induction count generalizing conn pending with
  | zero =>
    have hpending : pending = [] := eq_nil_of_length_eq_zero (by omega)
    have hqueue : conn.queue = [] := eq_nil_of_length_eq_zero (by omega)
    exact ⟨conn, .refl, hunasked, by rw [hphase, hpending], hqueue⟩
  | succ count ih =>
    have hcheck : conn.advance config false true = some (conn.goTo (.checking pending)) := by
      simp [Connection.advance, hphase, hunasked.shutdownRequested]
    have hpull : (conn.goTo (.checking pending)).advance config
        false true = some (conn.goTo (.pulling pending)) := by
      simp [Connection.advance, Connection.goTo, hunasked.disconnected]
    have hsome : pending ++ conn.queue ≠ [] := by
      intro hnil
      rw [append_eq_nil_iff] at hnil
      simp [hnil] at hcount
    have hpulling : (conn.goTo (.pulling pending)).Unasked := hunasked.goTo fun item hitem => by
        rw [hphase]
        exact mem_append_left _ hitem
    obtain ⟨next, event, later, hitem, hnext, hhandling, hlength⟩ :=
      @Connection.advances_item α config _ _ hpulling rfl hsome
    obtain ⟨hserved, hafter⟩ := @Connection.advances_handled α config _ _ _ hnext hhandling
    obtain ⟨last, hlast, hidle⟩ := @ih
      ((next.deliver event).goTo (.looping later)) later hafter rfl (by
        change later.length + next.queue.length = count
        change _ = pending.length + conn.queue.length at hlength
        omega)
    refine ⟨last, ?_, hidle⟩
    exact .head hcheck (.head hpull (hitem.trans (hserved.trans hlast)))

theorem Connection.advances_pulling (hunasked : conn.Unasked)
    (hphase : conn.phase = .pulling pending) : ∃ last, conn.Advances config last ∧ last.Idle := by
  by_cases hsome : pending ++ conn.queue = []
  · rw [append_eq_nil_iff] at hsome
    have hwait : conn.advance config false true = some (conn.goTo (.looping [])) := by
      simp [Connection.advance, hphase, hsome]
    exact ⟨_, .single hwait, hunasked.goTo (by simp [Phase.items]), rfl, hsome.2⟩
  · obtain ⟨next, event, later, hitem, hnext, hhandling, _⟩ :=
      @Connection.advances_item α config _ _ hunasked hphase hsome
    obtain ⟨hserved, hafter⟩ := @Connection.advances_handled α config _ _ _ hnext hhandling
    obtain ⟨last, hlast, hidle⟩ := @Connection.advances_looping α config _ _ hafter rfl
    exact ⟨last, hitem.trans (hserved.trans hlast), hidle⟩

theorem Connection.advances_draining {maxBackfilled : ℕ} (hunasked : conn.Unasked)
    (hphase : conn.phase = .draining maxBackfilled pending) :
    ∃ last, conn.Advances config last ∧ last.Idle := by
  generalize hqueue : conn.queue = queue
  induction queue generalizing conn pending with
  | nil =>
    have hdone : conn.advance config false true = some (conn.goTo (.looping pending)) := by
      simp [Connection.advance, hphase, hqueue]
    have hlooping : (conn.goTo (.looping pending)).Unasked := hunasked.goTo fun item hitem => by
        rw [hphase]
        exact mem_append_left _ hitem
    obtain ⟨last, hlast, hidle⟩ := @Connection.advances_looping α config _ _ hlooping rfl
    exact ⟨last, .head hdone hlast, hidle⟩
  | cons item queue ih =>
    have hdrain : conn.advance config false true =
        some ((conn.pop item queue).goTo (.draining maxBackfilled
          (pending ++ drained maxBackfilled item))) := by
      simp [Connection.advance, hphase, hqueue]
    have hsentinel := hunasked.sentinel
    rw [hphase, hqueue] at hsentinel
    have hdrained : .shutdown ∉ drained maxBackfilled item := by
      cases item with
      | shutdown => simp at hsentinel
      | live =>
        simp only [drained]
        split_ifs <;> simp
    have hkept : .shutdown ∉ (pending ++ drained maxBackfilled item) ++ queue := by
      intro hmem
      rw [append_assoc, mem_append, mem_append] at hmem
      rcases hmem with hold | hnew | hlater
      · exact hsentinel (mem_append_left _ hold)
      · exact hdrained hnew
      · exact hsentinel (mem_append_right _ (mem_cons_of_mem _ hlater))
    obtain ⟨last, hlast, hidle⟩ := @ih ((conn.pop item queue).goTo (.draining maxBackfilled
        (pending ++ drained maxBackfilled item))) (pending ++ drained maxBackfilled item)
      ⟨hunasked.disconnected, hunasked.shutdownRequested, hkept⟩ rfl rfl
    exact ⟨last, .head hdrain hlast, hidle⟩

theorem Connection.advances_entering (hunasked : conn.Unasked) (hphase : conn.phase = .entering) :
    ∃ last, conn.Advances config last ∧ last.Idle := by
  by_cases hzero : 0 < conn.lastDeliveredSeq
  · have henter : conn.advance config false true = some (conn.goTo
        (.draining conn.lastDeliveredSeq [])) := by
      simp [Connection.advance, hphase, hzero]
    obtain ⟨last, hlast, hidle⟩ := @Connection.advances_draining α config
      (conn.goTo (.draining conn.lastDeliveredSeq [])) [] _
      (hunasked.goTo (by simp [Phase.items])) rfl
    exact ⟨last, .head henter hlast, hidle⟩
  · have henter : conn.advance config false true = some (conn.goTo (.looping [])) := by
      simp [Connection.advance, hphase, hzero]
    obtain ⟨last, hlast, hidle⟩ := @Connection.advances_looping α config
      (conn.goTo (.looping [])) [] (hunasked.goTo (by simp [Phase.items])) rfl
    exact ⟨last, .head henter hlast, hidle⟩

theorem Connection.advances_backfilled (hunasked : conn.Unasked)
    (hphase : conn.phase = .backfilled) : ∃ last, conn.Advances config last ∧ last.Idle := by
  have henter : conn.advance config false true = some (conn.goTo .entering) := by
    simp [Connection.advance, hphase]
  obtain ⟨last, hlast, hidle⟩ := @Connection.advances_entering α config
    (conn.goTo .entering) (hunasked.goTo (by simp [Phase.items])) rfl
  exact ⟨last, .head henter hlast, hidle⟩

theorem Connection.advances_backfilling {events : List (CachedEvent α)}
    (hunasked : conn.Unasked) (hphase : conn.phase = .backfilling events) :
    ∃ last, conn.Advances config last ∧ last.Idle := by
  induction events generalizing conn with
  | nil =>
    have hdone : conn.advance config false true = some (conn.goTo .backfilled) := by
      simp [Connection.advance, hphase]
    obtain ⟨last, hlast, hidle⟩ := @Connection.advances_backfilled α config
      (conn.goTo .backfilled) (hunasked.goTo (by simp [Phase.items])) rfl
    exact ⟨last, .head hdone hlast, hidle⟩
  | cons event rest ih =>
    have hwrite : conn.advance config false true =
        some ((conn.deliver event).goTo (.backfilling rest)) := by
      simp [Connection.advance, hphase]
    have hsentinel := hunasked.sentinel
    rw [hphase] at hsentinel
    obtain ⟨last, hlast, hidle⟩ := @ih ((conn.deliver event).goTo (.backfilling rest))
      ⟨hunasked.disconnected, hunasked.shutdownRequested, hsentinel⟩ rfl
    exact ⟨last, .head hwrite hlast, hidle⟩

theorem Connection.advances_idle (hunasked : conn.Unasked)
    (hopen : conn.phase.ending = false) (hanswered : conn.phase ≠ .registered) :
    ∃ last, conn.Advances config last ∧
      (last.Idle ∨ ∃ oldest, .truncated oldest ∈ last.written) := by
  have hidle : (∃ last, conn.Advances config last ∧ last.Idle) →
      ∃ last, conn.Advances config last ∧
        (last.Idle ∨ ∃ oldest, .truncated oldest ∈ last.written) :=
    fun ⟨last, hlast, hdone⟩ => ⟨last, hlast, .inl hdone⟩
  cases hphase : conn.phase with
  | registered => exact absurd hphase hanswered
  | truncating oldest =>
    have hwrite : conn.advance config false true =
        some ((conn.write (.truncated oldest)).goTo .unregistering) := by
      simp [Connection.advance, hphase]
    exact ⟨_, .single hwrite, .inr ⟨oldest, mem_append_right _ (mem_singleton_self _)⟩⟩
  | backfilling =>
    exact hidle (Connection.advances_backfilling hunasked hphase)
  | backfilled => exact hidle (Connection.advances_backfilled hunasked hphase)
  | requesting | closing | unregistering | closed => simp [hphase, Phase.ending] at hopen
  | entering => exact hidle (Connection.advances_entering hunasked hphase)
  | draining =>
    exact hidle (Connection.advances_draining hunasked hphase)
  | looping =>
    exact hidle (Connection.advances_looping hunasked hphase)
  | checking pending =>
    have hpull : conn.advance config false true = some (conn.goTo (.pulling pending)) := by
      simp [Connection.advance, hphase, hunasked.disconnected]
    have hpulling : (conn.goTo (.pulling pending)).Unasked := hunasked.goTo fun item hitem => by
        rw [hphase]
        exact mem_append_left _ hitem
    obtain ⟨last, hlast, hdone⟩ := @Connection.advances_pulling α config _ _ hpulling rfl
    exact ⟨last, .head hpull hlast, .inl hdone⟩
  | pulling =>
    exact hidle (Connection.advances_pulling hunasked hphase)
  | handling item =>
    cases item with
    | shutdown =>
      have hsentinel := hunasked.sentinel
      simp [hphase, Phase.items] at hsentinel
    | live =>
      obtain ⟨hserved, hafter⟩ := @Connection.advances_handled α config _ _ _ hunasked hphase
      obtain ⟨last, hlast, hdone⟩ := @Connection.advances_looping α config _ _ hafter rfl
      exact ⟨last, hserved.trans hlast, .inl hdone⟩

end Thread

/-! ## In the server -/

section Server

variable {α : Type} {log : ℕ → List α} {config : ServerConfig}
  {state : ServerState α} {id : ℕ} {conn : Connection α}

def ServerState.ThreadRuns (config : ServerConfig) (log : ℕ → List α)
    (id : ℕ) (state final : ServerState α) : Prop := Reachable (fun state (_ : Unit) =>
    serverStep config log state (.connection id true)) state final

theorem ServerState.ThreadRuns.reached {final : ServerState α}
    (hruns : state.ThreadRuns config log id final)
    (hreached : state.Reached config log) : final.Reached config log :=
  Reachable.invariant (fun _ _ _ hstep hbefore => hbefore.tail hstep) hruns hreached

theorem ServerState.setConnection_found (state : ServerState α) (id : ℕ) (conn : Connection α) :
    (state.setConnection id conn).connections id = some conn := Function.update_self _ _ _

theorem ServerState.setConnection_setConnection (state : ServerState α)
    (id : ℕ) (first second : Connection α) :
    (state.setConnection id first).setConnection id second = state.setConnection id second := by
  rw [ServerState.setConnection, ServerState.setConnection, Function.update_idem]
  rfl

theorem ServerState.setConnection_self (hfound : state.connections id = some conn) :
    state.setConnection id conn = state := by
  rw [ServerState.setConnection, ← hfound, Function.update_eq_self]

theorem serverStep_advance {io : Bool} {next : Connection α}
    (hfound : state.connections id = some conn)
    (hadvance : conn.advance config state.stop io = some next) :
    serverStep config log state (.connection id io) = .ok (state.setConnection id next) := by
  have hstep : state.connectionStep config id io conn = some (state.setConnection id next) := by
    unfold ServerState.connectionStep
    split
    · rename_i hphase
      simp [Connection.advance, hphase] at hadvance
    · rename_i hphase
      simp [Connection.advance, hphase] at hadvance
    · rw [hadvance]
      rfl
  rw [serverStep, hfound, Option.bind_some, hstep]
  rfl

theorem Connection.Advances.threadRuns {last : Connection α}
    (hadvances : conn.Advances config last) (hstop : state.stop = false) (log : ℕ → List α) :
    (state.setConnection id conn).ThreadRuns config log id (state.setConnection id last) := by
  induction hadvances with
  | refl => exact .refl _
  | @tail next last _ hstep ih =>
    have hserver := @serverStep_advance α log config (state.setConnection id next) id next true last
      (state.setConnection_found id next) (hstop ▸ hstep)
    rw [ServerState.setConnection_setConnection] at hserver
    exact @Reachable.tail _ _ _ _ _ _ _ () ih hserver

theorem serverStep_backfill {io : Bool} (hfound : state.connections id = some conn)
    (hphase : conn.phase = .registered) (hlocked : state.locked = false) :
    serverStep config log state (.connection id io) =
      .ok (state.setConnection id (conn.backfill state.read
        (state.cache.range conn.resumeFrom))) := by
  rw [serverStep, hfound, Option.bind_some, ServerState.connectionStep, hphase]
  simp [hlocked]

theorem Connection.Unasked.backfill (hunasked : conn.Unasked) (read : ℕ) (answer : RangeOutcome α) :
    (conn.backfill read answer).Unasked ∧ (conn.backfill read answer).phase.ending = false := by
  have hsentinel : .shutdown ∉ conn.queue := fun hmem =>
    hunasked.sentinel (mem_append_right _ hmem)
  cases answer with
  | outOfWindow | inWindow | atLiveTail =>
    exact ⟨⟨hunasked.disconnected, hunasked.shutdownRequested, hsentinel⟩, rfl⟩

theorem ServerState.threadRuns_idle (hfound : state.connections id = some conn)
    (hlocked : state.locked = false) (hstop : state.stop = false) (hunasked : conn.Unasked)
    (hopen : conn.phase.ending = false) (log : ℕ → List α) :
    ∃ last, state.ThreadRuns config log id (state.setConnection id last) ∧ conn.Kept last ∧
      (last.Idle ∨ ∃ oldest, .truncated oldest ∈ last.written) := by
  by_cases hphase : conn.phase = .registered
  · have hasked := @serverStep_backfill α log config state id conn true hfound hphase hlocked
    have hmoves := conn.backfill_moves state.read (state.cache.range conn.resumeFrom) hphase
    obtain ⟨hanswered, hserving⟩ := hunasked.backfill state.read (state.cache.range conn.resumeFrom)
    obtain ⟨last, hadvances, hdone⟩ := @Connection.advances_idle α config _
      hanswered hserving hmoves.entered
    have hfirst : state.ThreadRuns config log id (state.setConnection id
        (conn.backfill state.read (state.cache.range conn.resumeFrom))) :=
      @Reachable.tail _ _ _ _ _ _ _ () (.refl state) hasked
    have hruns := @Connection.Advances.threadRuns α config state id _ last hadvances hstop log
    exact ⟨last, Reachable.trans hfirst hruns, hmoves.toKept.trans hadvances.kept.1, hdone⟩
  · obtain ⟨last, hadvances, hdone⟩ := @Connection.advances_idle α config conn hunasked hopen hphase
    have hruns := @Connection.Advances.threadRuns α config state id conn last hadvances hstop log
    rw [ServerState.setConnection_self hfound] at hruns
    exact ⟨last, hruns, hadvances.kept.1, hdone⟩

end Server

end EventStream
end Canon
