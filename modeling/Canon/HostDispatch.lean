import Canon.HostInvariant
import Canon.RunAccounting

/-!
# Orderly dispatch

The requests reach the kernel in the order in which they were enqueued, each of them
at most once, and a connection receives only the answer to its own request.  The
counter of the connections counts those which have a slot, however their threads end.
-/

namespace Canon
namespace Host

def HostState.liveSlots (state : HostState) : ℕ :=
  ((Finset.range state.nextId).filter fun id =>
    (state.connections id).any (fun conn => conn.phase.hasSlot) = true).card

structure HostState.Counted (config : ServerConfig) (state : HostState) : Prop where
  counter : state.counter = state.liveSlots
  capped : state.counter ≤ config.slotCap

section Host

variable {config : ServerConfig} {state next : HostState}

def slotsOf (found : Option Connection) : ℕ :=
  if found.any (fun conn => conn.phase.hasSlot) = true then 1
  else 0

theorem HostState.liveSlots_eq_sum (state : HostState) :
    state.liveSlots = ∑ id ∈ Finset.range state.nextId, slotsOf (state.connections id) :=
  Finset.card_filter _ _

theorem slotsOf_some (conn : Connection) : slotsOf (some conn) = conn.phase.slots := rfl

theorem HostState.slotsOf_sendReply {target : ℕ} {response : VerdictResponse} (id : ℕ) :
    slotsOf ((state.sendReply target response).connections id) =
      slotsOf (state.connections id) := by
  unfold HostState.sendReply
  split
  · rfl
  next conn hsome =>
    split_ifs
    · by_cases hid : id = target
      · subst hid
        rw [hsome, HostState.setConnection_self]
        rfl
      · exact congrArg slotsOf (Function.update_of_ne hid _ _)
    · rfl

theorem HostState.Counted.effect (hcounted : state.Counted config)
    (hsound : state.Sound config) (heffect : state.Effect config next) :
    next.Counted config := by
  have hcounter := hcounted.counter
  have hcapped := hcounted.capped
  rw [HostState.liveSlots_eq_sum] at hcounter
  cases heffect with
  | idle hconnections hnextId hsame _ | worked hconnections hnextId hsame _ =>
    refine ⟨?_, hsame.symm ▸ hcapped⟩
    rw [HostState.liveSlots_eq_sum, hconnections, hnextId, hsame]
    exact hcounter
  | accepted _ _ hconnections hnextId hsame =>
    refine ⟨?_, hsame.symm ▸ hcapped⟩
    rw [HostState.liveSlots_eq_sum, hconnections, hnextId, hsame,
      Finset.sum_range_succ, Function.update_self,
      sum_entry_outside slotsOf state.connections _ Finset.notMem_range_self]
    exact hcounter
  | @moved id conn after hfound _ hconnections hnextId hchanged hcap _ =>
    refine ⟨?_, hcap.elim (fun hle => hle.trans hcapped) fun hle => hle⟩
    have hid := Finset.mem_range.mpr (hsound.numbered id conn hfound)
    have hexchange := sum_exchange_entry slotsOf state.connections
      (Finset.range state.nextId) (some after) hid
    rw [hfound, slotsOf_some, slotsOf_some] at hexchange
    rw [HostState.liveSlots_eq_sum, hconnections, hnextId, hchanged]
    omega
  | @enqueued id conn payload hfound hphase hconnections hnextId hsame _ =>
    refine ⟨?_, hsame.symm ▸ hcapped⟩
    have hid := Finset.mem_range.mpr (hsound.numbered id conn hfound)
    have hexchange := sum_exchange_entry slotsOf state.connections
      (Finset.range state.nextId) (some (conn.goTo .waiting)) hid
    have hslots : conn.phase.slots = 1 := by
      rw [hphase]
      rfl
    have hwaiting : (conn.goTo .waiting).phase.slots = 1 := rfl
    rw [hfound, slotsOf_some, slotsOf_some, hslots, hwaiting] at hexchange
    rw [HostState.liveSlots_eq_sum, hconnections, hnextId, hsame]
    omega
  | replied _ hconnections hnextId hsame =>
    refine ⟨?_, hsame.symm ▸ hcapped⟩
    rw [HostState.liveSlots_eq_sum, hconnections, hnextId, hsame, hcounter]
    exact Finset.sum_congr rfl fun id _ =>
      (HostState.slotsOf_sendReply id).symm

theorem HostState.Reached.counted (hreached : state.Reached config) : state.Counted config := by
  have hstart : HostState.initial.Counted config := ⟨rfl, Nat.zero_le _⟩
  have hboth := @HostState.reachable_invariant config
    (fun state => state.Sound config ∧ state.Counted config)
    (fun before after hbefore heffect =>
      ⟨hbefore.1.effect heffect, hbefore.2.effect hbefore.1 heffect⟩)
    _ _ hreached ⟨HostState.initial_sound config, hstart⟩
  exact hboth.2

/-- In every state of the host, however the threads are interleaved and however
they end: the kernel was given the requests in the order in which they were
enqueued, none of them twice; the reply a connection has received is the answer to
its own request; and the counter is the number of slots, which is within the cap and
zero without a connection that has one. -/
theorem orderly_dispatch (hreached : state.Reached config) :
    state.dispatcher.dispatched <+: state.dispatcher.enqueued ∧
    (state.dispatcher.dispatched.map QueuedRequest.reply).Nodup ∧
    (∀ id conn response, state.connections id = some conn →
      conn.received = some response → ∃ payload,
        (readFrame config.handler.maxFrameSize conn.stream).1 = .ok payload ∧
        (⟨payload, id⟩, response) ∈ state.dispatcher.answered) ∧ state.counter = state.liveSlots ∧
    state.counter ≤ min config.handler.maxConcurrentConnections hardMaxConcurrentConnections ∧
    ((∀ id conn, state.connections id = some conn →
      conn.phase.hasSlot = false) → state.counter = 0) := by
  have hsound := hreached.sound
  have hcounted := hreached.counted
  have hdispatched := hsound.ordered.dispatched_prefix_enqueued
  refine ⟨hdispatched, ?_, ?_, hcounted.counter, hcounted.capped, ?_⟩
  · exact hsound.ordered.distinct.sublist (hdispatched.sublist.map _)
  · intro id conn response hfound hreceived
    have htracked := hsound.tracked id conn hfound
    obtain ⟨⟨request, answer⟩, hcall, hreply, hanswer⟩ := htracked.replied response (.inr hreceived)
    have hframe := (htracked.requested request (hsound.ordered.of_answered hcall) hreply).2
    refine ⟨request.payload, hframe, ?_⟩
    rw [← hreply, ← hanswer]
    exact hcall
  · intro hnone
    rw [hcounted.counter, HostState.liveSlots, Finset.card_eq_zero, Finset.filter_eq_empty_iff]
    intro id _ hany
    cases hfound : state.connections id with
    | none =>
      rw [hfound] at hany
      cases hany
    | some conn =>
      rw [hfound, Option.any_some, hnone id conn hfound] at hany
      cases hany

end Host

def smallHost : ServerConfig := ⟨1, ⟨16, 2⟩, [.tcp]⟩

def clientArrives (byte : UInt8) : List HostLabel :=
  [.listener 0 .proceed, .listener 0 (.connect [.bytes [0, 0, 0, 1, byte]]),
    .listener 0 .proceed, .listener 0 .proceed, .listener 0 .proceed]

/-- The first client is served while the second one waits; then the thread of the
second one panics and gives its slot back. -/
def servedRun : HostState := .afterLabels smallHost (clientArrives 7 ++ clientArrives 8 ++
    [.handler 0 .read, .handler 0 (.submit false), .handler 1 .read,
      .worker .proceed, .worker .proceed, .handler 1 (.submit false),
      .worker (.answer (.returned (.fromVerdict .ok))), .worker .proceed,
      .handler 0 .receive, .handler 1 .panic, .handler 1 .release])

theorem servedRun_orderly : servedRun.dispatcher.enqueued = [⟨[7], 0⟩, ⟨[8], 1⟩] ∧
    servedRun.dispatcher.dispatched = [⟨[7], 0⟩] ∧
    servedRun.dispatcher.dispatched <+: servedRun.dispatcher.enqueued ∧
    (∃ conn, servedRun.connections 0 = some conn ∧
      conn.received = some (.fromVerdict .ok)) ∧ servedRun.liveSlots = 1 := by
  have hreached : servedRun.Reached smallHost := HostState.afterLabels_reached smallHost _
  have horderly := orderly_dispatch hreached
  refine ⟨by decide +kernel, by decide +kernel, horderly.1, exists_found (by decide +kernel), ?_⟩
  decide +kernel

end Host
end Canon
