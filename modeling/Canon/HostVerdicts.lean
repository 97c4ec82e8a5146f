import Canon.HostShutdown

/-!
# The verdicts told to the clients

A client is told a verdict, and relies on it: after `Ok` its request has been
admitted, after any other verdict it is not admitted any more.  The second half fails
when the reply does not come in time.
-/

namespace Canon
namespace Host

open List

/-- The request of a connection may be admitted, or has been without a reply: it is
in a queue at which the worker still looks, or in the kernel, or the worker is about
to report its admission. -/
def Dispatcher.MayAdmit (id : ℕ) (dispatcher : Dispatcher) : Prop :=
  (dispatcher.worker.isGone = false ∧ ∃ request ∈ dispatcher.queue, request.reply = id) ∨
  (∃ request draining, dispatcher.worker = .submitting request draining ∧ request.reply = id) ∨
  ∃ request response draining, dispatcher.worker = .replying request response draining ∧
      request.reply = id ∧ response.verdict = .ok

/-- What the kernel has done with the request of a connection agrees with a
verdict. -/
def Dispatcher.Confirms (config : ServerConfig) (id : ℕ)
    (conn : Connection) (verdict : Verdict) (dispatcher : Dispatcher) : Prop :=
  if verdict = .ok then
    ∃ request ∈ dispatcher.admitted, request.reply = id ∧
      (readFrame config.handler.maxFrameSize conn.stream).1 = .ok request.payload
  else ∀ request ∈ dispatcher.admitted, request.reply ≠ id

def HostState.Truthful (config : ServerConfig) (id : ℕ) (state : HostState) :
    Prop :=
  ∀ conn verdict, state.connections id = some conn → conn.sent.head? = some verdict.toByte →
    state.dispatcher.Confirms config id conn verdict

section Admission

variable {config : ServerConfig} {dispatcher next : Dispatcher} {id : ℕ} {request : QueuedRequest}
  {response : VerdictResponse}

theorem Dispatcher.mem_admitted :
    request ∈ dispatcher.admitted ↔ ∃ response, (request, response) ∈ dispatcher.answered ∧
        response.verdict = .ok := by
  constructor
  · intro hmem
    obtain ⟨⟨found, response⟩, hcall, rfl⟩ := mem_map.mp hmem
    obtain ⟨hcall, hok⟩ := mem_filter.mp hcall
    exact ⟨response, hcall, of_decide_eq_true hok⟩
  · rintro ⟨response, hcall, hok⟩
    exact mem_map.mpr ⟨(request, response), mem_filter.mpr ⟨hcall, decide_eq_true hok⟩, rfl⟩

theorem Dispatcher.Works.admitted (hworks : dispatcher.Works next)
    (hmem : request ∈ next.admitted) :
    request ∈ dispatcher.admitted ∨ dispatcher.worker.inKernel = some request := by
  cases hworks with
  | idled | took | dropped => exact .inl hmem
  | answered _ hworker =>
    obtain ⟨found, hcall, hok⟩ := Dispatcher.mem_admitted.mp hmem
    rcases mem_append.mp hcall with hold | hnew
    · exact .inl (Dispatcher.mem_admitted.mpr ⟨found, hold, hok⟩)
    · cases mem_singleton.mp hnew
      refine .inr ?_
      rw [hworker]
      rfl

theorem Dispatcher.Works.mayAdmit (hworks : dispatcher.Works next)
    (hmay : next.MayAdmit id) : dispatcher.MayAdmit id := by
  cases hworks with
  | idled _ hstays hnext =>
    rcases hmay with ⟨_, hqueue⟩ | ⟨_, _, rfl, _⟩ | ⟨_, _, _, rfl, _⟩
    · exact .inl ⟨hstays, hqueue⟩
    all_goals cases hnext
  | @took current rest draining _ hstays hqueue =>
    refine .inl ⟨hstays, ?_⟩
    rw [hqueue]
    rcases hmay with ⟨_, request, hmem, hreply⟩ | ⟨_, _, hworker, hreply⟩ | ⟨_, _, _, hworker, _⟩
    · exact ⟨request, mem_cons_of_mem _ hmem, hreply⟩
    · cases hworker
      exact ⟨current, mem_cons_self, hreply⟩
    · cases hworker
  | @answered current draining response hworker =>
    rcases hmay with ⟨_, hqueue⟩ | ⟨_, _, hnext, _⟩ | ⟨_, _, _, hnext, hreply, _⟩
    · exact .inl ⟨by rw [hworker]; rfl, hqueue⟩
    · cases hnext
    · cases hnext
      exact .inr (.inl ⟨current, draining, hworker, hreply⟩)
  | dropped =>
    rcases hmay with ⟨hstays, _⟩ | ⟨_, _, hnext, _⟩ | ⟨_, _, _, hnext, _⟩
    · cases hstays
    all_goals cases hnext

theorem Dispatcher.Accepts.mayAdmit (haccepts : dispatcher.Accepts config request next)
    (hother : request.reply ≠ id) (hmay : next.MayAdmit id) : dispatcher.MayAdmit id := by
  cases haccepts with
  | queued =>
    rcases hmay with ⟨hstays, found, hmem, hreply⟩ | hkernel
    · rcases mem_append.mp hmem with hold | hnew
      · exact .inl ⟨hstays, found, hold, hreply⟩
      · rw [mem_singleton.mp hnew] at hreply
        exact absurd hreply hother
    · exact .inr hkernel
  | handed _ hworker =>
    rcases hmay with ⟨_, hqueue⟩ | ⟨_, _, hnext, hreply⟩ | ⟨_, _, _, hnext, _⟩
    · exact .inl ⟨by rw [hworker]; rfl, hqueue⟩
    · cases hnext
      exact absurd hreply hother
    · cases hnext

theorem Dispatcher.mayAdmit_of_back {current : QueuedRequest} {draining : Bool}
    (hworker : dispatcher.worker = .replying current response draining)
    (hmay : ({ dispatcher with worker := .back draining } :
      Dispatcher).MayAdmit id) : dispatcher.MayAdmit id := by
  rcases hmay with ⟨_, hqueue⟩ | ⟨_, _, hnext, _⟩ | ⟨_, _, _, hnext, _⟩
  · exact .inl ⟨by rw [hworker]; rfl, hqueue⟩
  all_goals cases draining <;> cases hnext

theorem Dispatcher.mayAdmit_of_inKernel (hkernel : dispatcher.worker.inKernel = some request) :
    dispatcher.MayAdmit request.reply := by
  cases hworker : dispatcher.worker <;> rw [hworker] at hkernel <;>
    cases hkernel
  exact .inr (.inl ⟨request, _, hworker, rfl⟩)

theorem Dispatcher.Ordered.enqueued_of_mayAdmit
    (hordered : dispatcher.Ordered config) (hmay : dispatcher.MayAdmit id) :
    ∃ request ∈ dispatcher.enqueued, request.reply = id := by
  obtain ⟨lost, horder, _⟩ := hordered.order
  rcases hmay with ⟨_, request, hmem, hreply⟩ | ⟨request, draining, hworker, hreply⟩ |
    ⟨request, response, draining, hworker, hreply, _⟩
  · refine ⟨request, ?_, hreply⟩
    rw [horder]
    exact mem_append_left _ (mem_append_right _ hmem)
  · refine ⟨request, hordered.dispatched_prefix_enqueued.subset ?_, hreply⟩
    refine mem_append_right _ ?_
    rw [hworker]
    exact mem_singleton_self _
  · exact ⟨request, hordered.of_answered
      (hordered.outgoing (request, response) (by rw [hworker]; rfl)), hreply⟩

theorem Dispatcher.Ordered.not_mayAdmit (hordered : dispatcher.Ordered config)
    (hcall : (request, response) ∈ dispatcher.answered) (hverdict : response.verdict ≠ .ok) :
    ¬dispatcher.MayAdmit request.reply := by
  have hanswered : request ∈ dispatcher.answered.map Prod.fst := mem_map_of_mem hcall
  have hnodup := hordered.distinct.of_map
  obtain ⟨lost, horder, _⟩ := hordered.order
  rw [horder, append_assoc, Dispatcher.dispatched, append_assoc] at hnodup
  have hdisjoint := (nodup_append.mp hnodup).2.2 request hanswered
  have hunique : ∀ other ∈ dispatcher.enqueued, other.reply = request.reply → other = request :=
    fun other hother =>
      hordered.request_unique hother (hordered.of_answered hcall)
  rintro (⟨_, other, hmem, hreply⟩ | ⟨other, draining, hworker, hreply⟩ |
    ⟨other, answer, draining, hworker, hreply, hok⟩)
  · have hsame := hunique other (by
      rw [horder]
      exact mem_append_left _ (mem_append_right _ hmem)) hreply
    refine hdisjoint other ?_ hsame.symm
    exact mem_append_right _ (mem_append_left _ hmem)
  · have hkernel : other ∈ dispatcher.worker.inKernel.toList := by
      rw [hworker]
      exact mem_singleton_self _
    have hsame := hunique other (hordered.dispatched_prefix_enqueued.subset
      (mem_append_right _ hkernel)) hreply
    exact hdisjoint other (mem_append_left _ hkernel) hsame.symm
  · have hout := hordered.outgoing (other, answer) (by rw [hworker]; rfl)
    have hsame := hordered.call_unique hout hcall hreply
    cases hsame
    exact hverdict hok

end Admission

/-! ## Decided answers -/

structure HostState.Settled (config : ServerConfig) (id : ℕ)
    (response : VerdictResponse) (state : HostState) : Prop where
  sound : state.Sound config
  decided : ∃ conn, state.connections id = some conn ∧
    state.dispatcher.Confirms config id conn response.verdict ∧
    (conn.phase.response? = some response ∧ conn.sent = [] ∨
      conn.phase.isOver = true ∧ ∃ count, conn.sent = response.encode.take count)
  closed : response.verdict ≠ .ok → ¬state.dispatcher.MayAdmit id

section Settled

variable {config : ServerConfig} {state next : HostState} {id : ℕ}
  {response : VerdictResponse} {conn : Connection} {after : Connection} {verdict : Verdict}

theorem Dispatcher.Confirms.of_subset {dispatcher after : Dispatcher} {other : Connection}
    (hconfirms : dispatcher.Confirms config id conn verdict)
    (hstream : other.stream = conn.stream) (hsubset : dispatcher.admitted ⊆ after.admitted)
    (hnew : verdict ≠ .ok → ∀ request ∈ after.admitted,
      request ∈ dispatcher.admitted ∨ request.reply ≠ id) :
    after.Confirms config id other verdict := by
  unfold Dispatcher.Confirms at hconfirms ⊢
  by_cases hok : verdict = .ok
  · rw [if_pos hok] at hconfirms ⊢
    obtain ⟨request, hmem, hreply, hframe⟩ := hconfirms
    rw [hstream]
    exact ⟨request, hsubset hmem, hreply, hframe⟩
  · rw [if_neg hok] at hconfirms ⊢
    intro request hmem
    rcases hnew hok request hmem with hold | hother
    · exact hconfirms request hold
    · exact hother

theorem HostState.Settled.truthful (hsettled : state.Settled config id response) :
    state.Truthful config id := by
  intro conn verdict hfound hhead
  obtain ⟨found, hsame, hconfirms, hsent⟩ := hsettled.decided
  obtain rfl := Option.some.inj (hfound.symm.trans hsame)
  rcases hsent with ⟨_, hnil⟩ | ⟨_, count, htake⟩
  · rw [hnil] at hhead
    cases hhead
  · rw [htake] at hhead
    have hverdict := Verdict.toByte_injective (response.head_take_encode hhead)
    rw [hverdict]
    exact hconfirms

theorem HostState.Effect.mayAdmit (heffect : state.Effect config next)
    (hfound : state.connections id = some conn)
    (hsubmitted : ∀ payload, conn.phase ≠ .submitting payload)
    (hmay : next.dispatcher.MayAdmit id) : state.dispatcher.MayAdmit id := by
  rcases heffect.dispatcher_cases with hsame | ⟨request, other, hother, hphase, haccepts⟩ | hworks |
    ⟨_, _, _, hworker, hback⟩
  · rw [hsame] at hmay
    exact hmay
  · refine haccepts.mayAdmit ?_ hmay
    rintro rfl
    obtain rfl := Option.some.inj (hfound.symm.trans hother)
    exact hsubmitted _ hphase
  · exact hworks.mayAdmit hmay
  · rw [hback] at hmay
    exact Dispatcher.mayAdmit_of_back hworker hmay

theorem HostState.Effect.confirms (heffect : state.Effect config next)
    (hconfirms : state.dispatcher.Confirms config id conn verdict)
    (hclosed : verdict ≠ .ok → ¬state.dispatcher.MayAdmit id)
    (hstream : after.stream = conn.stream) : next.dispatcher.Confirms config id after verdict := by
  have hsame : next.dispatcher.answered = state.dispatcher.answered →
      next.dispatcher.Confirms config id after verdict := by
    intro hanswered
    have hadmitted : next.dispatcher.admitted = state.dispatcher.admitted := by
      rw [Dispatcher.admitted, hanswered, Dispatcher.admitted]
    refine hconfirms.of_subset hstream ?_ ?_
    · rw [hadmitted]
      exact fun _ hmem => hmem
    · rw [hadmitted]
      exact fun _ _ hmem => .inl hmem
  rcases heffect.dispatcher_cases with hdispatcher |
    ⟨_, _, _, _, haccepts⟩ | hworks | ⟨_, _, _, _, hback⟩
  · exact hsame (by rw [hdispatcher])
  · exact hsame haccepts.answered
  · refine hconfirms.of_subset hstream ?_ ?_
    · intro request hmem
      obtain ⟨answer, hcall, hok⟩ := Dispatcher.mem_admitted.mp hmem
      exact Dispatcher.mem_admitted.mpr ⟨answer, hworks.answered_subset hcall, hok⟩
    · intro hverdict request hmem
      refine (hworks.admitted hmem).imp_right ?_
      rintro hkernel rfl
      exact hclosed hverdict (Dispatcher.mayAdmit_of_inKernel hkernel)
  · exact hsame (by rw [hback])

theorem HostState.Settled.effect (hsettled : state.Settled config id response)
    (heffect : state.Effect config next) :
    next.Settled config id response := by
  obtain ⟨conn, hfound, hconfirms, hsent⟩ := hsettled.decided
  obtain ⟨after, hafter, hcases⟩ := heffect.of_found hsettled.sound hfound
  have hsubmitted : ∀ payload, conn.phase ≠ .submitting payload := by
    intro payload hphase
    rw [hphase] at hsent
    rcases hsent with ⟨hresponse, _⟩ | ⟨hover, _⟩
    · cases hresponse
    · cases hover
  refine ⟨hsettled.sound.effect heffect, ?_, fun hverdict hmay =>
    hsettled.closed hverdict (heffect.mayAdmit hfound hsubmitted hmay)⟩
  rcases hcases with hsame | ⟨hfollows, _⟩ | ⟨⟨payload, hphase⟩, _⟩
  · refine ⟨after, hafter, heffect.confirms hconfirms hsettled.closed hsame.stream, ?_⟩
    rw [hsame.phase, hsame.sent]
    exact hsent
  · refine ⟨after, hafter, heffect.confirms hconfirms hsettled.closed hfollows.stream, .inr ?_⟩
    rcases hsent with ⟨hresponse, hnil⟩ | ⟨hover, count, htake⟩
    · obtain ⟨hover, hsame | hsent⟩ := hfollows.answered response hresponse
      · exact ⟨hover, 0, hsame.trans hnil⟩
      · exact ⟨hover, hsent⟩
    · refine ⟨hfollows.stays hover, count, ?_⟩
      rw [hfollows.unsent (Phase.response?_of_isOver hover)]
      exact htake
  · exact absurd hphase (hsubmitted payload)

theorem Phase.eq_responding {phase : Phase} (hlate : phase.isLate = true)
    (hresponse : phase.response? = some response) : phase = .responding response := by
  cases phase with
  | responding =>
    exact congrArg Phase.responding (Option.some.inj hresponse)
  | refused => cases hlate
  | loading | acquiring | spawning | reading | submitting | waiting | closing
  | releasing | ended => cases hresponse

theorem HostState.Effect.decides (heffect : state.Effect config next)
    (hsound : state.Sound config) (hfound : state.connections id = some conn)
    (hundecided : conn.phase.response? = none) (hnext : next.connections id = some after)
    (hdecided : after.phase.response? = some response) :
    conn.Follows config (state.dispatcher.ownsReply id) after ∧
      next.dispatcher = state.dispatcher := by
  obtain ⟨found, hsame, hcases⟩ := heffect.of_found hsound hfound
  obtain rfl := Option.some.inj (hnext.symm.trans hsame)
  rcases hcases with hkept | hfollows | ⟨_, rfl⟩
  · rw [hkept.phase, hundecided] at hdecided
    cases hdecided
  · exact hfollows
  · cases hdecided

theorem HostState.Sound.confirms {pending : Bool} (hsound : state.Sound config)
    (hfound : state.connections id = some conn) (hundecided : conn.phase.response? = none)
    (hfollows : conn.Follows config pending after)
    (hdecided : after.phase.response? = some response)
    (hclosed : ¬(conn.reply = none ∧ state.dispatcher.MayAdmit id)) :
    state.dispatcher.Confirms config id after response.verdict ∧
      (response.verdict ≠ .ok → ¬state.dispatcher.MayAdmit id) := by
  have htracked := hsound.tracked id conn hfound
  have hcalled : ∀ request ∈ state.dispatcher.admitted, request.reply = id →
      ∃ answer, (request, answer) ∈ state.dispatcher.answered ∧
        answer.verdict = .ok ∧ conn.phase.isLate = true := by
    intro request hmem hreply
    obtain ⟨answer, hcall, hok⟩ := Dispatcher.mem_admitted.mp hmem
    exact ⟨answer, hcall, hok, (htracked.requested request
      (hsound.ordered.of_answered hcall) hreply).1⟩
  rcases hfollows.decided response hundecided hdecided with
    ⟨hearly, hverdict⟩ | ⟨hwaiting, hreply | ⟨hreply, hverdict⟩⟩
  · constructor
    · rw [Dispatcher.Confirms, if_neg hverdict]
      intro request hmem hid
      obtain ⟨_, _, _, hlate⟩ := hcalled request hmem hid
      rw [hearly] at hlate
      cases hlate
    · intro _ hmay
      obtain ⟨request, hmem, hid⟩ := hsound.ordered.enqueued_of_mayAdmit hmay
      have hlate := (htracked.requested request hmem hid).1
      rw [hearly] at hlate
      cases hlate
  · obtain ⟨⟨request, answer⟩, hcall, hid, rfl⟩ := htracked.replied response (.inl hreply)
    constructor
    · rw [Dispatcher.Confirms]
      split_ifs with hok
      · refine ⟨request, Dispatcher.mem_admitted.mpr ⟨answer, hcall, hok⟩, hid, ?_⟩
        rw [hfollows.stream]
        exact (htracked.requested request (hsound.ordered.of_answered hcall) hid).2
      · intro other hmem hotherId
        obtain ⟨found, hfoundCall, hfoundOk, _⟩ := hcalled other hmem hotherId
        have hsame := hsound.ordered.call_unique hfoundCall hcall (hotherId.trans hid.symm)
        cases hsame
        exact hok hfoundOk
    · intro hverdict
      rw [← hid]
      exact hsound.ordered.not_mayAdmit hcall hverdict
  · have hnot : ¬state.dispatcher.MayAdmit id := fun hmay =>
      hclosed ⟨hreply, hmay⟩
    refine ⟨?_, fun _ => hnot⟩
    rw [Dispatcher.Confirms, if_neg hverdict]
    intro request hmem hid
    obtain ⟨answer, hcall, hok, _⟩ := hcalled request hmem hid
    rcases htracked.unreplied _ hcall hid hwaiting with hsome | hout
    · rw [hreply] at hsome
      cases hsome
    · refine hnot (.inr (.inr ?_))
      cases hworker : state.dispatcher.worker <;> rw [hworker] at hout <;>
        cases hout
      exact ⟨request, answer, _, rfl, hid, hok⟩

end Settled

/-! ## Late admissions -/

section Late

variable {config : ServerConfig} {state next : HostState} {id : ℕ}
  {request : QueuedRequest} {conn : Connection}

theorem HostState.Effect.sent (heffect : state.Effect config next)
    (hsound : state.Sound config) {sent : Bytes}
    (htold : ∃ conn, state.connections id = some conn ∧
      conn.phase.isOver = true ∧ conn.sent = sent) :
    ∃ conn, next.connections id = some conn ∧ conn.phase.isOver = true ∧ conn.sent = sent := by
  obtain ⟨conn, hfound, hover, hsent⟩ := htold
  obtain ⟨after, hafter, hcases⟩ := heffect.of_found hsound hfound
  refine ⟨after, hafter, ?_⟩
  rcases hcases with hsame | ⟨hfollows, _⟩ | ⟨⟨payload, hphase⟩, _⟩
  · rw [hsame.phase, hsame.sent]
    exact ⟨hover, hsent⟩
  · refine ⟨hfollows.stays hover, ?_⟩
    rw [hfollows.unsent (Phase.response?_of_isOver hover)]
    exact hsent
  · rw [hphase] at hover
    cases hover

def admitting (_ : QueuedRequest) : KernelAnswer := .returned (.fromVerdict .ok)

theorem Dispatcher.Works.pending {dispatcher next : Dispatcher} (hworks : dispatcher.Works next)
    (hstays : dispatcher.worker.isGone = false) (hqueued : request ∈ dispatcher.queue) :
    next.worker.isGone = false ∧ request ∈ next.queue ∨
      next.worker.inKernel = some request := by
  cases hworks with
  | idled _ _ _ _ hgone =>
    refine .inl ⟨?_, hqueued⟩
    by_contra hleaves
    rw [Bool.not_eq_false] at hleaves
    rw [hgone hleaves] at hqueued
    cases hqueued
  | took _ _ _ hqueue =>
    rw [hqueue] at hqueued
    rcases mem_cons.mp hqueued with rfl | hrest
    · exact .inr rfl
    · exact .inl ⟨rfl, hrest⟩
  | answered => exact .inl ⟨rfl, hqueued⟩
  | dropped hworker =>
    rw [hworker] at hstays
    cases hstays

theorem HostState.exists_admission (config : ServerConfig) (state : HostState)
    (hpending : state.dispatcher.worker.isGone = false ∧ request ∈ state.dispatcher.queue ∨
      state.dispatcher.worker.inKernel = some request) :
    ∃ final, Reachable (hostStep config) state final ∧ request ∈ final.dispatcher.admitted := by
  induction hrank : state.dispatcher.rank using Nat.strong_induction_on generalizing state with
  | _ _ ih =>
    rcases hpending with ⟨hstays, hqueued⟩ | hkernel
    · have hgoOn : ∀ {label : HostLabel} {next : HostState}, state.next config label = some next →
          next.dispatcher.rank < state.dispatcher.rank →
          (next.dispatcher.worker.isGone = false ∧ request ∈ next.dispatcher.queue ∨
            next.dispatcher.worker.inKernel = some request) →
          ∃ final, Reachable (hostStep config) state final ∧
            request ∈ final.dispatcher.admitted := by
        intro label next hstep hless hnext
        obtain ⟨final, hfinal, hadmitted⟩ := ih _ (hrank ▸ hless) next hnext rfl
        exact ⟨final, (Reachable.refl state |>.tail
          (hostStep_of_next hstep)).trans hfinal, hadmitted⟩
      cases houtgoing : state.dispatcher.worker.outgoing with
      | none =>
        obtain ⟨event, dispatcher, hwork, hless, _⟩ :=
          Dispatcher.exists_work state.stop (state.connected config)
            admitting hstays (fun _ => ne_nil_of_mem hqueued) houtgoing
        exact hgoOn (HostState.next_work hwork houtgoing) hless
          ((Dispatcher.work_works hwork).pending hstays hqueued)
      | some =>
        cases hworker : state.dispatcher.worker <;>
          rw [hworker] at houtgoing <;> cases houtgoing
        rename_i current response draining
        refine hgoOn (HostState.next_reply hworker) ?_ (.inl ⟨?_, hqueued⟩)
        · simp only [Dispatcher.rank, hworker]
          cases draining <;> simp [WorkerPhase.rank, WorkerPhase.back]
        · cases draining <;> rfl
    · cases hworker : state.dispatcher.worker <;>
        rw [hworker] at hkernel <;> cases hkernel
      rename_i draining
      have hwork : state.dispatcher.work state.stop (state.connected config)
          (.answer (admitting request)) = some { state.dispatcher with
            worker := .replying request (.fromVerdict .ok) draining
            answered := state.dispatcher.answered ++ [(request, .fromVerdict .ok)] } := by
        unfold Dispatcher.work
        rw [hworker]
        rfl
      have hstep := HostState.next_work hwork (by rw [hworker]; rfl)
      refine ⟨_, Reachable.refl state |>.tail (hostStep_of_next hstep), ?_⟩
      exact Dispatcher.mem_admitted.mpr ⟨_, mem_append_right _ (mem_singleton_self _), rfl⟩

theorem HostState.exists_untruthful {sent : Bytes} {verdict : Verdict} (hsound : state.Sound config)
    (htold : ∃ conn, state.connections id = some conn ∧ conn.phase.isOver = true ∧ conn.sent = sent)
    (hsent : sent.head? = some verdict.toByte) (hverdict : verdict ≠ .ok)
    (hmay : state.dispatcher.MayAdmit id) :
    ∃ final, Reachable (hostStep config) state final ∧ ¬final.Truthful config id := by
  obtain ⟨request, final, hfinal, hadmitted, hreply⟩ : ∃ request final,
      Reachable (hostStep config) state final ∧
      request ∈ final.dispatcher.admitted ∧ request.reply = id := by
    rcases hmay with ⟨hstays, request, hmem, hreply⟩ | ⟨request, draining, hworker, hreply⟩ |
      ⟨request, response, draining, hworker, hreply, hok⟩
    · obtain ⟨final, hfinal, hadmitted⟩ := HostState.exists_admission config
        state (.inl ⟨hstays, hmem⟩)
      exact ⟨request, final, hfinal, hadmitted, hreply⟩
    · obtain ⟨final, hfinal, hadmitted⟩ := @HostState.exists_admission request config state
          (.inr (by rw [hworker]; rfl))
      exact ⟨request, final, hfinal, hadmitted, hreply⟩
    · refine ⟨request, state, .refl state, ?_, hreply⟩
      exact Dispatcher.mem_admitted.mpr ⟨response,
        hsound.ordered.outgoing (request, response) (by rw [hworker]; rfl), hok⟩
  refine ⟨final, hfinal, fun htruthful => ?_⟩
  have hstays := @HostState.reachable_invariant config
    (fun later => later.Sound config ∧ ∃ conn, later.connections id = some conn ∧
        conn.phase.isOver = true ∧ conn.sent = sent)
    (fun before after hbefore heffect =>
      ⟨hbefore.1.effect heffect, heffect.sent hbefore.1 hbefore.2⟩)
    _ _ hfinal ⟨hsound, htold⟩
  obtain ⟨_, conn, hfound, _, hsame⟩ := hstays
  have hconfirms := htruthful conn verdict hfound (hsame ▸ hsent)
  rw [Dispatcher.Confirms, if_neg hverdict] at hconfirms
  exact hconfirms request hadmitted hreply

theorem HostState.next_write {response : VerdictResponse}
    (hfound : state.connections id = some conn)
    (hphase : conn.phase = .responding response) (count : ℕ) :
    state.next config (.handler id (.write count)) = some (state.setConnection id { conn with
        phase := .closing, sent := response.encode.take count }) := by
  simp only [HostState.next, hfound, Option.bind_some, HostState.handlerStep,
    hphase, Connection.advance, Option.map_some]

end Late

/-- In which states a connection may decide on its answer: the client is told the
truth in all that follows, exactly if the reply is there, or the request can not be
admitted any more and was not. -/
theorem verdict_truthful_iff {config : ServerConfig}
    {before after : HostState} {label : HostLabel} {id : ℕ}
    {conn next : Connection} {response : VerdictResponse} (hreached : before.Reached config)
    (hstep : before.next config label = some after) (hfound : before.connections id = some conn)
    (hundecided : conn.phase.response? = none) (hnext : after.connections id = some next)
    (hdecided : next.phase.response? = some response) :
    (∀ final, Reachable (hostStep config) after final → final.Truthful config id) ↔
    ¬(conn.reply = none ∧ before.dispatcher.MayAdmit id) := by
  have hsound := hreached.sound
  have heffect := HostState.next_effect hstep
  have hafterSound := hsound.effect heffect
  obtain ⟨hfollows, hdispatcher⟩ := heffect.decides hsound hfound hundecided hnext hdecided
  constructor
  · rintro hall ⟨hreply, hmay⟩
    obtain ⟨request, hmem, hid⟩ := hsound.ordered.enqueued_of_mayAdmit hmay
    have hlate := ((hsound.tracked id conn hfound).requested request hmem hid).1
    have hverdict : response.verdict ≠ .ok := by
      rcases hfollows.decided response hundecided hdecided with
        ⟨hearly, _⟩ | ⟨_, hsome | ⟨_, hverdict⟩⟩
      · rw [hlate] at hearly
        cases hearly
      · rw [hreply] at hsome
        cases hsome
      · exact hverdict
    have hphase := Phase.eq_responding (hfollows.late hlate) hdecided
    have hwrite := @HostState.next_write config after id next response hnext hphase 1
    obtain ⟨final, hfinal, huntrue⟩ := @HostState.exists_untruthful config _ id _ response.verdict
      (hafterSound.effect (HostState.next_effect hwrite))
      ⟨_, HostState.setConnection_self _ _ _, rfl, rfl⟩ rfl hverdict
      (by rw [← hdispatcher] at hmay; exact hmay)
    exact huntrue (hall final ((Reachable.refl after |>.tail
      (hostStep_of_next hwrite)).trans hfinal))
  · intro hclosed final hreachable
    have hconfirms := hsound.confirms hfound hundecided hfollows hdecided hclosed
    rw [← hdispatcher] at hconfirms
    have hunsent : next.sent = [] := by
      refine (hafterSound.tracked id next hnext).unsent ?_
      by_contra hover
      rw [Bool.not_eq_false] at hover
      rw [Phase.response?_of_isOver hover] at hdecided
      cases hdecided
    have hsettled : after.Settled config id response :=
      ⟨hafterSound, ⟨next, hnext, hconfirms.1, .inl ⟨hdecided, hunsent⟩⟩, hconfirms.2⟩
    exact (HostState.reachable_invariant (fun _ _ hbefore => hbefore.effect)
      hreachable hsettled).truthful

def repliedRun : HostState := .afterLabels smallHost (clientArrives 7 ++
    [.handler 0 .read, .handler 0 (.submit false), .worker .proceed,
      .worker .proceed, .worker (.answer (.returned (.fromVerdict .ok))), .worker .proceed])

theorem repliedRun_truthful :
    ∃ after, repliedRun.next smallHost (.handler 0 .receive) = some after ∧
      repliedRun.dispatcher.admitted = [⟨[7], 0⟩] ∧
      ∀ final, Reachable (hostStep smallHost) after final → final.Truthful smallHost 0 := by
  have hreached : repliedRun.Reached smallHost := HostState.afterLabels_reached smallHost _
  obtain ⟨conn, hfound, hreply, hundecided⟩ : ∃ conn,
      repliedRun.connections 0 = some conn ∧ conn.reply = some (.fromVerdict .ok) ∧
      conn.phase.response? = none := exists_found (by decide +kernel)
  obtain ⟨after, hstep, hdecided⟩ : ∃ after,
      repliedRun.next smallHost (.handler 0 .receive) = some after ∧
      (after.connections 0).bind (fun next => next.phase.response?) = some (.fromVerdict .ok) :=
    exists_found (by decide +kernel)
  obtain ⟨next, hnext, hresponse⟩ := Option.bind_eq_some_iff.mp hdecided
  refine ⟨after, hstep, by decide +kernel, (verdict_truthful_iff hreached hstep
    hfound hundecided hnext hresponse).mpr ?_⟩
  rw [hreply]
  simp

/-- The first client is told that its request is not admissible while the kernel is
busy with it; then the kernel admits it. -/
def impatientRun : HostState := .afterLabels smallHost (clientArrives 7 ++
    [.handler 0 .read, .handler 0 (.submit false), .worker .proceed,
      .worker .proceed, .handler 0 .expire, .handler 0 (.write 99),
      .worker (.answer (.returned (.fromVerdict .ok)))])

theorem impatientRun_untruthful : impatientRun.Reached smallHost ∧
    impatientRun.dispatcher.admitted = [⟨[7], 0⟩] ∧
    (∃ conn, impatientRun.connections 0 = some conn ∧
      conn.sent.head? = some Verdict.notAdmissible.toByte) ∧
    ¬impatientRun.Truthful smallHost 0 := by
  have hadmitted : impatientRun.dispatcher.admitted = [⟨[7], 0⟩] := by
    decide +kernel
  obtain ⟨conn, hfound, hsent⟩ : ∃ conn, impatientRun.connections 0 = some conn ∧
      conn.sent.head? = some Verdict.notAdmissible.toByte := exists_found (by decide +kernel)
  refine ⟨HostState.afterLabels_reached smallHost _, hadmitted,
    ⟨conn, hfound, hsent⟩, fun htruthful => ?_⟩
  have hconfirms := htruthful conn .notAdmissible hfound hsent
  exact hconfirms _ (mem_singleton_self _) rfl

end Host
end Canon
