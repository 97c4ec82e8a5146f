import Canon.IngestGuarantees

/-!
# The death of the process

Against a host which counts the nonces, a restart after the death of the process agrees
with the host exactly when the process did not die between the acceptance of an action
and its record.
-/

namespace Canon
namespace Ingest

/-! ## Recovery -/

/-- Start again from the file, unless the process died between the acceptance of an
action and its record. -/
def careful : Ending → Resumption → Prop :=
  fun ending resumption => resumption = .fromFile ∧ ¬ending.Exposed

/-- A restart finds the nonce which the host expects, every event is admitted once, and
no action is refused because of its nonce. -/
def Recovers (env : Environment) (config : WatcherConfig)
    (key : BridgeActorKey) (world : World) : Prop :=
  ∀ watcher, Watcher.new config world.file = .ok watcher →
    watcher.nextNonce = BitVec.ofNat 128 (acceptedOf world.submissions).length ∧
    ∀ status later, Reached env config key careful { world with watcher := watcher } status later →
      status ≠ some (.failed (.submit .notAdmissible)) ∧ (status = none → Sound config key later)

section Deaths

variable {env : Environment} {config : WatcherConfig} {key : BridgeActorKey}
  {watcher : Watcher} {first world : World} {status : Option Ending} {ending : Ending}

theorem Reached.stands_any (hwrites : env.Writes) (hfirst : Sound config key first)
    (hreached : Reached env config key careful first status world) :
    Stands env config key (fun _ _ => True) status world := by
  refine @Reached.stands env config key careful first (fun _ _ _ => True)
    (fun _ _ _ _ _ _ => trivial) (fun time => ?_) ?_ hfirst status world hreached
  · exact (ensures_runIteration_any hwrites).weaken (fun _ h => h.2)
      (fun _ _ h => h) (fun _ _ h => h)
  · exact fun ending resumption hcareful => ⟨hcareful.1, .inr hcareful.2⟩

theorem Stands.ne_notAdmissible (hhosted : env.Hosted)
    (hstands : Stands env config key (fun _ _ => True) status world) :
    status ≠ some (.failed (.submit .notAdmissible)) := by
  rintro rfl
  cases hstands with
  | consistent _ hregular => exact hregular hhosted
  | behind _ _ hrecorded | exhausted _ _ _ hrecorded => exact hrecorded hhosted
  | lost _ _ _ hexposed => exact hexposed

theorem recovers_of_not_exposed (hwrites : env.Writes) (hhosted : env.Hosted)
    (hstands : Stands env config key (fun _ _ => True) (some ending) world)
    (hexposed : ¬ending.Exposed) : Recovers env config key world := by
  intro watcher hnew
  obtain ⟨done, hholds⟩ := Halted.restart hstands (.inr hexposed) hnew
  refine ⟨hholds.ingested.nonce_eq, ?_⟩
  intro status later hreached
  have hlater := hreached.stands_any hwrites ⟨done, hholds⟩
  refine ⟨hlater.ne_notAdmissible hhosted, ?_⟩
  rintro rfl
  exact hlater

theorem nonce_ne_of_exposed (hstands : Stands env config key (fun _ _ => True) (some ending) world)
    (hexposed : ending.Exposed) (hnew : Watcher.new config world.file = .ok watcher) :
    watcher.nextNonce ≠ BitVec.ofNat 128 (acceptedOf world.submissions).length := by
  have hsuspect : ending.Suspect env := hexposed.suspect
  cases hstands with
  | consistent _ hregular =>
    exfalso
    unfold Ending.Exposed at hexposed
    split at hexposed
    · exact hregular trivial
    · exact hregular trivial
    · exact hexposed
  | behind _ _ hrecorded | exhausted _ _ _ hrecorded => exact absurd hsuspect hrecorded
  | lost hingested _ haccepted =>
    have hstate := hingested.new hnew
    have hcount := congrArg List.length hingested.accepted
    intro heq
    rw [hstate, hingested.nonce_eq, haccepted, List.length_append, List.length_singleton] at heq
    have hnat := congrArg BitVec.toNat heq
    rw [BitVec.toNat_ofNat, BitVec.toNat_ofNat] at hnat
    omega

theorem exists_new_of_capacity (hcapacity : 0 < config.reorgWindowCapacity)
    {done : KeyedEvents} {state : WatcherState} {file : List StateRecord}
    {submissions : List Submission} (hingested : Ingested config key done state file submissions) :
    ∃ watcher, Watcher.new config file = .ok watcher :=
  ⟨{ state with reorgWindow := .new config.reorgWindowCapacity hcapacity },
    Watcher.new_eq_ok.mpr ⟨hcapacity, hingested.restores.replays, rfl⟩⟩

theorem not_recovers_of_exposed (hcapacity : 0 < config.reorgWindowCapacity)
    (hstands : Stands env config key (fun _ _ => True) (some ending) world)
    (hexposed : ending.Exposed) : ¬Recovers env config key world := by
  intro hrecovers
  have hnew : ∃ watcher, Watcher.new config world.file = .ok watcher := by
    cases hstands with
    | consistent hholds => exact exists_new_of_capacity hcapacity hholds.ingested
    | behind hingested | lost hingested => exact exists_new_of_capacity hcapacity hingested
    | exhausted _ _ _ hrecorded => exact absurd hexposed.suspect hrecorded
  obtain ⟨watcher, hnew⟩ := hnew
  exact nonce_ne_of_exposed hstands hexposed hnew (hrecovers watcher hnew).1

/-- From which deaths the watcher recovers. -/
theorem recovers_iff_not_exposed (hwrites : env.Writes) (hhosted : env.Hosted)
    (hnew : Watcher.new config [] = .ok watcher) {site : CrashSite}
    (hreached : Reached env config key careful (.fresh watcher) (some (.crashed site)) world) :
    Recovers env config key world ↔ ¬(Ending.crashed site).Exposed := by
  have hstands := hreached.stands_any hwrites ⟨[], holds_fresh hnew trivial⟩
  constructor
  · intro hrecovers hexposed
    obtain ⟨hcapacity, _⟩ := Watcher.new_eq_ok.mp hnew
    exact not_recovers_of_exposed hcapacity hstands hexposed hrecovers
  · exact recovers_of_not_exposed hwrites hhosted hstands

end Deaths

/-! ## A death between the acceptance and the record -/

def singleChain : Chain := enrolledChain 1 (by decide)

def countingHost (submissions : List Submission)
    (signed : SignedActionForSubmit) : Except SubmitError Verdict :=
  if signed.unsigned.nonce = BitVec.ofNat 128 (acceptedOf submissions).length
  then .ok .ok
  else .ok .notAdmissible

theorem hosted_of_counting {env : Environment}
    (hhost : ∀ time, env.submitter time = countingHost) : env.Hosted where
  accepted time submissions signed hanswer := by
    by_contra hne
    rw [hhost, countingHost, if_neg hne] at hanswer
    cases hanswer
  refused time submissions signed hreports heq := by
    rw [hhost, countingHost, if_pos heq] at hreports
    cases hreports

def mortalEnv (death : ℕ) (fate : Fate) : Environment where
  source _ := singleChain.source 0
  submitter _ := countingHost
  disk _ := .written
  fate time := if time = death then fate else .goesOn

theorem hosted_mortal (death : ℕ) (fate : Fate) : (mortalEnv death fate).Hosted :=
  hosted_of_counting fun _ => rfl

theorem recovers_from_early_death :
    ∃ (watcher : Watcher) (world : World),
      Reached (mortalEnv 0 .diesBefore) plainConfig constantKey careful
        (.fresh watcher) (some (.crashed .atSource)) world ∧
      Recovers (mortalEnv 0 .diesBefore) plainConfig constantKey world := by
  have hreached : Reached (mortalEnv 0 .diesBefore) plainConfig constantKey
      careful (.fresh quietWatcher) (some (.crashed .atSource)) (World.fresh quietWatcher).tick :=
    .halt .start rfl
  refine ⟨quietWatcher, _, hreached, ?_⟩
  exact (recovers_iff_not_exposed (fun _ => rfl) (hosted_mortal _ _) new_plain hreached).mpr
    fun h => h

def lateDeath : World :=
  (runIteration (mortalEnv 4 .diesAfter) plainConfig constantKey (.fresh quietWatcher)).2

/-- The host has admitted the action, the record is missing, and after the restart the
action is signed once more and refused. -/
theorem not_recovers_from_late_death :
    ∃ (env : Environment) (config : WatcherConfig) (key : BridgeActorKey)
      (watcher restarted : Watcher) (site : CrashSite) (world later : World),
      env.Writes ∧ env.Hosted ∧ Watcher.new config [] = .ok watcher ∧
      Reached env config key careful (.fresh watcher) (some (.crashed site)) world ∧
      ¬Recovers env config key world ∧ Watcher.new config world.file = .ok restarted ∧
      runIteration env config key { world with watcher := restarted } =
        (.error (.failed (.submit .notAdmissible)), later) := by
  have hreached : Reached (mortalEnv 4 .diesAfter) plainConfig constantKey careful
      (.fresh quietWatcher) (some (.crashed (.afterSubmit (.ok .ok)))) lateDeath :=
    .halt .start (Prod.ext (by decide +kernel) rfl)
  have hstands := hreached.stands_any (fun _ => rfl) ⟨[], holds_fresh new_plain trivial⟩
  have hagain : (runIteration (mortalEnv 4 .diesAfter) plainConfig constantKey
      { lateDeath with watcher := quietWatcher }).1 =
        .error (.failed (.submit .notAdmissible)) := by decide +kernel
  have hfile : lateDeath.file = [] := by decide +kernel
  exact ⟨_, _, _, quietWatcher, quietWatcher, _, lateDeath, _, fun _ => rfl, hosted_mortal _ _,
    new_plain, hreached, not_recovers_of_exposed (by decide) hstands trivial,
    hfile ▸ new_plain, Prod.ext hagain rfl⟩

end Ingest
end Canon
