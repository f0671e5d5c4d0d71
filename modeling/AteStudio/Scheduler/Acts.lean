import AteStudio.Scheduler.Moves

/-!
# What a move does

Every move is a chain of a few kinds of changes. A property of runs is then a matter of these changes, and of what is
known when one of them is made.
-/

namespace AteStudio.Scheduler

open List

open Relation (ReflTransGen)

variable {V : Type}

/-! ## Entries of the log -/

/-- What the dispatch of a step publishes besides statuses, starts and skips. -/
def Obs.IsNote : Obs → Prop
  | .failed .. | .breakpointHit .. | .spent .. => True
  | _ => False

def Obs.Silent : Obs → Prop
  | .failed .. | .breakpointHit .. | .began | .aborted _ => True
  | _ => False

theorem Obs.Silent.entries (o : Obs) (h : o.Silent) (log : List Obs) : ∀ x ∈ o :: log, x ∈ log ∨ x.Silent := by
  intro x hx
  rcases mem_cons.mp hx with rfl | hx
  · exact .inr h
  · exact .inl hx

/-- The steps whose dispatch has raised `ExecutionAborted` since the run began. -/
def abortedSince : List Obs → List String
  | [] => []
  | .began :: _ => []
  | .aborted id :: log => id :: abortedSince log
  | _ :: log => abortedSince log

theorem abortedSince_notes {notes log : List Obs} (h : ∀ o ∈ notes, o.IsNote) :
    abortedSince (notes ++ log) = abortedSince log := by
  induction notes with
  | nil => rfl
  | cons o notes ih =>
    obtain ⟨ho, hrest⟩ := forall_mem_cons.mp h
    cases o with
    | failed | breakpointHit | spent => exact ih hrest
    | _ => cases ho

def armedIn (init : List EdgeBreakpoint) : List Obs → List EdgeBreakpoint
  | [] => init
  | .armed breakpoints :: _ => breakpoints
  | _ :: log => armedIn init log

/-- The breakpoint has suspended the run at the step since breakpoints were armed. -/
def hitSince (bp stepId : String) : List Obs → Bool
  | [] => false
  | .armed _ :: _ => false
  | .breakpointHit bp' stepId' :: log => (bp' = bp && stepId' = stepId) || hitSince bp stepId log
  | _ :: log => hitSince bp stepId log

/-- The engine holds the breakpoints armed last, and only what has suspended the run since is marked as fired. -/
structure Armed (init : List EdgeBreakpoint) (s : State V) : Prop where
  breakpoints : s.breakpoints = armedIn init s.log
  fired : ∀ engine ∈ s.breakpointEngine, ∀ f ∈ engine.fired, ∃ bp ∈ engine.breakpoints, bp.id = f ∧
    (bp.kind = .step → hitSince f bp.target s.log = true)

/-! ## Kinds of changes -/

/-- The states agree on all that guards speak of, and no step is taken off `pendingDispatch`. -/
structure Alike (s s' : State V) : Prop where
  steps : s'.steps = s.steps
  notifiedReady : s'.notifiedReady = s.notifiedReady
  affinityClaims : s'.affinityClaims = s.affinityClaims
  variableSpace : s'.variableSpace = s.variableSpace
  available : s'.available = s.available
  down : s'.down = s.down
  pendingDispatch : s.pendingDispatch ⊆ s'.pendingDispatch
  log : ∃ notes : List Obs, (∀ o ∈ notes, o.IsNote) ∧ s'.log = notes ++ s.log

variable {s' s : State V}

variable {s'' : State V}

theorem Alike.trans (h : Alike s s') (h' : Alike s' s'') : Alike s s'' := by
  obtain ⟨notes, hnotes, hlog⟩ := h.log
  obtain ⟨notes', hnotes', hlog'⟩ := h'.log
  refine ⟨h'.steps.trans h.steps, h'.notifiedReady.trans h.notifiedReady,
    h'.affinityClaims.trans h.affinityClaims, h'.variableSpace.trans h.variableSpace,
    h'.available.trans h.available, h'.down.trans h.down, List.Subset.trans h.pendingDispatch h'.pendingDispatch,
    notes' ++ notes, ?_, by rw [hlog', hlog, append_assoc]⟩
  exact forall_mem_append.mpr ⟨hnotes', hnotes⟩

theorem Alike.abortedSince (h : Alike s s') : abortedSince s'.log = abortedSince s.log := by
  obtain ⟨notes, hnotes, hlog⟩ := h.log
  rw [hlog, abortedSince_notes hnotes]

/-- No variable is written, no breakpoint is armed, and the scheduler is not set running. -/
structure Frame (s s' : State V) : Prop where
  variableSpace : s'.variableSpace = s.variableSpace
  breakpoints : s'.breakpoints = s.breakpoints
  running : s'.running = true → s.running = true

theorem Frame.refl (s : State V) : Frame s s := ⟨rfl, rfl, fun h => h⟩

theorem Frame.trans (h : Frame s s') (h' : Frame s' s'') : Frame s s'' :=
  ⟨h'.variableSpace.trans h.variableSpace, h'.breakpoints.trans h.breakpoints, fun hr => h.running (h'.running hr)⟩

/-- Paused already, or nothing is armed that could pause the run. -/
def State.Calm (s : State V) : Prop := s.paused = true ∨ s.stepMode = none ∧ s.breakpoints = []

/-- The scheduler runs on or stays stopped, and when it is calm it is neither paused nor let go. -/
structure Flow (s s' : State V) : Prop where
  runs : s'.running = s.running
  paused : s.Calm → s'.Calm ∧ s'.paused = s.paused

theorem Flow.refl (s : State V) : Flow s s := ⟨rfl, fun h => ⟨h, rfl⟩⟩

theorem Flow.trans (h : Flow s s') (h' : Flow s' s'') : Flow s s'' :=
  ⟨h'.runs.trans h.runs, fun hcalm =>
    ⟨(h'.paused (h.paused hcalm).1).1, (h'.paused (h.paused hcalm).1).2.trans (h.paused hcalm).2⟩⟩

structure Still (s s' : State V) : Prop extends Frame s s', Flow s s'

theorem Still.refl (s : State V) : Still s s := ⟨.refl s, .refl s⟩

theorem Still.trans (h : Still s s') (h' : Still s' s'') : Still s s'' :=
  ⟨h.toFrame.trans h'.toFrame, h.toFlow.trans h'.toFlow⟩

structure Quiet (s s' : State V) : Prop extends Alike s s' where
  scans : s'.scans = s.scans
  queue : s'.queue = s.queue
  still : Still s s'
  entries : ∀ o ∈ s'.log, o ∈ s.log ∨ o.Silent
  armed : ∀ init, Armed init s → Armed init s'

theorem Armed.of_eq {init : List EdgeBreakpoint} (hengine : s'.breakpointEngine = s.breakpointEngine)
    (hlog : s'.log = s.log) (h : Armed init s) : Armed init s' :=
  ⟨by rw [State.breakpoints, hengine, hlog]; exact h.breakpoints, by rw [hengine, hlog]; exact h.fired⟩

open State

def core (s : State V) := (s.steps, s.notifiedReady, s.affinityClaims, s.breakpointEngine, s.log)

def outline (s : State V) := (s.variableSpace, s.breakpoints, s.running, s.paused, s.stepMode)

theorem Still.of_eq (h : outline s' = outline s) : Still s s' := by
  simp only [outline, Prod.mk.injEq] at h
  obtain ⟨hvars, hbreakpoints, hrunning, hpaused, hmode⟩ := h
  refine ⟨⟨hvars, hbreakpoints, fun h => hrunning ▸ h⟩, hrunning, fun hcalm => ⟨?_, hpaused⟩⟩
  rwa [Calm, hpaused, hmode, hbreakpoints]

theorem Quiet.of_eq (hcore : core s' = core s) (hstill : Still s s')
    (hguards : (s'.available, s'.down) = (s.available, s.down)) (hwork : (s'.scans, s'.queue) = (s.scans, s.queue))
    (hpending : s.pendingDispatch ⊆ s'.pendingDispatch) : Quiet s s' := by
  simp only [core, Prod.mk.injEq] at hcore hguards hwork
  obtain ⟨hsteps, hnotified, hclaims, hengine, hlog⟩ := hcore
  exact ⟨⟨hsteps, hnotified, hclaims, hstill.variableSpace, hguards.1, hguards.2, hpending, [], by simp, by simp [hlog]⟩,
    hwork.1, hwork.2, hstill, fun _ ho => .inl (hlog ▸ ho), fun _ => .of_eq hengine hlog⟩

theorem Quiet.refl (s : State V) : Quiet s s := .of_eq rfl (.refl s) rfl rfl (List.Subset.refl _)

theorem Quiet.trans (h : Quiet s s') (h' : Quiet s' s'') : Quiet s s'' where
  toAlike := h.toAlike.trans h'.toAlike
  scans := h'.scans.trans h.scans
  queue := h'.queue.trans h.queue
  still := h.still.trans h'.still
  entries o ho := by
    rcases h'.entries o ho with ho | hsilent
    · exact h.entries o ho
    · exact .inr hsilent
  armed init harmed := h'.armed init (h.armed init harmed)

/-- What is known when a step is started, skipped or forgotten, a scan suspended, a control spent, a breakpoint armed, a
variable written. -/
structure Guards (V : Type) where
  start : State V → String → Prop
  skip : State V → String → Prop
  ended : State V → String → Prop
  suspend : List String → Prop
  spent : Bool → Prop
  arm : List EdgeBreakpoint → Prop
  write : Prop
  start_alike : ∀ {s s' id}, Alike s s' → start s id → start s' id
  skip_alike : ∀ {s s' id}, Alike s s' → skip s id → skip s' id
  ended_same : ∀ {s s' id}, s'.steps = s.steps → s'.log = s.log → ended s id → ended s' id

structure MayStart (cfg : Config V) (s : State V) (id : String) : Prop where
  notNotified : id ∉ s.notifiedReady
  canSchedule : canSchedule cfg s id = true
  notPaused : s.paused = false
  noBreakpoint : ∀ engine ∈ s.breakpointEngine, engine.checkStep cfg s.variableSpace id = none

inductive Act (cfg : Config V) (G : Guards V) (id : String) : State V → State V → Prop
  | quiet {s s' : State V} : Quiet s s' → Act cfg G id s s'
  | status (s : State V) (status : StepStatus) : Act cfg G id s (s.updateStatus id status)
  | skip {s : State V} (reason : String) : G.skip s id → Act cfg G id s (markSkipped cfg s id reason)
  | start {s : State V} : MayStart cfg s id → G.start s id → Act cfg G id s (startStep cfg s id)
  | spent (s : State V) (control : Control) {due : Bool} : G.spent due →
      Act cfg G id s (s.publish (.spent control id due))

abbrev Acts (cfg : Config V) (G : Guards V) (id : String) : State V → State V → Prop :=
  ReflTransGen (Act cfg G id)

def State.reports (s : State V) (id : String) : Prop := ∃ old new, Event.statusChanged id old new ∈ s.queue

/-- Statuses, notifications and claims stay, and no guard speaks of what is published. -/
structure Kept (s s' : State V) : Prop where
  steps : s'.steps = s.steps
  notifiedReady : s'.notifiedReady = s.notifiedReady
  affinityClaims : s'.affinityClaims = s.affinityClaims
  log : ∃ notes : List Obs, (∀ o ∈ notes, o.Silent) ∧ s'.log = notes ++ s.log
  scans : s'.scans ⊆ s.scans
  reports : ∀ id, s'.reports id → s.reports id
  armed : ∀ init, Armed init s → Armed init s'

theorem Kept.of_core_eq (hcore : core s' = core s) (hscans : s'.scans ⊆ s.scans)
    (hreports : ∀ id, s'.reports id → s.reports id) : Kept s s' := by
  simp only [core, Prod.mk.injEq] at hcore
  obtain ⟨hsteps, hnotified, hclaims, hengine, hlog⟩ := hcore
  exact ⟨hsteps, hnotified, hclaims, ⟨[], by simp, hlog⟩, hscans, hreports, fun _ => .of_eq hengine hlog⟩

theorem Kept.same (hcore : core s' = core s) (hscans : s'.scans = s.scans) (hqueue : s'.queue = s.queue) : Kept s s' :=
  .of_core_eq hcore (hscans ▸ List.Subset.refl _) fun _ h => by rwa [State.reports, hqueue] at h

inductive Change (cfg : Config V) (G : Guards V) : State V → State V → Prop
  | act {s s' : State V} {id : String} : Act cfg G id s s' → Change cfg G s s'
  | ended {s : State V} {id : String} : G.ended s id → Change cfg G s (stepEnded cfg s id)
  | suspend {s : State V} {scan : Scan} : G.suspend (scan.stepId :: scan.rest) →
      Change cfg G s { s with scans := s.scans ++ [scan] }
  | arm (s : State V) {breakpoints : List EdgeBreakpoint} : G.arm breakpoints →
      Change cfg G s { s.publish (.armed breakpoints) with breakpointEngine := some { breakpoints } }
  | outside {s s' : State V} : Kept s s' → s'.down = s.down → Still s s' ∨ G.write → Change cfg G s s'

theorem Change.kept {cfg : Config V} {G : Guards V} (h : Kept s s') (hdown : s'.down = s.down)
    (hsame : outline s' = outline s) : Change cfg G s s' := .outside h hdown (.inl (.of_eq hsame))

abbrev Changes (cfg : Config V) (G : Guards V) : State V → State V → Prop := ReflTransGen (Change cfg G)

variable {id : String} {cfg : Config V} {G : Guards V}

theorem Acts.changes (h : Acts cfg G id s s') : Changes cfg G s s' := ReflTransGen.mono (fun _ _ => .act) _ _ h

theorem Acts.quiet (h : Quiet s s') : Acts cfg G id s s' := .single (.quiet h)

/-! ## What else an act leaves alone -/

/-- The other steps may only become notified or pending, and nothing is aborted. -/
structure Touch (id : String) (s s' : State V) : Prop where
  steps : ∀ x, x ≠ id → s'.steps.get? x = s.steps.get? x
  notifiedReady : ∀ x, x ≠ id → x ∈ s.notifiedReady → x ∈ s'.notifiedReady
  pendingDispatch : s.pendingDispatch ⊆ s'.pendingDispatch
  variableSpace : s'.variableSpace = s.variableSpace
  available : s'.available = s.available
  down : s'.down = s.down
  aborted : abortedSince s'.log = abortedSince s.log

theorem Touch.refl (id : String) (s : State V) : Touch id s s :=
  ⟨fun _ _ => rfl, fun _ _ h => h, List.Subset.refl _, rfl, rfl, rfl, rfl⟩

theorem Touch.trans (h : Touch id s s') (h' : Touch id s' s'') : Touch id s s'' :=
  ⟨fun x hx => (h'.steps x hx).trans (h.steps x hx),
    fun x hx hn => h'.notifiedReady x hx (h.notifiedReady x hx hn),
    List.Subset.trans h.pendingDispatch h'.pendingDispatch, h'.variableSpace.trans h.variableSpace,
    h'.available.trans h.available, h'.down.trans h.down, h'.aborted.trans h.aborted⟩

theorem Alike.touch (h : Alike s s') (id : String) : Touch id s s' :=
  ⟨fun x _ => by rw [h.steps], fun x _ hn => h.notifiedReady ▸ hn, h.pendingDispatch, h.variableSpace, h.available,
    h.down, h.abortedSince⟩

theorem Touch.idle {x : String} (h : Touch id s s') (hx : x ≠ id) (hidle : s'.idle x) : s.idle x :=
  ⟨fun hn => hidle.1 (h.notifiedReady x hx hn), fun hp => hidle.2 (h.pendingDispatch hp)⟩

theorem Alike.idle {x : String} (h : Alike s s') (hidle : s'.idle x) : s.idle x :=
  ⟨h.notifiedReady ▸ hidle.1, fun hp => hidle.2 (h.pendingDispatch hp)⟩

theorem updateStatus_touch (s : State V) (id : String) (status : StepStatus) : Touch id s (s.updateStatus id status) := by
  unfold updateStatus
  split
  · exact .refl id s
  split
  · exact .refl id s
  · exact ⟨fun x hx => Dict.get?_set_of_ne _ _ hx, fun _ _ h => h, List.Subset.refl _, rfl, rfl, rfl, rfl⟩

theorem mem_discard {x : String} {set : List String} : x ∈ discard id set ↔ x ∈ set ∧ x ≠ id := by
  simp [discard]

section

variable (cfg : Config V) (s : State V) (id : String)

theorem markSkipped_touch (reason : String) :
    Touch id s (markSkipped cfg s id reason) := by
  have h := updateStatus_touch s id .skipped
  exact ⟨h.steps, fun x hx hn => mem_discard.mpr ⟨h.notifiedReady x hx hn, hx⟩, h.pendingDispatch,
    h.variableSpace, h.available, h.down, h.aborted⟩

theorem claimUut_eq :
    claimUut cfg s id = { s with affinityClaims := (claimUut cfg s id).affinityClaims } := by
  unfold claimUut
  split <;> rfl

theorem startStep_touch : Touch id s (startStep cfg s id) := by
  unfold startStep
  rw [claimUut_eq]
  exact ⟨fun _ _ => rfl, fun _ _ h => mem_cons_of_mem _ h, List.Subset.refl _, rfl, rfl, rfl, rfl⟩

theorem startStep_pending_quiet :
    Quiet (startStep cfg s id) { startStep cfg s id with pendingDispatch := id :: s.pendingDispatch } := by
  unfold startStep
  rw [claimUut_eq]
  exact .of_eq rfl (.of_eq rfl) rfl rfl (subset_cons_self _ _)

end

theorem publish_alike (s : State V) {o : Obs} (h : o.IsNote) : Alike s (s.publish o) :=
  ⟨rfl, rfl, rfl, rfl, rfl, rfl, List.Subset.refl _, [o], by simpa using h, rfl⟩

theorem Acts.touch (h : Acts cfg G id s s') : Touch id s s' := by
  induction h with
  | refl => exact .refl id s
  | tail _ hact ih =>
    refine ih.trans ?_
    cases hact with
    | quiet hq => exact hq.toAlike.touch id
    | status st => exact updateStatus_touch _ id st
    | skip reason => exact markSkipped_touch cfg _ id reason
    | start => exact startStep_touch cfg _ id
    | spent control =>
      have hnote (due : Bool) : (Obs.spent control id due).IsNote := trivial
      exact (publish_alike _ (hnote _)).touch id

/-! ## One lemma for each function -/

section Functions

variable (cfg : Config V) (G : Guards V) (ans : Answers) (s : State V) (id : String)

theorem publish_failed_quiet (error : FailureText) : Quiet s (s.publish (.failed id error)) where
  toAlike := publish_alike s trivial
  scans := rfl
  queue := rfl
  still := .of_eq rfl
  entries := Obs.Silent.entries (.failed id error) trivial s.log
  armed _ h := ⟨h.breakpoints, h.fired⟩

theorem scheduleDispatch_quiet : Quiet s (scheduleDispatch s id) := by
  unfold scheduleDispatch
  split
  · exact .refl s
  · exact .of_eq rfl (.of_eq rfl) rfl rfl (subset_cons_self _ _)

theorem scheduleDispatchForKey_quiet (key : String) : Quiet s (scheduleDispatchForKey cfg s key) := by
  unfold scheduleDispatchForKey
  generalize cfg.dependencyIndex.getD key [] = dependents
  induction dependents generalizing s with
  | nil => exact .refl s
  | cons id dependents ih => exact (scheduleDispatch_quiet s id).trans (ih (scheduleDispatch s id))

/-- The counts may change, and then the status of the step. -/
def Concludes (id : String) (s s' : State V) : Prop :=
  ∃ retryCounts repeatCounts, s' = { s with retryCounts, repeatCounts } ∨
    ∃ new, s' = updateStatus { s with retryCounts, repeatCounts } id new

theorem settleTerminalFailure_cases (config : StepExecutionConfig) (failedStatus : StepStatus) :
    Concludes id s (settleTerminalFailure s id config failedStatus).1 := by
  unfold settleTerminalFailure
  split <;> exact ⟨s.retryCounts, s.repeatCounts, .inr ⟨_, rfl⟩⟩

theorem handleStepResult_cases (status : StepStatus) : Concludes id s (handleStepResult cfg s id status).1 := by
  have hsettle := settleTerminalFailure_cases s id
  unfold handleStepResult
  split
  · exact ⟨_, _, .inl rfl⟩
  cases status with
  | error =>
    dsimp only
    split
    · exact ⟨_, _, .inr ⟨.pending, rfl⟩⟩
    · exact hsettle _ _
  | failed =>
    dsimp only
    split
    · exact hsettle _ _
    split
    · exact ⟨_, _, .inr ⟨.pending, rfl⟩⟩
    · exact hsettle _ _
  | passed | pending | running | skipped => exact ⟨_, _, .inl rfl⟩

theorem handleStepResult_acts (status : StepStatus) : Acts cfg G id s (handleStepResult cfg s id status).1 := by
  obtain ⟨retryCounts, repeatCounts, heq⟩ := handleStepResult_cases cfg s id status
  have hcounts : Acts cfg G id s { s with retryCounts, repeatCounts } :=
    .quiet (.of_eq rfl (.of_eq rfl) rfl rfl (List.Subset.refl _))
  rcases heq with heq | ⟨new, heq⟩
  · rw [heq]
    exact hcounts
  · rw [heq]
    exact hcounts.tail (.status _ new)

theorem publish_aborted_kept : Kept s (s.publish (.aborted id)) where
  steps := rfl
  notifiedReady := rfl
  affinityClaims := rfl
  log := ⟨[.aborted id], by simp [Obs.Silent], rfl⟩
  scans := List.Subset.refl _
  reports _ h := h
  armed _ h := ⟨h.breakpoints, h.fired⟩

variable {s' : State V}

theorem noteAbort_value {r : State V × Returned Bool} {b : Bool} (h : noteAbort id r = (s', .value b)) :
    r = (s', .value b) := by
  obtain ⟨_, _ | _⟩ := r
  · exact h
  · cases h

theorem noteAbort_changes {r : State V × Returned Bool} (h : Acts cfg G id s r.1) :
    Changes cfg G s (noteAbort id r).1 := by
  obtain ⟨s', _ | _⟩ := r
  · exact h.changes
  · exact h.changes.tail (.kept (publish_aborted_kept s' id) rfl rfl)

theorem failed_acts (error : FailureText) : Acts cfg G id s ((s.updateStatus id .failed).publish (.failed id error)) :=
  .tail (.single (.status s .failed)) (.quiet (publish_failed_quiet _ id error))

theorem checkSchedulerFault_acts {b : Bool}
    (h : checkSchedulerFault cfg ans s id = (s', .value b)) : Acts cfg G id s s' := by
  unfold checkSchedulerFault at h
  split at h
  · next text _ _ =>
    have hresult := handleStepResult_acts cfg G ((s.updateStatus id .failed).publish (.failed id (.injected text))) id
      .failed
    dsimp only at h
    split at h
    · next heq =>
      cases h
      rw [noteAbort_value id heq] at hresult
      exact (failed_acts cfg G s id _).trans hresult
    · cases h
  · cases h
    exact .refl

theorem checkSchedulerFault_changes : Changes cfg G s (checkSchedulerFault cfg ans s id).1 := by
  unfold checkSchedulerFault
  split
  · next text _ _ =>
    have hfailed := failed_acts cfg G s id (.injected text)
    have hresult := noteAbort_changes cfg G s id
      (r := handleStepResult cfg ((s.updateStatus id .failed).publish (.failed id (.injected text))) id .failed)
      (hfailed.trans (handleStepResult_acts cfg G _ id .failed))
    dsimp only
    split <;> next heq => rw [heq] at hresult; exact hresult
  · exact .refl

theorem checkSchedulerFault_pass (h : checkSchedulerFault cfg ans s id = (s', .value false)) :
    s = s' ∧ (cfg.hasFaultInjector && (ans.fault id).isSome) = false := by
  unfold checkSchedulerFault at h
  split at h
  · dsimp only at h
    split at h <;> cases h
  · next hnone =>
    cases h
    refine ⟨rfl, Bool.eq_false_iff.mpr fun hfault => ?_⟩
    obtain ⟨hinjector, hsome⟩ := Bool.and_eq_true_iff.mp hfault
    obtain ⟨text, htext⟩ := Option.isSome_iff_exists.mp hsome
    exact hnone text hinjector htext

theorem finishBarrier_eq (missing : List String) :
    ∃ r : State V × Returned Bool, Acts cfg G id s r.1 ∧ finishBarrier cfg s id missing = noteAbort id r := by
  unfold finishBarrier
  split
  · have hpassed := handleStepResult_acts cfg G (s.updateStatus id .passed) id .passed
    exact ⟨_, .trans (.single (.status s .passed)) hpassed, by unfold handleStepResult; split <;> rfl⟩
  · have huuts : Quiet s { s with uuts := fun uut => if uut ∈ missing then .failed else s.uuts uut } :=
      .of_eq rfl (.of_eq rfl) rfl rfl (List.Subset.refl _)
    have hfailed := failed_acts cfg G { s with uuts := fun uut => if uut ∈ missing then .failed else s.uuts uut } id
      (.barrierTimeout (cfg.barrierSteps.getD id "") missing)
    exact ⟨_, ((Acts.quiet huuts).trans hfailed).trans (handleStepResult_acts cfg G _ id .failed), rfl⟩

theorem finishBarrier_changes (missing : List String) : Changes cfg G s (finishBarrier cfg s id missing).1 := by
  obtain ⟨r, hacts, heq⟩ := finishBarrier_eq cfg G s id missing
  rw [heq]
  exact noteAbort_changes cfg G s id hacts

theorem finishBarrier_acts {missing : List String} {b : Bool}
    (h : finishBarrier cfg s id missing = (s', .value b)) : Acts cfg G id s s' := by
  obtain ⟨r, hacts, heq⟩ := finishBarrier_eq cfg G s id missing
  rw [noteAbort_value id (heq.symm.trans h)] at hacts
  exact hacts

theorem handleStepSkipped_acts (reason : String) (h : G.skip s id) :
    Acts cfg G id s (handleStepSkipped cfg s id reason) :=
  .tail (.single (.skip reason h)) (.quiet (scheduleDispatchForKey_quiet cfg _ id))

theorem checkStep_mem {engine : BreakpointEngine} {variableSpace : V} {bp : EdgeBreakpoint}
    (h : engine.checkStep cfg variableSpace id = some bp) :
    bp ∈ engine.breakpoints ∧ (bp.kind = .step → bp.target = id) := by
  refine ⟨mem_of_find?_eq_some h, fun hkind => ?_⟩
  have hhits := find?_some h
  simp only [EdgeBreakpoint.hits, hkind, Bool.and_eq_true, decide_eq_true_eq] at hhits
  exact hhits.2

theorem gateBreakpoint_quiet : Quiet s (gateBreakpoint cfg s id).1 := by
  unfold gateBreakpoint
  split
  · exact .refl s
  next engine hengine =>
  split
  · exact .refl s
  next bp hbp =>
  obtain ⟨hmem, htarget⟩ := checkStep_mem cfg id hbp
  have hsame : breakpoints { s with breakpointEngine := some { engine with fired := bp.id :: engine.fired } } =
      s.breakpoints := by rw [breakpoints, breakpoints, hengine]; rfl
  refine ⟨⟨rfl, rfl, rfl, rfl, rfl, rfl, List.Subset.refl _, [.breakpointHit bp.id id], ?_, rfl⟩, rfl, rfl,
    ⟨⟨rfl, hsame, fun h => h⟩, rfl, ?_⟩,
    Obs.Silent.entries (.breakpointHit bp.id id) trivial s.log, fun init h => ⟨?_, ?_⟩⟩
  · simp [Obs.IsNote]
  · rintro (hpaused | ⟨_, hnone⟩)
    · exact ⟨.inl rfl, hpaused.symm⟩
    · have hempty : engine.breakpoints = [] := by rwa [breakpoints, hengine] at hnone
      exact absurd (hempty ▸ hmem) not_mem_nil
  · have hsame := h.breakpoints
    rwa [breakpoints, hengine] at hsame
  · rintro _ ⟨⟩ f hf
    rcases mem_cons.mp hf with rfl | hf
    · exact ⟨bp, hmem, rfl, fun hkind => by simp [pause, publish, hitSince, htarget hkind]⟩
    · obtain ⟨bp', hbp', hid, hhit⟩ := h.fired engine hengine f hf
      exact ⟨bp', hbp', hid, fun hkind => Bool.or_eq_true_iff.mpr (.inr (hhit hkind))⟩

theorem gateBeforeDispatch_quiet : Quiet s (gateBeforeDispatch cfg s id).1 := by
  unfold gateBeforeDispatch
  split
  · exact .refl s
  next hpaused =>
  split
  · next hmode =>
    split
    · refine .of_eq rfl ⟨⟨rfl, rfl, fun h => h⟩, rfl, ?_⟩ rfl rfl (List.Subset.refl _)
      rintro (hp | ⟨hnone, _⟩)
      · exact absurd hp hpaused
      · cases hmode.symm.trans hnone
    · exact gateBreakpoint_quiet cfg s id
  · exact gateBreakpoint_quiet cfg s id

theorem gateBeforeDispatch_dispatch (h : gateBeforeDispatch cfg s id = (s', .dispatch)) :
    s = s' ∧ s.paused = false ∧ ∀ engine ∈ s.breakpointEngine, engine.checkStep cfg s.variableSpace id = none := by
  have hbreakpoint {s' : State V} (h : gateBreakpoint cfg s id = (s', .dispatch)) :
      s = s' ∧ ∀ engine ∈ s.breakpointEngine, engine.checkStep cfg s.variableSpace id = none := by
    unfold gateBreakpoint at h
    split at h
    · next hnone =>
      cases h
      exact ⟨rfl, by simp [hnone]⟩
    next engine hengine =>
    split at h
    · next hcheck =>
      cases h
      exact ⟨rfl, by simpa [hengine] using hcheck⟩
    · cases h
  unfold gateBeforeDispatch at h
  split at h
  · cases h
  next hpaused =>
  have hopen : s = s' ∧ ∀ engine ∈ s.breakpointEngine, engine.checkStep cfg s.variableSpace id = none := by
    split at h
    · split at h
      · cases h
      · exact hbreakpoint h
    · exact hbreakpoint h
  exact ⟨hopen.1, by simpa using hpaused, hopen.2⟩

theorem noteSpent_acts (control : Option Control) {due : Bool} (h : control ≠ none → G.spent due) :
    Acts cfg G id s (s.noteSpent control id due) := by
  cases control with
  | none => exact .refl
  | some control => exact .single (.spent s control (h (by simp)))

theorem useForceNext_alike : Alike s (useForceNext cfg ans s id) := by
  unfold useForceNext
  split
  · exact ⟨rfl, rfl, rfl, rfl, rfl, rfl, List.Subset.refl _, [.spent .forceNext id (dueInDispatch cfg ans s id)],
      by simp [Obs.IsNote], rfl⟩
  · exact (Quiet.refl s).toAlike

theorem useForceNext_acts (h : s.forceNextPending = true → G.spent (dueInDispatch cfg ans s id)) :
    Acts cfg G id s (useForceNext cfg ans s id) := by
  unfold useForceNext
  split
  · next hforce =>
    exact .tail (.single (.spent s .forceNext (h hforce)))
      (.quiet (.of_eq rfl (.of_eq rfl) rfl rfl (List.Subset.refl _)))
  · exact .refl

theorem useForceNext_checks : (useForceNext cfg ans s id).paused = s.paused ∧
    (useForceNext cfg ans s id).breakpointEngine = s.breakpointEngine ∧
    cfg.getReadySteps (useForceNext cfg ans s id) = cfg.getReadySteps s ∧
    canSchedule cfg (useForceNext cfg ans s id) id = canSchedule cfg s id := by
  unfold useForceNext
  split <;> exact ⟨rfl, rfl, rfl, rfl⟩

end Functions

/-! ## The scan -/

/-- What is known about the steps that a scan has still to look at, when `ans` are its answers. -/
structure ListGuard (cfg : Config V) (G : Guards V) (ans : Answers) where
  holds : State V → List String → Prop
  alike : ∀ {s s' l}, Alike s s' → holds s l → holds s' l
  next : ∀ {s s' id rest}, holds s (id :: rest) → Touch id s s' → holds s' rest
  start : ∀ {s id rest}, holds s (id :: rest) → s.idle id → G.start s id
  skip : ∀ {s id rest}, holds s (id :: rest) → s.idle id → evaluateStepSkip cfg ans s id = true → G.skip s id
  suspend : ∀ {s l}, holds s l → G.suspend l
  spent : ∀ {s id rest}, holds s (id :: rest) → s.idle id → G.spent (cfg.ready s id)

section Scan

variable {cfg : Config V} {G : Guards V} {ans : Answers} (L : ListGuard cfg G ans) {s : State V}

theorem scanFrom_changes {l : List String} (h : L.holds s l) :
    Changes cfg G s (scanFrom cfg ans l s).1 ∧
      ∀ b rest, (scanFrom cfg ans l s).2 = some (b, rest) → G.suspend (b :: rest) := by
  induction l generalizing s with
  | nil => exact ⟨.refl, by simp [scanFrom]⟩
  | cons id rest ih =>
    have hcont {s' : State V} (hacts : Acts cfg G id s s') :
        Changes cfg G s (scanFrom cfg ans rest s').1 ∧
          ∀ b r, (scanFrom cfg ans rest s').2 = some (b, r) → G.suspend (b :: r) := by
      obtain ⟨hchanges, hsuspend⟩ := ih (L.next h hacts.touch)
      exact ⟨hacts.changes.trans hchanges, hsuspend⟩
    unfold scanFrom
    split
    · exact hcont .refl
    next hbusy =>
    have hidle : s.idle id := not_or.mp hbusy
    split
    · next hskip => exact hcont (handleStepSkipped_acts cfg G s id _ (L.skip h hidle hskip))
    next hskip =>
    split
    · exact hcont .refl
    next hcan =>
    have hfault := checkSchedulerFault_changes cfg G ans s id
    split
    · next heq =>
      rw [heq] at hfault
      exact ⟨hfault, by simp⟩
    · next heq => exact hcont (checkSchedulerFault_acts cfg G ans s id heq)
    next heq =>
    obtain ⟨rfl, hnofault⟩ := checkSchedulerFault_pass cfg ans s id heq
    have hgate := gateBeforeDispatch_quiet cfg s id
    split
    · next heq =>
      obtain ⟨rfl, hpaused, hbreakpoint⟩ := gateBeforeDispatch_dispatch cfg s id heq
      have hstart : Acts cfg G id s (startStep cfg s id) :=
        .single (.start ⟨hidle.1, by simpa using hcan, hpaused, hbreakpoint⟩ (L.start h hidle))
      have hmarked : Acts cfg G id s { startStep cfg s id with pendingDispatch := id :: s.pendingDispatch } :=
        hstart.tail (.quiet (startStep_pending_quiet cfg s id))
      dsimp only
      split
      · exact hcont hmarked
      split
      · exact ⟨hmarked.changes, by rintro b r ⟨⟩; exact L.suspend h⟩
      have hbarrier := hmarked.changes.trans (finishBarrier_changes cfg G _ id (cfg.uutIds.getD []))
      split
      · next heq =>
        rw [← runBarrierStep, heq] at hbarrier
        exact ⟨hbarrier, by simp⟩
      · next heq => exact hcont (hmarked.trans (finishBarrier_acts cfg G _ id heq))
    · next s' _ _ heq =>
      rw [heq] at hgate
      have hchecks : passesChecks cfg ans s id false = true := by
        rw [Bool.not_eq_true] at hskip
        rw [Bool.not_eq_true, Bool.not_eq_false'] at hcan
        simp [passesChecks, hidle.1, hskip, hcan, hnofault]
      have hdue : G.spent (cfg.ready s id && passesChecks cfg ans s id false) := by
        rw [hchecks, Bool.and_true]
        exact L.spent h hidle
      have hspent := noteSpent_acts cfg G s' id (spends? cfg s id) fun _ => hdue
      exact ⟨Acts.changes ((Acts.quiet hgate).trans hspent), by simp⟩

theorem suspendScan_changes {p : State V × Option (String × List String)} (forced : Bool)
    (h : Changes cfg G s p.1 ∧ ∀ b rest, p.2 = some (b, rest) → G.suspend (b :: rest)) :
    Changes cfg G s (suspendScan forced p) := by
  obtain ⟨s', _ | ⟨b, rest⟩⟩ := p
  · exact h.1
  · exact h.1.tail (.suspend (h.2 b rest rfl))

theorem emergencyScan_changes (forced : Bool)
    (h : s.paused = false → ∀ ready, cfg.getReadySteps s = some ready → L.holds s ready) :
    Changes cfg G s (emergencyScan cfg ans s forced) := by
  unfold emergencyScan
  split
  · exact .refl
  next hpaused =>
  split
  · exact .refl
  · next ready hready =>
    have hholds := h (by simpa using hpaused) ready hready
    exact suspendScan_changes forced (scanFrom_changes L hholds)

theorem resumeScan_changes {scan : Scan} (missing : List String)
    (h : ∀ s', Touch scan.stepId s s' → L.holds s' scan.rest) :
    Changes cfg G s (resumeScan cfg ans s scan missing) := by
  have hbarrier := finishBarrier_changes cfg G s scan.stepId missing
  unfold resumeScan
  split
  · next heq =>
    rw [heq] at hbarrier
    exact hbarrier
  · next heq =>
    have hacts := finishBarrier_acts cfg G s scan.stepId heq
    obtain ⟨hchanges, hsuspend⟩ := scanFrom_changes L (h _ hacts.touch)
    exact suspendScan_changes scan.forced ⟨hacts.changes.trans hchanges, hsuspend⟩

end Scan

/-! ## Reactive dispatch -/

section Dispatch

variable {cfg : Config V} {G : Guards V} {s : State V} {id : String} (ans : Answers)

def spendsInDispatch (cfg : Config V) (s : State V) (id : String) : Bool :=
  (spends? cfg s id).isSome || (s.steps.get? id = some .pending && s.forceNextPending)

/-- What the guards ask for before the step is dispatched. -/
structure MayDispatch (cfg : Config V) (G : Guards V) (ans : Answers) (s : State V) (id : String) : Prop where
  start : s.steps.get? id = some .pending → dueInDispatch cfg ans s id = true → G.start s id
  skip : s.steps.get? id = some .pending → s.forceNextPending = false → evaluateStepSkip cfg ans s id = true → G.skip s id
  spent : spendsInDispatch cfg s id = true → G.spent (dueInDispatch cfg ans s id)

theorem dispatchChecked_changes (hpaused : s.paused = false)
    (hbreakpoint : ∀ engine ∈ s.breakpointEngine, engine.checkStep cfg s.variableSpace id = none)
    (hmay : MayDispatch cfg G ans s id) : Changes cfg G s (dispatchChecked cfg ans s id).1 := by
  unfold dispatchChecked
  split
  · exact .refl
  next hpending =>
  rw [ne_eq, not_not] at hpending
  dsimp only
  have halike := useForceNext_alike cfg ans s id
  have hfirst := useForceNext_acts cfg G ans s id fun hf => hmay.spent (by simp [spendsInDispatch, hpending, hf])
  obtain ⟨hpaused', hengine, hreadySteps, hschedule⟩ := useForceNext_checks cfg ans s id
  rw [hpaused] at hpaused'
  -- What follows sees of `force_next` only that it is used up.
  generalize useForceNext cfg ans s id = used at halike hfirst hpaused' hengine hreadySteps hschedule ⊢
  have hskips : evaluateStepSkip cfg ans used id = evaluateStepSkip cfg ans s id := by
    simp only [evaluateStepSkip, Config.evaluator, halike.variableSpace, halike.available]
  split
  · next hs =>
    obtain ⟨hnext, hs'⟩ := Bool.and_eq_true_iff.mp hs
    have hskip : G.skip s id := hmay.skip hpending (by simpa using hnext) (hskips ▸ hs')
    exact hfirst.changes.trans (handleStepSkipped_acts cfg G _ id _ (G.skip_alike halike hskip)).changes
  next hskipped =>
  split
  · exact hfirst.changes
  next hnotified =>
  split
  · exact hfirst.changes
  next hready =>
  split
  · exact hfirst.changes
  next hcan =>
  have hfault := checkSchedulerFault_changes cfg G ans used id
  split
  · next heq =>
    obtain ⟨rfl, hnofault⟩ := checkSchedulerFault_pass cfg ans _ id heq
    rw [Bool.not_eq_true, Bool.not_eq_false'] at hcan hready
    have hstart : MayStart cfg used id :=
      ⟨hnotified, hcan, hpaused', by rw [hengine, halike.variableSpace]; exact hbreakpoint⟩
    have hdue : dueInDispatch cfg ans s id = true := by
      have hforced : (s.forceNextPending || !evaluateStepSkip cfg ans s id) = true := by
        simpa [← hskips, Bool.or_eq_true, or_iff_not_imp_left] using hskipped
      rw [halike.notifiedReady] at hnotified
      rw [hreadySteps] at hready
      rw [hschedule] at hcan
      simp only [dueInDispatch, passesChecks, hready, hnotified, hforced, hcan, hnofault, not_false_eq_true, decide_true,
        Bool.and_self, Bool.not_false]
    have hstarted : Acts cfg G id s (startStep cfg used id) :=
      hfirst.tail (.start hstart (G.start_alike halike (hmay.start hpending hdue)))
    have hmarked : Acts cfg G id s { startStep cfg used id with lastDispatchedStep := some id } :=
      hstarted.tail (.quiet (.of_eq rfl (.of_eq rfl) rfl rfl (List.Subset.refl _)))
    split
    · exact hmarked.changes
    split
    · exact hmarked.changes
    · exact hmarked.changes.trans (finishBarrier_changes cfg G _ id _)
  · next heq =>
    rw [heq] at hfault
    exact hfirst.changes.trans hfault

theorem finishDispatch_changes {s' : State V} (h : Changes cfg G s s') : Changes cfg G s (finishDispatch s' id) :=
  h.tail (.kept (.same rfl rfl rfl) rfl rfl)

theorem dispatchStep_changes (hmay : s.paused = false → MayDispatch cfg G ans s id) :
    Changes cfg G s (dispatchStep cfg ans s id).1 := by
  have hgate := gateBeforeDispatch_quiet cfg s id
  have hclosed {s' : State V} (hq : Quiet s s') : Changes cfg G s
      (s'.noteSpent (spends? cfg s id) id (dueInDispatch cfg ans s id)) := by
    have hspends : spends? cfg s id ≠ none → G.spent (dueInDispatch cfg ans s id) := by
      intro hsome
      refine (hmay ?_).spent (by simp [spendsInDispatch, Option.isSome_iff_ne_none, hsome])
      by_contra hpaused
      simp [spends?, Bool.of_not_eq_false hpaused] at hsome
    exact Acts.changes ((Acts.quiet hq).trans (noteSpent_acts cfg G s' id _ hspends))
  unfold dispatchStep
  dsimp only
  split
  · next heq =>
    rw [heq] at hgate
    exact hclosed hgate
  · next heq =>
    obtain ⟨rfl, hpaused, hbreakpoint⟩ := gateBeforeDispatch_dispatch cfg s id heq
    have hchanges := dispatchChecked_changes ans hpaused hbreakpoint (hmay hpaused)
    split
    · next heq =>
      rw [heq] at hchanges
      exact hchanges
    · next heq =>
      rw [heq] at hchanges
      exact finishDispatch_changes hchanges
  · next heq =>
    rw [heq] at hgate
    exact finishDispatch_changes (hclosed hgate)

def Task.dispatches (task : Task) (s : State V) : Bool := (task.point = .start ∨ task.point = .woken) ∧ s.paused = false

theorem runDispatch_changes {task : Task} (hmay : task.dispatches s = true → MayDispatch cfg G ans s task.stepId) :
    Changes cfg G s (runDispatch cfg ans s task).1 := by
  have hgo (hpoint : task.point = .start ∨ task.point = .woken) :
      Changes cfg G s (dispatchStep cfg ans s task.stepId).1 :=
    dispatchStep_changes ans fun hp => hmay (decide_eq_true ⟨hpoint, hp⟩)
  unfold runDispatch
  split
  · next hpoint =>
    split
    · exact .refl
    · exact hgo (.inl hpoint)
  · next hpoint => exact hgo (.inr hpoint)
  · exact finishDispatch_changes .refl
  · exact .refl

theorem resumeDispatch_changes (missing : List String) : Changes cfg G s (resumeDispatch cfg s id missing) :=
  finishDispatch_changes (finishBarrier_changes cfg G s id missing)

theorem runTask_changes {index : Nat} {f : State V → Task → State V × Option TaskPoint}
    (h : ∀ task, s.tasks[index]? = some task →
      Changes cfg G { s with tasks := s.tasks.eraseIdx index } (f { s with tasks := s.tasks.eraseIdx index } task).1) :
    Changes cfg G s (s.runTask index f) := by
  unfold runTask
  split
  · exact .refl
  next task htask =>
  have herase : Change cfg G s { s with tasks := s.tasks.eraseIdx index } :=
    .kept (.same rfl rfl rfl) rfl rfl
  have hrun := (h task htask).head herase
  split
  · next heq =>
    rw [heq] at hrun
    exact hrun.tail (.kept (.same rfl rfl rfl) rfl rfl)
  · next heq =>
    rw [heq] at hrun
    exact hrun

end Dispatch

/-! ## Delivery -/

section Deliver

variable {cfg : Config V} {G : Guards V}

theorem scheduleDispatchForKey_log (s : State V) (key : String) : (scheduleDispatchForKey cfg s key).log = s.log := by
  unfold scheduleDispatchForKey
  generalize cfg.dependencyIndex.getD key [] = dependents
  induction dependents generalizing s with
  | nil => rfl
  | cons id dependents ih =>
    rw [foldl_cons, ih]
    unfold scheduleDispatch
    split <;> rfl

theorem stepEnded_eq (s : State V) (id : String) : stepEnded cfg s id =
    { s with
      notifiedReady := discard id s.notifiedReady
      pendingDispatch := discard id s.pendingDispatch
      affinityClaims := (stepEnded cfg s id).affinityClaims } := by
  unfold stepEnded releaseUutClaim
  split
  · split <;> rfl
  · rfl

def Event.ended? : Event → Option String
  | .statusChanged id _ new => if new.terminal then some id else none
  | _ => none

theorem handleEvent_changes {s : State V} {event : Event} (h : ∀ id ∈ event.ended?, G.ended s id) :
    Changes cfg G s (handleEvent cfg event s) ∧ (handleEvent cfg event s).steps = s.steps ∧
      (handleEvent cfg event s).log = s.log := by
  have hschedule (s' : State V) (key : String) : Changes cfg G s' (scheduleDispatchForKey cfg s' key) ∧
      (scheduleDispatchForKey cfg s' key).steps = s'.steps ∧ (scheduleDispatchForKey cfg s' key).log = s'.log :=
    ⟨.single (@Change.act _ cfg G _ _ key (.quiet (scheduleDispatchForKey_quiet cfg s' key))),
      (scheduleDispatchForKey_quiet cfg s' key).steps, scheduleDispatchForKey_log s' key⟩
  unfold handleEvent
  split
  · next id old new =>
    split
    · next hterminal =>
      obtain ⟨hchanges, hsteps, hlog⟩ := hschedule (stepEnded cfg s id) id
      have hended : G.ended s id := h id (by simp [Event.ended?, hterminal])
      refine ⟨.head (.ended hended) hchanges, hsteps.trans ?_, hlog.trans ?_⟩ <;>
        rw [stepEnded_eq]
    · exact hschedule s id
  · exact hschedule s _
  · exact hschedule s _

def State.nextEnded? (s : State V) : Option String :=
  if 0 < s.subscriptions then s.queue.head?.bind Event.ended? else none

theorem deliver_changes {s : State V} (h : ∀ id ∈ s.nextEnded?, G.ended s id) : Changes cfg G s (deliver cfg s) := by
  unfold deliver
  split
  · exact .refl
  next event queue hqueue =>
  have hrest (id : String) : reports { s with queue := queue } id → s.reports id := by
    rintro ⟨old, new, hmem⟩
    exact ⟨old, new, hqueue ▸ mem_cons_of_mem _ hmem⟩
  have hpop : Change cfg G s { s with queue := queue } :=
    .kept (.of_core_eq rfl (List.Subset.refl _) hrest) rfl rfl
  refine .head hpop ?_
  have hiterate (n : Nat) (s' : State V) (hs' : 0 < n → ∀ id ∈ event.ended?, G.ended s' id) :
      Changes cfg G s' ((handleEvent cfg event)^[n] s') := by
    induction n generalizing s' with
    | zero => exact .refl
    | succ n ih =>
      obtain ⟨hchanges, hsteps, hlog⟩ := @handleEvent_changes _ cfg G s' event (hs' (by omega))
      rw [Function.iterate_succ_apply]
      exact hchanges.trans (ih _ fun _ id hid => G.ended_same hsteps hlog (hs' (by omega) id hid))
  refine hiterate s.subscriptions _ fun hn id hid => ?_
  exact G.ended_same (s := s) rfl rfl (h id (by simpa [nextEnded?, hn, hqueue] using hid))

end Deliver

end AteStudio.Scheduler
