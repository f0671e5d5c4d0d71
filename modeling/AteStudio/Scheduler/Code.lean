import AteStudio.Scheduler.State

/-!
# The scanner scheduler (`scheduler/scanner_scheduler.py`)

Every function is one stretch of a method between two suspensions. `Answers` are what the outside
world says during such a stretch: the adaptive evaluator and the fault injector.
-/

namespace AteStudio.Scheduler

variable {V : Type}

structure Answers where
  adaptiveSkip : String → Bool
  adaptiveReason : String → Option String
  -- The text of the `SchedulerFaultError` that the injector raises for a step.
  fault : String → Option String

def discard (stepId : String) (set : List String) : List String := set.filter (· ≠ stepId)

variable (cfg : Config V) (ans : Answers) (s : State V) (stepId : String)

/-! ## Registry -/

def State.publish (o : Obs) : State V := { s with log := o :: s.log }

/-- No caller gets here with a step that is not registered. -/
def State.updateStatus (status : StepStatus) : State V :=
  match s.steps.get? stepId with
  | none => s
  | some old =>
    if old = status then s
    else { s with
      steps := s.steps.set stepId status
      queue := s.queue ++ [.statusChanged stepId old status]
      log := .status stepId old status :: s.log }

inductive Returned (α : Type) where
  | value (a : α)
  | aborted
deriving DecidableEq

def settleTerminalFailure (config : StepExecutionConfig) (failedStatus : StepStatus) :
    State V × Returned Bool :=
  match config.onFailure with
  | .abort => (s.updateStatus stepId failedStatus, .aborted)
  | .skip => (s.updateStatus stepId .skipped, .value false)
  | .continue => (s.updateStatus stepId failedStatus, .value false)

/-- The delay before a retry comes after the last change, so it is not a suspension here. -/
def handleStepResult (status : StepStatus) : State V × Returned Bool :=
  if !s.steps.contains stepId then
    (s, .value false)
  else
    let config := cfg.getConfig stepId
    match status with
    | .error =>
      let retries := s.retryCounts.getD stepId 0
      if 0 < config.maxRetries ∧ (retries : Int) < config.maxRetries then
        ({ s with retryCounts := s.retryCounts.set stepId (retries + 1) }.updateStatus stepId .pending, .value true)
      else
        settleTerminalFailure s stepId config .error
    | .failed =>
      let repeats := s.repeatCounts.getD stepId 0
      if !config.repeatOnMeasurementFail then
        settleTerminalFailure s stepId config .failed
      else if config.forceRepeat ∨ config.repeatLimit = 0 ∨ (repeats : Int) < config.repeatLimit then
        ({ s with repeatCounts := s.repeatCounts.set stepId (repeats + 1) }.updateStatus stepId .pending, .value true)
      else
        settleTerminalFailure s stepId config .failed
    | .passed =>
      ({ s with
        retryCounts := s.retryCounts.set stepId 0
        repeatCounts := s.repeatCounts.set stepId 0 }, .value false)
    | _ => (s, .value false)

/-! ## Reactive dispatch is scheduled -/

def scheduleDispatch : State V :=
  if stepId ∈ s.notifiedReady ∨ stepId ∈ s.pendingDispatch then s
  else { s with
    pendingDispatch := stepId :: s.pendingDispatch
    tasks := s.tasks ++ [⟨stepId, .start⟩] }

def scheduleDispatchForKey (key : String) : State V :=
  (cfg.dependencyIndex.getD key []).foldl scheduleDispatch s

/-! ## UUT affinity -/

def canSchedule : Bool :=
  match specific? cfg.uutAffinities stepId, cfg.uutIds with
  | some uut, some ids =>
    if uut ∉ ids then true
    else if (s.uuts uut).busy then false
    else match s.affinityClaims.get? uut with
      | some occupant => occupant = stepId
      | none => true
  | _, _ => true

def claimUut : State V :=
  match specific? cfg.uutAffinities stepId, cfg.uutIds with
  | some uut, some _ => { s with affinityClaims := s.affinityClaims.setDefault uut stepId }
  | _, _ => s

def releaseUutClaim : State V :=
  match specific? cfg.uutAffinities stepId with
  | some uut =>
    if s.affinityClaims.get? uut = some stepId then { s with affinityClaims := s.affinityClaims.erase uut } else s
  | none => s

/-! ## Skipping -/

/-- Adaptive conditions first, then the registered expression, then the one of the step's config. -/
def evaluateStepSkip : Bool :=
  if stepId ∈ cfg.adaptiveSkipConditions ∧ ans.adaptiveSkip stepId then true
  else match cfg.skipConditions.get? stepId with
    | some (expr, _) => (cfg.evaluator s).evaluateSkipCondition expr
    | none =>
      match (cfg.getConfig stepId).skipIf with
      | some expr => expr ≠ "" && (cfg.evaluator s).evaluateSkipCondition expr
      | none => false

def nonEmpty? (text : Option String) : Option String := text.filter (· ≠ "")

def getSkipReason : String :=
  let adaptive := if stepId ∈ cfg.adaptiveSkipConditions then nonEmpty? (ans.adaptiveReason stepId) else none
  match adaptive, cfg.skipConditions.get? stepId, nonEmpty? (cfg.getConfig stepId).skipIf with
  | some reason, _, _ => reason
  | none, some (expr, reason), _ => (nonEmpty? reason).getD ("skip_if: " ++ expr)
  | none, none, some expr => "skip_if: " ++ expr
  | none, none, none => "Adaptive skip condition met"

def markSkipped (reason : String) : State V :=
  let s' := s.updateStatus stepId .skipped
  { s' with
    notifiedReady := discard stepId s'.notifiedReady
    log := .skipped stepId reason (cfg.ready s stepId) s.steps :: s'.log }

def handleStepSkipped (reason : String) : State V :=
  scheduleDispatchForKey cfg (markSkipped cfg s stepId reason) stepId

/-! ## The gate before a dispatch -/

def State.pause : State V := { s with paused := true }

def State.consumeStepMode : State V := { s with stepMode := none }

/-- Without a position the scheduler stops: it never runs away from a debugger. -/
def shouldPauseForStepMode (armed : ArmedMode) (stepId : String) : Bool :=
  match armed.mode with
  | .runToCursor => armed.target = some stepId
  | mode =>
    match armed.origin.bind cfg.stepPositions.get?, cfg.stepPositions.get? stepId with
    | some origin, some candidate =>
      let later := candidate.parent = origin.parent ∧ origin.order < candidate.order
      match mode with
      | .over => later
      | .into => origin.depth < candidate.depth ∨ later
      | _ => candidate.depth < origin.depth
    | _, _ => true

def EdgeBreakpoint.hits (variableSpace : V) (fired : List String) (stepId : String)
    (bp : EdgeBreakpoint) : Bool :=
  bp.enabled && bp.id ∉ fired &&
    match bp.kind with
    | .step => bp.target = stepId
    | .condition => cfg.evalBreakpoint variableSpace (bp.condition.getD "")
    | _ => false

def BreakpointEngine.checkStep (engine : BreakpointEngine) (cfg : Config V) (variableSpace : V) (stepId : String) :
    Option EdgeBreakpoint :=
  engine.breakpoints.find? (EdgeBreakpoint.hits cfg variableSpace engine.fired stepId)

inductive Gate where
  | dispatch
  | paused
  | stepModeStop
  | pausedAtBreakpoint
deriving DecidableEq

def gateBreakpoint : State V × Gate :=
  match s.breakpointEngine with
  | none => (s, .dispatch)
  | some engine =>
    match engine.checkStep cfg s.variableSpace stepId with
    | none => (s, .dispatch)
    | some bp =>
      let s' := { s with breakpointEngine := some { engine with fired := bp.id :: engine.fired } }
      ((s'.publish (.breakpointHit bp.id stepId)).pause, .pausedAtBreakpoint)

def gateBeforeDispatch : State V × Gate :=
  if s.paused then (s, .paused)
  else match s.stepMode with
    | some armed =>
      if shouldPauseForStepMode cfg armed stepId then (s.consumeStepMode.pause, .stepModeStop)
      else gateBreakpoint cfg s stepId
    | none => gateBreakpoint cfg s stepId

def spends? : Option Control :=
  if s.paused then none
  else if s.stepMode.any (shouldPauseForStepMode cfg · stepId) then some .stepMode
  else match s.breakpointEngine.bind (·.checkStep cfg s.variableSpace stepId) with
    | some bp => if bp.kind = .step then some (.breakpoint bp.id) else none
    | none => none

def passesChecks (forced : Bool) : Bool :=
  stepId ∉ s.notifiedReady && (forced || !evaluateStepSkip cfg ans s stepId) && canSchedule cfg s stepId &&
    !(cfg.hasFaultInjector && (ans.fault stepId).isSome)

def State.noteSpent (control : Option Control) (stepId : String) (due : Bool) : State V :=
  match control with
  | some control => s.publish (.spent control stepId due)
  | none => s

/-! ## Faults and barriers -/

def noteAbort : State V × Returned Bool → State V × Returned Bool
  | (s, .aborted) => (s.publish (.aborted stepId), .aborted)
  | (s, .value b) => (s, .value b)

def checkSchedulerFault : State V × Returned Bool :=
  match cfg.hasFaultInjector, ans.fault stepId with
  | true, some text =>
    let s' := (s.updateStatus stepId .failed).publish (.failed stepId (.injected text))
    match noteAbort stepId (handleStepResult cfg s' stepId .failed) with
    | (s', .value _) => (s', .value true)
    | (s', .aborted) => (s', .aborted)
  | _, _ => (s, .value false)

def finishBarrier (missing : List String) : State V × Returned Bool :=
  if missing.isEmpty then
    handleStepResult cfg (s.updateStatus stepId .passed) stepId .passed
  else
    let barrier := cfg.barrierSteps.getD stepId ""
    let s' := { s with uuts := fun uut => if uut ∈ missing then .failed else s.uuts uut }
    let s' := (s'.updateStatus stepId .failed).publish (.failed stepId (.barrierTimeout barrier missing))
    noteAbort stepId (handleStepResult cfg s' stepId .failed)

/-- The UUTs that can arrive. Nothing to wait for without a pool, or when all of it is busy. -/
def barrierWaits : Bool :=
  match cfg.uutIds with
  | none => false
  | some ids => ids.any fun uut => !(s.uuts uut).busy

def runBarrierStep : State V × Returned Bool :=
  finishBarrier cfg s stepId (cfg.uutIds.getD [])

/-! ## Emergency scan -/

/-- Claims the UUT, publishes `STEP_STARTED`, and notes the step as notified. -/
def startStep : State V :=
  let s' := claimUut cfg s stepId
  { s' with
    notifiedReady := stepId :: s'.notifiedReady
    log := .started stepId (s.steps.get? stepId) s.paused s.down :: s'.log }

/-- The loop of `_emergency_scan`, up to its end or to a barrier that has to wait. -/
def scanFrom (cfg : Config V) (ans : Answers) : List String → State V → State V × Option (String × List String)
  | [], s => (s, none)
  | stepId :: rest, s =>
    if stepId ∈ s.notifiedReady ∨ stepId ∈ s.pendingDispatch then
      scanFrom cfg ans rest s
    else if evaluateStepSkip cfg ans s stepId then
      scanFrom cfg ans rest (handleStepSkipped cfg s stepId (getSkipReason cfg ans stepId))
    else if !canSchedule cfg s stepId then
      scanFrom cfg ans rest s
    else match checkSchedulerFault cfg ans s stepId with
      | (s, .aborted) => (s, none)
      | (s, .value true) => scanFrom cfg ans rest s
      | (s, .value false) =>
        match gateBeforeDispatch cfg s stepId with
        | (s, .dispatch) =>
          let s := { startStep cfg s stepId with pendingDispatch := stepId :: s.pendingDispatch }
          if !cfg.barrierSteps.contains stepId then
            scanFrom cfg ans rest s
          else if barrierWaits cfg s then
            (s, some (stepId, rest))
          else match runBarrierStep cfg s stepId with
            | (s, .aborted) => (s, none)
            | (s, .value _) => scanFrom cfg ans rest s
        | (s', _) =>
          let due := cfg.ready s stepId && passesChecks cfg ans s stepId false
          (s'.noteSpent (spends? cfg s stepId) stepId due, none)

def suspendScan (forced : Bool) : State V × Option (String × List String) → State V
  | (s, none) => s
  | (s, some (stepId, rest)) => { s with scans := s.scans ++ [⟨stepId, rest, forced⟩] }

def emergencyScan (forced : Bool) : State V :=
  if s.paused then s
  else match cfg.getReadySteps s with
    | none => s
    | some ready => suspendScan forced (scanFrom cfg ans ready s)

def resumeScan (scan : Scan) (missing : List String) : State V :=
  match finishBarrier cfg s scan.stepId missing with
  | (s, .aborted) => s
  | (s, .value _) => suspendScan scan.forced (scanFrom cfg ans scan.rest s)

/-! ## Reactive dispatch -/

def finishDispatch : State V :=
  { s with pendingDispatch := discard stepId s.pendingDispatch }

/-- The rest of a dispatch, after an open gate, starts the step. -/
def dueInDispatch : Bool :=
  ((cfg.getReadySteps s).any fun ready => stepId ∈ ready) && passesChecks cfg ans s stepId s.forceNextPending

def useForceNext : State V :=
  if s.forceNextPending then
    { s.publish (.spent .forceNext stepId (dueInDispatch cfg ans s stepId)) with forceNextPending := false }
  else s

/-- Up to the end, or to a barrier that has to wait: then the flag is set. -/
def dispatchChecked : State V × Bool :=
  if s.steps.get? stepId ≠ some .pending then (s, false)
  else
    let forceNext := s.forceNextPending
    let s := useForceNext cfg ans s stepId
    if !forceNext && evaluateStepSkip cfg ans s stepId then
      (handleStepSkipped cfg s stepId (getSkipReason cfg ans stepId), false)
    else if stepId ∈ s.notifiedReady then (s, false)
    else if !((cfg.getReadySteps s).any fun ready => stepId ∈ ready) then (s, false)
    else if !canSchedule cfg s stepId then (s, false)
    else match checkSchedulerFault cfg ans s stepId with
      | (s, .value false) =>
        let s := { startStep cfg s stepId with lastDispatchedStep := some stepId }
        if !cfg.barrierSteps.contains stepId then (s, false)
        else if barrierWaits cfg s then (s, true)
        else ((runBarrierStep cfg s stepId).1, false)
      | (s, _) => (s, false)

def dispatchStep : State V × Option TaskPoint :=
  let due := dueInDispatch cfg ans s stepId
  match gateBeforeDispatch cfg s stepId with
  | (s', .pausedAtBreakpoint) => (s'.noteSpent (spends? cfg s stepId) stepId due, some .held)
  | (s, .dispatch) =>
    match dispatchChecked cfg ans s stepId with
    | (s, true) => (s, some .atBarrier)
    | (s, false) => (finishDispatch s stepId, none)
  | (s', _) => (finishDispatch (s'.noteSpent (spends? cfg s stepId) stepId due) stepId, none)

def runDispatch (task : Task) : State V × Option TaskPoint :=
  match task.point with
  | .start => if s.paused then (s, some .waiting) else dispatchStep cfg ans s task.stepId
  | .woken => dispatchStep cfg ans s task.stepId
  | .released => (finishDispatch s task.stepId, none)
  | point => (s, some point)

def resumeDispatch (missing : List String) : State V :=
  finishDispatch (finishBarrier cfg s stepId missing).1 stepId

/-! ## Event handlers -/

def stepEnded : State V :=
  releaseUutClaim cfg
    { s with
      notifiedReady := discard stepId s.notifiedReady
      pendingDispatch := discard stepId s.pendingDispatch } stepId

def handleEvent (event : Event) (s : State V) : State V :=
  match event with
  | .statusChanged stepId _ new =>
    scheduleDispatchForKey cfg (if new.terminal then stepEnded cfg s stepId else s) stepId
  | .measurementRecorded name => scheduleDispatchForKey cfg s name
  | .resourceReleased resourceId => scheduleDispatchForKey cfg s resourceId

def deliver : State V :=
  match s.queue with
  | [] => s
  | event :: queue => (handleEvent cfg event)^[s.subscriptions] { s with queue := queue }

end AteStudio.Scheduler
