import AteStudio.Lib.Runs
import AteStudio.Scheduler.Code

/-!
# Moves of the scheduler and its surroundings

A move is made whole. One that is not possible in a state changes nothing.
-/

namespace AteStudio.Scheduler

variable {V : Type}

inductive Move (V : Type) where
  -- The scan loop, or a scan that `force_scan` has asked for, runs `_emergency_scan`.
  | scan (forced : Bool) (ans : Answers)
  | resumeScan (index : Nat) (missing : List String) (ans : Answers)
  | runDispatch (index : Nat) (ans : Answers)
  | resumeDispatch (index : Nat) (missing : List String)
  | deliver
  | updateStatus (stepId : String) (status : StepStatus)
  | handleStepResult (stepId : String) (status : StepStatus)
  | setVariable (name : String) (variableSpace : V)
  | setAvailable (available : String → Bool)
  | releaseResource (resourceId : String)
  | setUut (uut : String) (state : UUTState)
  | pause
  | resume
  | armStepMode (mode : StepMode) (target : Option String)
  | forceNext
  | replaceBreakpoints (breakpoints : List EdgeBreakpoint)
  | forceScan
  | start
  | stop
  -- `stop()` goes on after the watchdog has ended, and again after the scan task has.
  | continueStop
  | emergencyShutdown

def Task.wake (task : Task) : Task :=
  match task.point with
  | .waiting => { task with point := .woken }
  | .held => { task with point := .released }
  | _ => task

def State.unpause (s : State V) : State V := { s with paused := false, tasks := s.tasks.map Task.wake }

/-- The task at `index`, run by `f`: it goes on at the point that `f` returns, or ends. -/
def State.runTask (s : State V) (index : Nat) (f : State V → Task → State V × Option TaskPoint) : State V :=
  match s.tasks[index]? with
  | none => s
  | some task =>
    match f { s with tasks := s.tasks.eraseIdx index } task with
    | (s, some point) => { s with tasks := s.tasks ++ [{ task with point }] }
    | (s, none) => s

def State.scanLoopFree (s : State V) : Bool := s.scanTask && s.scans.all Scan.forced

def State.endScanTask (s : State V) : State V :=
  { s with scanTask := false, scans := s.scans.filter Scan.forced }

def step (cfg : Config V) (s : State V) : Move V → State V
  | .scan false ans => if s.scanLoopFree then emergencyScan cfg ans s false else s
  | .scan true ans =>
    if 0 < s.forcedScans then emergencyScan cfg ans { s with forcedScans := s.forcedScans - 1 } true else s
  | .resumeScan index missing ans =>
    match s.scans[index]? with
    | some scan => resumeScan cfg ans { s with scans := s.scans.eraseIdx index } scan missing
    | none => s
  | .runDispatch index ans => s.runTask index (runDispatch cfg ans)
  | .resumeDispatch index missing =>
    s.runTask index fun s task =>
      if task.point = .atBarrier then (resumeDispatch cfg s task.stepId missing, none) else (s, some task.point)
  | .deliver => deliver cfg s
  | .updateStatus stepId status => s.updateStatus stepId status
  | .handleStepResult stepId status => (handleStepResult cfg s stepId status).1
  | .setVariable name variableSpace =>
    { s with variableSpace, queue := s.queue ++ [.measurementRecorded name] }
  | .setAvailable available => { s with available }
  | .releaseResource resourceId => { s with
      available := fun r => r = resourceId || s.available r
      queue := s.queue ++ [.resourceReleased resourceId] }
  | .setUut uut state => { s with uuts := fun u => if u = uut then state else s.uuts u }
  | .pause => s.pause
  | .resume => s.unpause.consumeStepMode
  | .armStepMode mode target => { s.unpause with stepMode := some ⟨mode, target, s.lastDispatchedStep⟩ }
  | .forceNext => { s with forceNextPending := true }
  | .replaceBreakpoints breakpoints =>
    match s.breakpointEngine with
    | some _ => { s.publish (.armed breakpoints) with breakpointEngine := some { breakpoints } }
    | none => s
  | .forceScan => { s with forcedScans := s.forcedScans + 1 }
  -- Nobody calls `start()` while a `stop()` is still at work.
  | .start => if s.running || s.stopping.isSome then s else { s with
      running := true
      subscriptions := s.subscriptions + 1
      handlers := true
      scanTask := true
      down := false
      log := .began :: s.log }
  | .stop => if !s.running then { s with down := true } else { s.consumeStepMode with
      running := false
      stopping := some .watchdog }
  | .continueStop =>
    match s.stopping with
    | some .watchdog => { s with
        subscriptions := if s.handlers then s.subscriptions - 1 else s.subscriptions
        handlers := false
        stopping := some .scanTask }
    | some .scanTask => { s.endScanTask with stopping := none, down := true }
    | none => s
  | .emergencyShutdown => { s.endScanTask with running := false, down := true }

def run (cfg : Config V) : State V → List (Move V) → State V := Runs.run (step cfg)

structure State.Fresh (s : State V) : Prop where
  notifiedReady : s.notifiedReady = []
  pendingDispatch : s.pendingDispatch = []
  affinityClaims : s.affinityClaims = ∅
  queue : s.queue = []
  tasks : s.tasks = []
  scans : s.scans = []
  forcedScans : s.forcedScans = 0
  running : s.running = false
  scanTask : s.scanTask = false
  subscriptions : s.subscriptions = 0
  stopping : s.stopping = none
  down : s.down = false
  log : s.log = []

theorem State.Fresh.initial (steps : Dict String StepStatus) (variableSpace : V) :
    State.Fresh { steps := steps, variableSpace := variableSpace } where
  notifiedReady := rfl
  pendingDispatch := rfl
  affinityClaims := rfl
  queue := rfl
  tasks := rfl
  scans := rfl
  forcedScans := rfl
  running := rfl
  scanTask := rfl
  subscriptions := rfl
  stopping := rfl
  down := rfl
  log := rfl

/-! ## The simplest surroundings -/

def Config.bare : Config Unit where
  evalExpression _ expr := if expr = "True" then some true else none
  evalBreakpoint _ _ := false
  conditions := ∅
  configs := ∅
  dependencyIndex := ∅
  skipConditions := ∅
  adaptiveSkipConditions := []
  uutAffinities := ∅
  uutIds := none
  affinityKnown := by simp
  barrierSteps := ∅
  hasFaultInjector := false
  stepPositions := ∅

def Answers.silent : Answers where
  adaptiveSkip _ := false
  adaptiveReason _ := none
  fault _ := none

def chainConfig : Config Unit := { Config.bare with
  conditions := ⟨[("y", { step := some "x", status := some "PASSED" })], by decide⟩
  dependencyIndex := ⟨[("x", ["y"])], by decide⟩ }

def chainState : State Unit where
  steps := ⟨[("x", .pending), ("y", .pending)], by decide⟩
  variableSpace := ()

end AteStudio.Scheduler
