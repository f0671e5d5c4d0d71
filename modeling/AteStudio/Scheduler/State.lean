import AteStudio.Bootstrap

/-!
# The state of the scanner scheduler (`scheduler/scanner_scheduler.py`)

A coroutine runs without interruption from one real suspension to the next: publishing does not suspend, waiting at a
barrier or for the pause event does.
-/

namespace AteStudio.Scheduler

open Bootstrap (StepPosition)

inductive UUTState where
  | idle
  | testing
  | passed
  | failed
deriving DecidableEq

def UUTState.busy (u : UUTState) : Bool := u = .testing

inductive StepMode where
  | over
  | into
  | out
  | runToCursor
deriving DecidableEq

/-- An armed step mode, with the step that was dispatched last when it was armed. -/
structure ArmedMode where
  mode : StepMode
  target : Option String
  origin : Option String

inductive BreakpointKind where
  | step
  | instrumentCall
  | variableChange
  | condition
deriving DecidableEq

structure EdgeBreakpoint where
  id : String
  kind : BreakpointKind
  target : String
  condition : Option String := none
  enabled : Bool := true
deriving DecidableEq

structure BreakpointEngine where
  breakpoints : List EdgeBreakpoint
  fired : List String := []

/-! ## Configuration -/

/-- A specific affinity: neither missing, nor empty, nor `any`. -/
def specific? (affinities : Dict String String) (stepId : String) : Option String :=
  match affinities.get? stepId with
  | some affinity => if affinity = "" ∨ affinity = "any" then none else some affinity
  | none => none

theorem mem_values_of_specific? {affinities : Dict String String} {stepId uut : String}
    (h : specific? affinities stepId = some uut) : uut ∈ affinities.values := by
  unfold specific? at h
  split at h
  · next affinity hget =>
    split at h
    · cases h
    · cases h
      exact List.mem_map_of_mem ((Dict.get?_eq_some_iff _ _ _).mp hget)
  · cases h

/-- The two functions stand for `VariableSpace.resolve` with `simpleeval`. -/
structure Config (V : Type) where
  evalExpression : V → String → Option Bool
  evalBreakpoint : V → String → Bool
  conditions : Dict String Condition
  configs : Dict String StepExecutionConfig
  dependencyIndex : Dict String (List String)
  skipConditions : Dict String (String × Option String)
  -- The steps with adaptive skip conditions, empty without an adaptive evaluator.
  adaptiveSkipConditions : List String
  uutAffinities : Dict String String
  uutIds : Option (List String)
  -- `register_uut_affinities` refuses an affinity that the pool does not have.
  affinityKnown : ∀ ids, uutIds = some ids → ∀ stepId uut, specific? uutAffinities stepId = some uut → uut ∈ ids
  barrierSteps : Dict String String
  hasFaultInjector : Bool
  stepPositions : Dict String StepPosition

/-! ## State -/

inductive Event where
  | statusChanged (stepId : String) (old new : StepStatus)
  | measurementRecorded (name : String)
  | resourceReleased (resourceId : String)
deriving DecidableEq

inductive TaskPoint where
  | start
  | waiting
  -- Let through the pause gate, and not yet run.
  | woken
  | held
  -- Let go by the breakpoint, and not yet run.
  | released
  | atBarrier
deriving DecidableEq

structure Task where
  stepId : String
  point : TaskPoint
deriving DecidableEq

/-- Waits at the barrier of `stepId`, with what is left of its ready list. -/
structure Scan where
  stepId : String
  rest : List String
  forced : Bool
deriving DecidableEq

inductive FailureText where
  | injected (text : String)
  | barrierTimeout (barrier : String) (missing : List String)
deriving DecidableEq

inductive Control where
  | breakpoint (id : String)
  | stepMode
  | forceNext
deriving DecidableEq

/-- Public events, with facts that the event does not carry. The last four mark what a run is judged by. -/
inductive Obs where
  | status (stepId : String) (old new : StepStatus)
  | started (stepId : String) (status : Option StepStatus) (paused down : Bool)
  | skipped (stepId reason : String) (ready : Bool) (steps : Dict String StepStatus)
  | failed (stepId : String) (error : FailureText)
  | breakpointHit (breakpointId stepId : String)
  | began
  | aborted (stepId : String)
  | armed (breakpoints : List EdgeBreakpoint)
  | spent (control : Control) (stepId : String) (due : Bool)
deriving DecidableEq

inductive StopPhase where
  | watchdog
  | scanTask
deriving DecidableEq

structure State (V : Type) where
  steps : Dict String StepStatus
  retryCounts : Dict String Nat := ∅
  repeatCounts : Dict String Nat := ∅
  notifiedReady : List String := []
  pendingDispatch : List String := []
  affinityClaims : Dict String String := ∅
  uuts : String → UUTState := fun _ => .idle
  variableSpace : V
  available : String → Bool := fun _ => true
  paused : Bool := false
  forceNextPending : Bool := false
  stepMode : Option ArmedMode := none
  lastDispatchedStep : Option String := none
  breakpointEngine : Option BreakpointEngine := none
  -- Published and not yet delivered, the oldest first.
  queue : List Event := []
  tasks : List Task := []
  scans : List Scan := []
  -- Scans that `force_scan` has asked for and that have not begun.
  forcedScans : Nat := 0
  running : Bool := false
  scanTask : Bool := false
  subscriptions : Nat := 0
  -- Whether `_handlers` holds a set of handlers to unsubscribe.
  handlers : Bool := false
  stopping : Option StopPhase := none
  -- `stop()` has returned or an emergency shutdown has run, and `start()` was not called since.
  down : Bool := false
  -- The newest first.
  log : List Obs := []

variable {V : Type}

def Config.registry (cfg : Config V) (s : State V) : StepRegistry where
  steps := s.steps
  conditions := cfg.conditions
  configs := cfg.configs
  retryCounts := s.retryCounts
  repeatCounts := s.repeatCounts

def Config.evaluator (cfg : Config V) (s : State V) : Evaluator where
  evalExpression := cfg.evalExpression s.variableSpace
  resources := some s.available

def Config.getConfig (cfg : Config V) (stepId : String) : StepExecutionConfig := cfg.configs.getD stepId {}

def Config.getReadySteps (cfg : Config V) (s : State V) : Option (List String) :=
  (cfg.registry s).getReadySteps (cfg.evaluator s)

def Config.ready (cfg : Config V) (s : State V) (stepId : String) : Bool :=
  s.steps.get? stepId = some .pending ∧ (cfg.registry s).isReady (cfg.evaluator s) stepId .pending = some true

def State.breakpoints (s : State V) : List EdgeBreakpoint := s.breakpointEngine.elim [] (·.breakpoints)

def State.idle (s : State V) (stepId : String) : Prop := stepId ∉ s.notifiedReady ∧ stepId ∉ s.pendingDispatch

instance (s : State V) (stepId : String) : Decidable (s.idle stepId) := inferInstanceAs (Decidable (_ ∧ _))

end AteStudio.Scheduler
