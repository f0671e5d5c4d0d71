import AteStudio.Wire
import AteStudio.Scheduler.Durable

/-!
# The worker (`JetStreamWorker` in `scheduler/jetstream_worker.py`, the loop in `scheduler/edge_worker.py`)

A pulled task becomes an attempt of its execution, with a scheduler of its own. All attempts share one snapshot file.
-/

namespace AteStudio

open Json (Obj Text loads)
open Scheduler (BreakpointKind EdgeBreakpoint BreakpointEngine StepMode Config Durable DurableMove beginStart finishStart
  resumable?)

structure Env extends Scheduler.Interpreter where
  evalExpression : VariableSpace → String → Option Bool
  evalBreakpoint : VariableSpace → String → Bool
  variableRefs : String → List String
  conditionIsSafe : String → Bool
  -- With a proxy manager, a recovery resets the instruments.
  resetsInstruments : Bool

/-! ## Breakpoint definitions (`scheduler/edge_breakpoints.py`) -/

def breakpointKind? (value : String) : Option BreakpointKind :=
  [("step", BreakpointKind.step), ("instrument_call", .instrumentCall), ("variable_change", .variableChange),
    ("condition", .condition)].lookup value

def nonBlank? (v : Option Obj) : Option String := (v.bind Obj.str?).filter fun s => !isBlank s

/-- `item.get("enabled", True)`. Nothing when it is no boolean. -/
def enabled? : Option Obj → Option Bool
  | none => some true
  | some (.bool b) => some b
  | some _ => none

/-- The condition of a breakpoint of the kind. Nothing when it is malformed. -/
def condition? (env : Env) (kind : BreakpointKind) (condition : Option Obj) : Option (Option String) :=
  if kind = .condition then
    ((nonBlank? condition).filter env.conditionIsSafe).map some
  else match condition with
    | none | some .none => some none
    | some (.str s) => if isBlank s then some none else none
    | some _ => none

def parseOne (env : Env) : Obj → Option EdgeBreakpoint
  | .dict kvs => do
    let item := Obj.dict kvs
    let id ← nonBlank? (item.get? "id")
    let kind ← ((item.get? "kind").bind Obj.str?).bind breakpointKind?
    let target ← nonBlank? (item.get? "target")
    let enabled ← enabled? (item.get? "enabled")
    let condition ← condition? env kind (item.get? "condition")
    return { id, kind, target, condition, enabled }
  | _ => none

def parseBreakpointDefs (env : Env) (raw : List Obj) : List EdgeBreakpoint := raw.filterMap (parseOne env)

def defs? : Option Obj → Option (List Obj)
  | some (.list xs) => some xs
  | _ => none

/-! ## Booting a plan -/

def addDependent (stepId : String) (index : Dict String (List String)) (key : String) : Dict String (List String) :=
  let dependents := index.getD key []
  index.set key (if stepId ∈ dependents then dependents else dependents ++ [stepId])

def dependencyKeys (env : Env) (c : Condition) : List String :=
  c.step.toList ++ (c.expression.elim [] env.variableRefs) ++ c.resourceAvailable.getD []

def compilePlan (env : Env) (steps : List (String × Option Condition)) : Dict String (List String) :=
  steps.foldl (fun index entry =>
    match entry.2 with
    | none => index
    | some c => (dependencyKeys env c).foldl (addDependent entry.1) index) ∅

def Env.config (env : Env) (booted : Bootstrap.Booted) : Config VariableSpace where
  evalExpression := env.evalExpression
  evalBreakpoint := env.evalBreakpoint
  conditions := booted.registry.conditions
  configs := booted.registry.configs
  dependencyIndex := compilePlan env booted.compiled
  skipConditions := booted.skipConditions
  adaptiveSkipConditions := []
  uutAffinities := ∅
  uutIds := none
  affinityKnown := Config.bare.affinityKnown
  barrierSteps := ∅
  hasFaultInjector := true
  stepPositions := booted.positions

def bootScheduler (booted : Bootstrap.Booted) (breakpoints : List EdgeBreakpoint) : Scheduler.State VariableSpace where
  steps := booted.registry.steps
  variableSpace := {}
  breakpointEngine := if breakpoints.isEmpty then none else some { breakpoints }

/-! ## State -/

structure Attempt where
  executionId : String
  config : Config VariableSpace
  scheduler : Scheduler.State VariableSpace
  alive : Bool := true
  restoredSteps : Dict String StepStatus
  restoredVariables : VariableSpace
  writes : List (VariablePath × Obj) := []

/-- Where a pull, or the `stop()` after its exception, is suspended. -/
inductive PullPoint where
  | idle
  | resetting (index : Nat)
  | acking
  | naking
  | stopping (index : Nat)
deriving DecidableEq

structure Worker where
  -- The oldest first. The others refer to an attempt by its place.
  attempts : List Attempt := []
  currentScheduler : Option Nat := none
  currentExecutionId : Option String := none
  pendingBreakpointDefs : Option (List Obj) := none
  file : Scheduler.SnapshotFile := .missing
  pull : PullPoint := .idle
  aborting : Option Nat := none
  -- The execution that has saved the file.
  savedBy : Option String := none
  pendingFor : Option String := none
  sent : List (String × EdgeBreakpoint) := []

structure Message where
  executionId : String
  data : Option Text

inductive Action where
  | abort
  | pause
  | resume
  | forceNext
  | stepControl (mode : StepMode) (target : Option String)
  | syncBreakpoints (breakpoints : Option Obj)

inductive WorkerMove where
  | pull (message : Message)
  | reset
  | ack (ok : Bool)
  | nak (ok : Bool)
  -- The connection is lost while the loop waits for a task.
  | disconnect
  | stopped
  | control (runId : String) (action : Action)
  | aborted
  -- A scheduler, or what it runs, does something.
  | attempt (index : Nat) (move : DurableMove)
  | crash

/-! ## Attempts at work -/

/-- Neither started, nor stopped, nor armed. -/
def Scheduler.DurableMove.own : DurableMove → Bool
  | .scheduler .start _ | .scheduler .stop _ | .scheduler (.replaceBreakpoints _) _ | .scheduler (.setVariable ..) _ =>
    false
  | _ => true

def Scheduler.DurableMove.written : DurableMove → List (VariablePath × Obj)
  | .set name value => (VariablePath.parse? name).toList.map (·, value)
  | .endLoop loopId _ => (VariablePath.parse? ("loop." ++ loopId ++ ".result")).toList.map (·, Scheduler.loopResult)
  | _ => []

def Scheduler.Durable.saves (py : Scheduler.Interpreter) (d : Durable) : DurableMove → Bool
  | .scheduler .deliver now => d.scheduler.savesNext && (py.save? (d.scheduler.getState now)).isSome
  | _ => false

def Attempt.step (a : Attempt) (file : Scheduler.SnapshotFile) (move : DurableMove) : Attempt :=
  { a with
    scheduler := (Durable.mk a.scheduler file).schedulerAfter a.config move
    writes := move.written ++ a.writes }

def Attempt.command (a : Attempt) (move : Scheduler.Move VariableSpace) : Attempt :=
  { a with scheduler := Scheduler.step a.config a.scheduler move }

def Attempt.finishStart (a : Attempt) : Attempt := { a with scheduler := Scheduler.finishStart a.scheduler }

def errorPending (s : Scheduler.State VariableSpace) : Scheduler.State VariableSpace :=
  s.steps.entries.foldl (fun s' entry => if entry.2 = .pending then s'.updateStatus entry.1 .error else s') s

def Attempt.errorPending (a : Attempt) : Attempt := { a with scheduler := AteStudio.errorPending a.scheduler }

def Attempt.arm (a : Attempt) (breakpoints : List EdgeBreakpoint) : Attempt :=
  { a with scheduler := { a.scheduler.publish (.armed breakpoints) with breakpointEngine := some { breakpoints } } }

def bootAttempt (env : Env) (file : Scheduler.SnapshotFile) (executionId : String) (booted : Bootstrap.Booted)
    (breakpoints : List EdgeBreakpoint) : Attempt × Bool :=
  let (scheduler, raised) := beginStart file (bootScheduler booted breakpoints)
  ({ executionId, scheduler
     config := env.config booted
     restoredSteps := scheduler.steps
     restoredVariables := scheduler.variableSpace }, raised)

namespace Worker

variable (env : Env) (w : Worker)

def update (index : Nat) (f : Attempt → Attempt) : Worker := { w with attempts := w.attempts.modify index f }

def runAttempt (index : Nat) (move : DurableMove) : Worker :=
  match w.attempts[index]? with
  | none => w
  | some a =>
    if a.alive && move.own then
      { w.update index (·.step w.file move) with
        file := (Durable.mk a.scheduler w.file).fileAfter env.toInterpreter move
        savedBy := if (Durable.mk a.scheduler w.file).saves env.toInterpreter move then some a.executionId else w.savedBy }
    else w

/-! ## Pulling -/

def decode (data : Option Text) : Option (YamlPlan × Option (List Obj)) := do
  let data ← data
  let payload ← PyVal.ofObj? (loads data)
  let plan ← dictToYamlPlan payload
  return (plan, defs? ((loads data).get? "breakpoints"))

/-- The scheduler of a booted plan is started, up to its first suspension. -/
def boot (executionId : String) (booted : Bootstrap.Booted) (breakpoints : List EdgeBreakpoint) : Worker :=
  let index := w.attempts.length
  let (attempt, raised) := bootAttempt env w.file executionId booted breakpoints
  let (attempt, pull) :=
    if raised then (attempt, .naking)
    else if env.resetsInstruments && (resumable? w.file).isSome then (attempt, .resetting index)
    else (attempt.finishStart, .acking)
  { w with attempts := w.attempts ++ [attempt], currentScheduler := some index, pull }

/-- The definitions of the payload, or those that are pending. -/
def takeDefs (executionId : String) (own : Option (List Obj)) : Worker :=
  { w with
    pendingBreakpointDefs := none
    pendingFor := none
    sent := (own.elim [] (parseBreakpointDefs env)).map (executionId, ·) ++ w.sent }

def process (message : Message) : Worker :=
  let w := { w with currentExecutionId := some message.executionId }
  match decode message.data with
  | none => { w with pull := .naking }
  | some (plan, own) =>
    let raw := (own.or w.pendingBreakpointDefs).getD []
    let w := w.takeDefs env message.executionId own
    match Bootstrap.bootstrap plan with
    | .error _ => { w with pull := .naking }
    | .ok booted => w.boot env message.executionId booted (parseBreakpointDefs env raw)

def clear : Worker := { w with currentScheduler := none, currentExecutionId := none }

/-- `stop()` of the worker keeps `_current_execution_id`. -/
def stop : Worker :=
  match w.currentScheduler with
  | none => { w with pull := .idle }
  | some index =>
    let stopped := w.update index (·.command .stop)
    if w.attempts[index]?.any (·.scheduler.running) then { stopped with pull := .stopping index }
    else { stopped with currentScheduler := none, pull := .idle }

def hasStopped (index : Nat) : Bool := w.attempts[index]?.all (·.scheduler.stopping.isNone)

/-! ## Control messages -/

def abortCurrent : Worker :=
  match w.currentScheduler with
  | none => w
  | some index =>
    let stopped := w.update index fun a => a.errorPending.command .stop
    if w.attempts[index]?.any (·.scheduler.running) then { stopped with aborting := some index } else stopped.clear

def command (move : Scheduler.Move VariableSpace) : Worker :=
  match w.currentScheduler with
  | none => w
  | some index => w.update index (·.command move)

/-- `run_to_cursor` needs a registered step. -/
def stepControl (mode : StepMode) (target : Option String) : Worker :=
  let known := (w.currentScheduler.bind (w.attempts[·]?)).any fun a =>
    target.any fun t => t ≠ "" && a.scheduler.steps.contains t
  if mode = .runToCursor && !known then w else w.command (.armStepMode mode target)

def syncBreakpoints (runId : String) (breakpoints : Option Obj) : Worker :=
  let raw := (defs? breakpoints).getD []
  let parsed := parseBreakpointDefs env raw
  let w := { w with sent := parsed.map (runId, ·) ++ w.sent }
  match w.currentScheduler with
  | none => { w with pendingBreakpointDefs := some raw, pendingFor := some runId }
  | some index => if w.currentExecutionId = some runId then w.update index (·.arm parsed) else w

def control (runId : String) (action : Action) : Worker :=
  if w.aborting.isSome then w
  else match action with
    | .syncBreakpoints breakpoints => w.syncBreakpoints env runId breakpoints
    | action =>
      if w.currentExecutionId ≠ some runId then w
      else match action with
        | .abort => w.abortCurrent
        | .pause => w.command .pause
        | .resume => w.command .resume
        | .forceNext => w.command .forceNext
        | .stepControl mode target => w.stepControl mode target
        | .syncBreakpoints _ => w

/-! ## Moves -/

def step : WorkerMove → Worker
  | .pull message => if w.pull = .idle then w.process env message else w
  | .reset =>
    match w.pull with
    | .resetting index => { w.update index Attempt.finishStart with pull := .acking }
    | _ => w
  | .ack ok => if w.pull = .acking then { w with pull := if ok then .idle else .naking } else w
  | .nak ok =>
    if w.pull = .naking then
      if ok then { w.clear with pull := .idle } else w.stop
    else w
  | .disconnect => if w.pull = .idle then w.stop else w
  | .stopped =>
    match w.pull with
    | .stopping index => if w.hasStopped index then { w with currentScheduler := none, pull := .idle } else w
    | _ => w
  | .control runId action => w.control env runId action
  | .aborted =>
    match w.aborting with
    | some index => if w.hasStopped index then { w.clear with aborting := none } else w
    | none => w
  | .attempt index move => w.runAttempt env index move
  -- Only the file is left.
  | .crash => { w with
      attempts := w.attempts.map fun a => { a with alive := false }
      currentScheduler := none
      currentExecutionId := none
      pendingBreakpointDefs := none
      pendingFor := none
      pull := .idle
      aborting := none }

def run : Worker → List WorkerMove → Worker := Runs.run (step env)

end Worker

/-! ## The simplest surroundings -/

def Env.bare : Env where
  reprFloat _ := ""
  evalExpression _ expr := if expr = "True" then some true else none
  evalBreakpoint _ _ := false
  variableRefs _ := []
  conditionIsSafe _ := true
  resetsInstruments := false

def oneStepTask (executionId : String) : Message where
  executionId
  data := some (.object [
    ("name", .str "one step"),
    ("version", .str "3.2"),
    ("steps", .array [.object [("id", .str "a"), ("script", .str "a.py")]])])

end AteStudio
