import AteStudio.Dsl

/-!
# `V32PlanDispatcher` (`executor/v32_dispatcher.py`)

A scope runs in waves, and a loop body is a scope of its own. Scripts, fixtures, barriers and the breakpoint hook answer
from outside.
-/

namespace AteStudio.Dispatcher

inductive Status where
  | pass
  | fail
  | skip
  | blocked
deriving DecidableEq, Repr

structure StepOutcome where
  stepId : String
  stepType : String
  status : Status
  detail : String := ""
  attempts : Nat := 1
deriving DecidableEq, Repr

inductive FixtureAction where
  | clamp
  | release
  | setRoute (relayId route : String)
  | readSensor (sensorId : String)

inductive FixtureResult where
  | done (value : String)
  | timeout (message : String)
  | error (message : String)

structure Env (σ : Type) where
  -- A script executor that raises counts as one that returns `False`.
  scriptExecutor : Option (σ → YamlStep → Bool × σ)
  fixture : σ → String → FixtureAction → FixtureResult × σ
  barrier : σ → String → Option (List String) × σ
  breakpointHook : Option (σ → YamlStep → σ)
  evalBreakpointCondition : String → Option Bool
  str : PyVal → String
  repr : List String → String

/-- A call of `_execute_step`. -/
structure Execution where
  step : YamlStep
  outcome : StepOutcome

structure RunState (σ : Type) where
  aborted : Bool
  world : σ
  -- What was executed, in order.
  executions : List Execution := []

/-! ## Helpers -/

def orText (a b : Option String) : Option String :=
  match a with
  | some s => if s = "" then b else some s
  | none => b

/-- `depends_on`, and the preconditions it does not have. -/
def deps : Item → List String
  | .step s _ => s.dependsOn ++ s.preconditions.filter (· ∉ s.dependsOn)
  | .loop l _ => l.dependsOn
  | .raw _ => []

def itemType : Item → String
  | .step s _ => (s.type.getD .script).value
  | .loop .. => "loop"
  | .raw _ => ""

def isAbort : Item → Bool
  | .step s _ => orText s.onFailure s.onFail = none ∨ orText s.onFailure s.onFail = some "abort"
  | _ => false

section

variable {σ : Type} (env : Env σ) (planFixture : Option String)

/-! ## One step -/

def runAttempts (executor : σ → YamlStep → Bool × σ) (s : YamlStep) : Nat → Nat → σ → Bool × Nat × σ
  | 0, made, world => (false, made, world)
  | left + 1, made, world =>
    match executor world s with
    | (true, world) => (true, made + 1, world)
    | (false, world) => runAttempts executor s left (made + 1) world

def failureOutcome (s : YamlStep) (attempts : Nat) (st : RunState σ) : StepOutcome × RunState σ :=
  let detail := "script '" ++ s.script ++ "' failed after " ++ toString attempts ++ " attempt(s)"
  match orText s.onFailure s.onFail with
  | some "continue" => (⟨s.id, "script", .fail, detail ++ "; on_failure=continue", attempts⟩, st)
  | some "skip" => (⟨s.id, "script", .skip, detail ++ "; on_failure=skip", attempts⟩, st)
  | _ =>
    (⟨s.id, "script", .fail, detail ++ "; on_failure=abort (default)", attempts⟩, { st with aborted := true })

variable (s : YamlStep) (st : RunState σ)

def dispatchScript : StepOutcome × RunState σ :=
  let executor := env.scriptExecutor.getD fun world _ => (true, world)
  let (ok, attempts, world) := runAttempts executor s (1 + s.retry).toNat 0 st.world
  if ok then
    (⟨s.id, "script", .pass, "script '" ++ s.script ++ "' (attempt " ++ toString attempts ++ ")", attempts⟩,
      { st with world })
  else failureOutcome s attempts { st with world }

def fixtureAction (s : YamlStep) : Except String FixtureAction :=
  let action := s.action.getD ""
  if action = "clamp" then .ok .clamp
  else if action = "release" then .ok .release
  else if action = "set_route" then
    let relayId := env.str (s.params.getD "relay_id" (.str ""))
    if relayId = "" then .error "set_route requires params.relay_id"
    else .ok (.setRoute relayId (env.str (s.params.getD "route" (.str "DUT1"))))
  else if action = "read_sensor" then
    let sensorId := env.str (s.params.getD "sensor_id" (.str ""))
    if sensorId = "" then .error "read_sensor requires params.sensor_id" else .ok (.readSensor sensorId)
  else .error ("Unknown fixture action '" ++ action ++
    "' (valid: ['clamp', 'read_sensor', 'release', 'set_route'])")

def fixtureDetail (s : YamlStep) (fixtureId : String) (action : FixtureAction) :
    FixtureResult → Status × String
  | .done value =>
    match action with
    | .readSensor sensorId => (.pass, "read_sensor " ++ sensorId ++ " = " ++ value)
    | _ => (.pass, s.action.getD "" ++ " on fixture '" ++ fixtureId ++ "'")
  | .timeout message => (.fail, "Fixture action '" ++ s.action.getD "" ++ "' timed out: " ++ message)
  | .error message => (.fail, "Fixture action '" ++ s.action.getD "" ++ "' failed: " ++ message)

def dispatchFixture : StepOutcome × RunState σ :=
  match orText s.fixtureId planFixture with
  | none | some "" =>
    (⟨s.id, "fixture_control", .fail, "fixture_control step requires 'fixture_id'", 1⟩, st)
  | some fixtureId =>
    match fixtureAction env s with
    | .error detail => (⟨s.id, "fixture_control", .fail, detail, 1⟩, st)
    | .ok action =>
      let (result, world) := env.fixture st.world fixtureId action
      let (status, detail) := fixtureDetail s fixtureId action result
      (⟨s.id, "fixture_control", status, detail, 1⟩, { st with world })

def dispatchBarrier : StepOutcome × RunState σ :=
  let name := (orText s.barrierName none).getD s.id
  let (missing, world) := env.barrier st.world name
  match missing with
  | some uuts =>
    (⟨s.id, "barrier", .fail, "Barrier '" ++ name ++ "' timed out; missing UUTs: " ++ env.repr uuts, 1⟩,
      { st with world })
  | none => (⟨s.id, "barrier", .pass, "Barrier '" ++ name ++ "' reached by all UUTs", 1⟩, { st with world })

/-- A condition that cannot be evaluated counts as a hit. -/
def breakpointHit (s : YamlStep) : Bool :=
  match orText s.condition none with
  | some condition => (env.evalBreakpointCondition condition).getD true
  | none => true

def dispatchBreakpoint : StepOutcome × RunState σ :=
  if breakpointHit env s then
    match env.breakpointHook with
    | some hook =>
      (⟨s.id, "breakpoint", .pass, "Breakpoint '" ++ s.id ++ "' hit; suspended then resumed", 1⟩,
        { st with world := hook st.world s })
    | none =>
      (⟨s.id, "breakpoint", .pass, "Breakpoint '" ++ s.id ++
        "' hit; no interactive pause gate (headless/unattended) — pass-through", 1⟩, st)
  else (⟨s.id, "breakpoint", .pass, "Breakpoint '" ++ s.id ++ "' condition false; not suspended", 1⟩, st)

def dispatchStep : StepOutcome × RunState σ :=
  match s.type.getD .script with
  | .fixtureControl => dispatchFixture env planFixture s st
  | .barrier => dispatchBarrier env s st
  | .breakpoint => dispatchBreakpoint env s st
  | .loop => (⟨s.id, "loop", .pass, "Loop container (children dispatched separately)", 1⟩, st)
  | .action | .script => dispatchScript env s st
  | type =>
    (⟨s.id, type.value, .skip, "Unsupported step type '" ++ type.value ++ "' in this dispatcher", 1⟩, st)

def executeStep : List StepOutcome × RunState σ :=
  let (outcome, st') := dispatchStep env planFixture s st
  ([outcome], { st' with executions := st.executions ++ [⟨s, outcome⟩] })

/-! ## One scope -/

structure Entry (σ : Type) where
  id : String
  deps : List String
  blocked : StepOutcome
  isAbort : Bool
  execute : RunState σ → List StepOutcome × RunState σ

def Entry.isReady (completed : List String) (e : Entry σ) : Bool := e.deps.all (· ∈ completed)

def runWave : List (Entry σ) → List String → RunState σ → List StepOutcome × List String × RunState σ
  | [], completed, st => ([], completed, st)
  | e :: ready, completed, st =>
    if st.aborted then runWave ready completed st
    else
      let (outcomes, st) := e.execute st
      let (rest, completed, st) := runWave ready (completed ++ [e.id]) st
      (outcomes ++ rest, completed, st)

/-- The `while remaining` loop. The fuel is the number of items. -/
def runEntries : Nat → List (Entry σ) → List String → RunState σ → List StepOutcome × RunState σ
  | 0, _, _, st => ([], st)
  | fuel + 1, remaining, completed, st =>
    if remaining.isEmpty then ([], st)
    else if (remaining.filter (·.isReady completed)).isEmpty then
      (remaining.map (·.blocked), { st with aborted := st.aborted || remaining.any (·.isAbort) })
    else
      let (outcomes, completed', st) := runWave (remaining.filter (·.isReady completed)) completed st
      let (rest, st) := runEntries fuel (remaining.filter fun e => !e.isReady completed) completed' st
      (outcomes ++ rest, st)

def runScope (entries : List (Entry σ)) (st : RunState σ) : List StepOutcome × RunState σ :=
  runEntries entries.length entries [] st

def iterations (l : YamlLoop) : Nat := (l.count.getD 1).toNat

def inIteration (l : YamlLoop) (n : Nat) (oc : StepOutcome) : StepOutcome :=
  { oc with stepId := l.id ++ ".iter" ++ toString n ++ "." ++ oc.stepId }

def executeLoop (l : YamlLoop) (body : RunState σ → List StepOutcome × RunState σ) :
    List Nat → RunState σ → List StepOutcome × RunState σ
  | [], st => ([], st)
  | n :: ns, st =>
    if st.aborted then ([], st)
    else
      let (outcomes, st) := body st
      let (rest, st) := executeLoop l body ns st
      (outcomes.map (inIteration l n) ++ rest, st)

def blockedOutcome (item : Item) : StepOutcome :=
  ⟨item.id, itemType item, .blocked, "Unmet dependencies: " ++ env.repr (deps item), 1⟩

mutual
def entry : Item → Entry σ
  | .step s steps =>
    { id := s.id, deps := deps (.step s steps), blocked := blockedOutcome env (.step s steps)
      isAbort := isAbort (.step s steps)
      execute := executeStep env planFixture s }
  | .loop l steps =>
    { id := l.id, deps := deps (.loop l steps), blocked := blockedOutcome env (.loop l steps)
      isAbort := false
      execute := executeLoop l (runScope (entries steps)) (List.range (iterations l)) }
  | .raw v =>
    { id := "", deps := [], blocked := blockedOutcome env (.raw v), isAbort := false
      execute := fun st => ([], st) }

def entries : List Item → List (Entry σ)
  | [] => []
  | item :: items => entry item :: entries items
end

end

section

variable {σ : Type} (env : Env σ) (plan : YamlPlan) (world : σ)

def run : List StepOutcome := (runScope (entries env plan.fixtureId plan.steps) ⟨false, world, []⟩).1

def executions : List Execution :=
  (runScope (entries env plan.fixtureId plan.steps) ⟨false, world, []⟩).2.executions

end

end AteStudio.Dispatcher
