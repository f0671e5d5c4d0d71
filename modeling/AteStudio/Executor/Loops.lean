import AteStudio.Dsl
import AteStudio.Lib.Trace
import AteStudio.Registry
import AteStudio.Scheduler.Variables

/-!
# The loop executor (`executor/loop_executor.py`)

A state also keeps what was executed, evaluated and resolved, in order.
-/

namespace AteStudio.Executor

open Json (Obj)
open Trace

structure StepResult where
  status : StepStatus
  outputs : Dict String Obj := ∅
  error : Option String := none

structure ExecuteTask where
  scriptPath : String
  params : Dict String PyVal
  stepId : String
  timeout : Option Int
  runId : Option String

structure LoopIterationResult where
  iteration : Nat
  status : StepStatus
  outputs : Dict String Obj := ∅
  error : Option String := none

structure LoopResult where
  loopId : String
  loopType : String
  totalIterations : Nat := 0
  passed : Nat := 0
  failed : Nat := 0
  iterationResults : List LoopIterationResult := []
  status : StepStatus := .passed
  error : Option String := none

/-- A batch gives one result for each task, in order. -/
structure StepExecutor (σ : Type) where
  executeAsync : σ → ExecuteTask → Except String StepResult × σ
  executeBatch : σ → List ExecuteTask → Option Int → Except String (List StepResult) × σ
  length_batch : ∀ w tasks maxConcurrency results w',
    executeBatch w tasks maxConcurrency = (.ok results, w') → results.length = tasks.length

/-- What a loop executor is built with, and the functions of Python it calls. -/
structure Platform (σ : Type) where
  executor : StepExecutor σ
  breakpointHook : Option (σ → YamlStep → Except String Unit × σ)
  str : Obj → String
  -- `bool(eval(text))` and `eval(text)`. Nothing when it raises.
  evalBool : String → Option Bool
  eval : String → Option Obj

inductive Event where
  | executed (task : ExecuteTask) (status : StepStatus)
  | evaluated (loopId : String) (value : Bool)
  | resolved (loopId : String) (length : Option Nat)

structure State (σ : Type) where
  world : σ
  vars : VariableSpace
  events : List Event

abbrev LoopM (σ : Type) := EStateM String (State σ)

variable {σ : Type}

/-! ## Expressions -/

inductive Scan where
  | text
  | dollar
  | name (read : List Char)

def isWordChar (c : Char) : Bool := c.isAlphanum || c = '_'

/-- `[a-zA-Z_][a-zA-Z0-9_]*(\.[a-zA-Z0-9_]+)*` -/
def isVariableName (name : List Char) : Bool :=
  (name.splitOn '.').all (fun part => part ≠ [] && part.all isWordChar) && !name.head?.any Char.isDigit

namespace Scan

def held : Scan → List Char
  | text => []
  | dollar => ['$']
  | name read => '$' :: '\x7b' :: read.reverse

def restart (s : Scan) (c : Char) : List Char × Scan :=
  if c = '$' then (s.held, dollar) else (s.held ++ [c], text)

def next (value : List Char → Option (List Char)) (s : Scan) (c : Char) : List Char × Scan :=
  match s with
  | text => s.restart c
  | dollar => if c = '\x7b' then ([], name []) else s.restart c
  | name read =>
    if c = '\x7d' then
      if isVariableName read.reverse then ((value read.reverse).getD (s.held ++ [c]), text) else s.restart c
    else if isWordChar c || c = '.' then ([], name (c :: read))
    else s.restart c

def run (value : List Char → Option (List Char)) : Scan → List Char → List Char
  | s, [] => s.held
  | s, c :: rest => (s.next value c).1 ++ run value (s.next value c).2 rest

end Scan

variable (p : Platform σ) (vars : VariableSpace) (expression : String)

def getVariable (name : String) : Option Obj :=
  match (VariablePath.parse? name).bind vars.lookup with
  | some .none => none
  | value => value

def resolve : String :=
  String.ofList <| Scan.text.run (fun name => (getVariable vars (String.ofList name)).map fun v => (p.str v).toList)
    expression.toList

def items? : Obj → Option (List Obj)
  | .list xs => some xs
  | .tuple xs => some xs
  | _ => none

def unbraced? (expression : List Char) : Option (List Char) :=
  match expression with
  | '$' :: '\x7b' :: rest => if rest.getLast? = some '\x7d' then some rest.dropLast else none
  | _ => none

def resolveCollection : Option (List Obj) :=
  let resolved := resolve p vars expression
  let evaluated := if resolved ≠ expression then (p.eval resolved).bind items? else none
  evaluated.or <| ((getVariable vars expression).bind items?).or <|
    (unbraced? expression.toList).bind fun name => (getVariable vars (String.ofList name)).bind items?

def evaluateConditionExpr : Bool :=
  (p.evalBool (resolve p vars expression)).getD false

def orDefault (text : Option String) (default : String) : String :=
  match text with
  | some "" => default
  | some t => t
  | none => default

/-! ## The effects of a loop -/

def emit (events : List Event) : LoopM σ Unit := modify fun st => { st with events := st.events ++ events }

def onWorld {α : Type} (f : σ → Except String α × σ) : LoopM σ α := fun st =>
  match f st.world with
  | (.ok a, w) => .ok a { st with world := w }
  | (.error e, w) => .error e { st with world := w }

def setVariable (name : String) (value : Obj) : LoopM σ Unit := fun st =>
  match st.vars.set? name value with
  | some vars => .ok () { st with vars }
  | none => .error ("Invalid variable name '" ++ name ++ "'. Must be '<scope>.<name>'") st

def setLoopVariable (loopId : String) (iteration : Nat) (key : String) (value : Obj) : LoopM σ Unit :=
  setVariable ("loop." ++ loopId ++ "." ++ toString iteration ++ "." ++ key) value

def setOutputs (loopId : String) (iteration : Nat) : List (String × Obj) → LoopM σ Unit
  | [] => pure ()
  | (key, value) :: rest => do
    setLoopVariable loopId iteration key value
    setOutputs loopId iteration rest

def handleBreakpoint (s : YamlStep) : LoopM σ Unit := do
  let vars := (← get).vars
  let skips := match s.condition with
    | some condition => condition ≠ "" && !evaluateConditionExpr p vars condition
    | none => false
  if skips then pure ()
  else
    match p.breakpointHook with
    | some hook => onWorld (hook · s)
    | none => pure ()

/-! ## The results -/

def isFailure (status : StepStatus) : Bool := status = .failed || status = .error

def buildLoopResult (l : YamlLoop) (results : List LoopIterationResult) : LoopResult where
  loopId := l.id
  loopType := l.loopType.value
  totalIterations := results.length
  passed := results.countP (·.status = .passed)
  failed := results.countP (isFailure ·.status)
  iterationResults := results
  status := if results.all (·.status = .passed) then .passed else .failed

def errorResult (l : YamlLoop) (error : String) : LoopResult where
  loopId := l.id
  loopType := l.loopType.value
  status := .error
  error := some error

/-- The verdict over the steps of an iteration, with the outputs up to the first failure. -/
abbrev Verdict := StepStatus × Option String × Dict String Obj

def mergeOutputs (outputs more : Dict String Obj) : Dict String Obj :=
  more.entries.foldl (fun d e => d.set e.1 e.2) outputs

def judge : List StepResult → Dict String Obj → Verdict
  | [], outputs => (.passed, none, outputs)
  | r :: rest, outputs =>
    if isFailure r.status then (r.status, r.error, outputs) else judge rest (mergeOutputs outputs r.outputs)

/-! ## The iterations -/

def buildTask (l : YamlLoop) (iteration : Nat) (runId : Option String) (s : YamlStep) : ExecuteTask where
  scriptPath := s.script
  params := s.params
  stepId := l.id ++ "_iter" ++ toString iteration ++ "_" ++ s.id
  timeout := if s.timeout = 0 then none else some s.timeout
  runId := runId

def buildIterationTasks (l : YamlLoop) (iteration : Nat) (runId : Option String) : List Item → List ExecuteTask
  | [] => []
  | .step s _ :: rest =>
    if s.type = some .breakpoint then buildIterationTasks l iteration runId rest
    else buildTask l iteration runId s :: buildIterationTasks l iteration runId rest
  | .loop _ _ :: rest => buildIterationTasks l iteration runId rest
  | .raw _ :: rest => buildIterationTasks l iteration runId rest

def executeSingleIteration (body : Nat → LoopM σ Verdict) (iteration : Nat) : LoopM σ LoopIterationResult := do
  let (status, error, outputs) ← body iteration
  pure { iteration, status, outputs, error }

def serialResults (body : Nat → LoopM σ Verdict) (l : YamlLoop) (iterationVar : String) :
    Nat → List Obj → LoopM σ (List LoopIterationResult)
  | _, [] => pure []
  | i, value :: values => do
    setLoopVariable l.id i iterationVar value
    let r ← executeSingleIteration body i
    if isFailure r.status then pure [r]
    else
      let rs ← serialResults body l iterationVar (i + 1) values
      pure (r :: rs)

def executeIterationsSerial (body : Nat → LoopM σ Verdict) (l : YamlLoop) (iterationVar : String) (values : List Obj) :
    LoopM σ LoopResult := do
  let results ← serialResults body l iterationVar 0 values
  pure (buildLoopResult l results)

def setIterationVariables (l : YamlLoop) (iterationVar : String) : Nat → List Obj → LoopM σ Unit
  | _, [] => pure ()
  | i, value :: values => do
    setLoopVariable l.id i iterationVar value
    setIterationVariables l iterationVar (i + 1) values

def executeBatch (tasks : List ExecuteTask) (maxConcurrency : Option Int) :
    LoopM σ (List StepResult) := do
  let results ← onWorld (p.executor.executeBatch · tasks maxConcurrency)
  emit ((tasks.zip results).map fun e => .executed e.1 e.2.status)
  pure results

/-- The results by iteration: `owners` has the iteration of each task. -/
def batchResults (l : YamlLoop) (owned : List (Nat × StepResult)) : List Nat → LoopM σ (List LoopIterationResult)
  | [] => pure []
  | i :: rest => do
    let (status, error, outputs) := judge ((owned.filter (·.1 = i)).map Prod.snd) ∅
    setOutputs l.id i outputs.entries
    let rs ← batchResults l owned rest
    pure ({ iteration := i, status, outputs, error } :: rs)

def executeIterationsParallel (runId : Option String) (l : YamlLoop) (steps : List Item)
    (iterationVar : String) (values : List Obj) : LoopM σ LoopResult := do
  setIterationVariables l iterationVar 0 values
  let iterations := List.range values.length
  let tasks := iterations.map fun i => buildIterationTasks l i runId steps
  if tasks.flatten.isEmpty then pure (buildLoopResult l (iterations.map fun i => { iteration := i, status := .passed }))
  else
    let taskToIteration := iterations.flatMap fun i => (buildIterationTasks l i runId steps).map fun _ => i
    let maxConcurrency := if l.maxIterations ≠ 0 && l.maxIterations < 1000 then some l.maxIterations else none
    let stepResults ← executeBatch p tasks.flatten maxConcurrency
    let results ← batchResults l (taskToIteration.zip stepResults) iterations
    pure (buildLoopResult l results)

/-! ## The loops -/

variable (runId : Option String) (l : YamlLoop) (steps : List Item) (body : Nat → LoopM σ Verdict)

def isParallel : Bool := l.executionMode = .parallel

def executeIterations (iterationVar : String) (values : List Obj) : LoopM σ LoopResult :=
  if isParallel l then executeIterationsParallel p runId l steps iterationVar values
  else executeIterationsSerial body l iterationVar values

def forCount : Nat := (l.count.getD 0).toNat

def executeForLoop : LoopM σ LoopResult :=
  let values := (List.range (forCount l)).map fun i : Nat => Obj.int i
  executeIterations p runId l steps body (orDefault l.iteratorVar "i") values

def executeForeachLoop : LoopM σ LoopResult := do
  let expression := l.collection.getD ""
  let collection := resolveCollection p (← get).vars expression
  emit [.resolved l.id (collection.map List.length)]
  match collection with
  | none => pure (errorResult l ("Collection '" ++ expression ++ "' resolved to None or not found"))
  | some values => executeIterations p runId l steps body (orDefault l.iteratorVar "item") values

def whileLimit : Nat := (if l.maxIterations = 0 then 1000 else l.maxIterations).toNat

def whileResults (p : Platform σ) (body : Nat → LoopM σ Verdict) (l : YamlLoop) :
    Nat → Nat → LoopM σ (List LoopIterationResult)
  | 0, _ => pure []
  | left + 1, i => do
    let value := evaluateConditionExpr p (← get).vars (orDefault l.condition "False")
    emit [.evaluated l.id value]
    if !value then pure []
    else
      let r ← executeSingleIteration body i
      if isFailure r.status then pure [r]
      else
        let rs ← whileResults p body l left (i + 1)
        pure (r :: rs)

def executeWhileLoop (l : YamlLoop) : LoopM σ LoopResult := do
  let results ← whileResults p body l (whileLimit l) 0
  pure (buildLoopResult l results)

/-- `execute_loop`, where `body` runs the steps of one iteration. -/
def executeLoopWith : LoopM σ LoopResult := do
  let result ← tryCatch
    (match l.loopType with
      | .forLoop => executeForLoop p runId l steps body
      | .whileLoop => executeWhileLoop p body l
      | .foreachLoop => executeForeachLoop p runId l steps body)
    fun e => pure (errorResult l e)
  setVariable ("loop." ++ l.id ++ ".result") (.object "LoopResult")
  pure result

def executeAsync (task : ExecuteTask) : LoopM σ StepResult := do
  let result ← onWorld (p.executor.executeAsync · task)
  emit [.executed task result.status]
  pure result

mutual
/-- One entry of the body. The verdict is `passed` when the iteration goes on. -/
def executeItem (p : Platform σ) (runId : Option String) (l : YamlLoop) (iteration : Nat) :
    Item → Dict String Obj → LoopM σ Verdict
  | .step s _, outputs =>
    if s.type = some .breakpoint then do
      handleBreakpoint p s
      pure (.passed, none, outputs)
    else do
      let result ← executeAsync p (buildTask l iteration runId s)
      setOutputs l.id iteration result.outputs.entries
      if isFailure result.status then pure (result.status, result.error, outputs)
      else pure (.passed, none, mergeOutputs outputs result.outputs)
  | .loop nested steps, outputs => do
    let result ← executeLoopWith p runId nested steps fun i => executeSteps p runId nested i steps ∅
    if isFailure result.status then pure (result.status, result.error, outputs)
    else pure (.passed, none, outputs)
  | .raw _, outputs => pure (.passed, none, outputs)

def executeSteps (p : Platform σ) (runId : Option String) (l : YamlLoop) (iteration : Nat) :
    List Item → Dict String Obj → LoopM σ Verdict
  | [], outputs => pure (.passed, none, outputs)
  | item :: rest, outputs => do
    let (status, error, outputs) ← executeItem p runId l iteration item outputs
    if isFailure status then pure (status, error, outputs)
    else executeSteps p runId l iteration rest outputs
end

def executeLoop : LoopM σ LoopResult :=
  executeLoopWith p runId l steps fun i => executeSteps p runId l i steps ∅

end AteStudio.Executor
