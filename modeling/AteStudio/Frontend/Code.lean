import AteStudio.Lib.Kahn
import AteStudio.Wire

/-!
# The sequence editor (`composables/useSerializer.ts`, `composables/useAutoLayout.ts`)

Numbers are rationals.
-/

namespace AteStudio.Frontend

/-! ## Sequences -/

structure YamlStep where
  id : String
  script : Option String := none
  params : Dict String PyVal := ∅
  preconditions : List String := []
  resources : Dict String PyVal := ∅
  timeout : Option ℚ := none
  onFail : Option String := none
  exportOutputs : Bool := false

structure YamlLoop where
  id : String
  loopType : String
  count : Option ℚ := none
  condition : Option String := none
  collection : Option String := none
  iteratorVar : Option String := none
  executionMode : Option String := none
  maxIterations : Option ℚ := none

inductive Entry where
  | step (s : YamlStep)
  | loop (l : YamlLoop) (steps : List Entry)

structure YamlSequence where
  name : String := "Untitled Sequence"
  version : String := "3.0"
  scopeVariables : Dict String PyVal := ∅
  maxConcurrency : ℚ := 4
  steps : List Entry := []

def Entry.id : Entry → String
  | .step s => s.id
  | .loop l _ => l.id

def Entry.step? : Entry → Option YamlStep
  | .step s => some s
  | .loop _ _ => none

def Entry.isLoop : Entry → Bool
  | .step _ => false
  | .loop _ _ => true

def someText (text : Option String) : Option String := text.filter (· ≠ "")

def someNumber (number : Option ℚ) : Option ℚ := number.filter (· ≠ 0)

/-! ## The canvas -/

structure ScriptStepData where
  stepId : String
  scriptName : String
  params : Dict String PyVal
  preconditions : List String
  resources : List String
  timeout : ℚ
  onFail : String
  exportOutputs : Bool

structure LoopContainerData where
  loopId : String
  loopType : LoopType
  condition : String
  iterationVar : Option String
  collectionExpr : Option String
  count : Option ℚ
  executionMode : ExecutionMode
  maxConcurrency : ℚ

inductive NodeData where
  | script (data : ScriptStepData)
  | loop (data : LoopContainerData)
  | scopeVariables (values : Dict String PyVal)

def NodeData.isLoop : NodeData → Bool
  | .loop _ => true
  | _ => false

structure NodeConfig where
  id : String
  x : ℚ
  y : ℚ
  data : NodeData

inductive EdgeStatus where
  | passed
  | failed
  | any
  | skipped
deriving DecidableEq, Repr

structure EdgeConfig where
  source : String
  target : String
  sourcePort : Option String := none
  targetPort : Option String := none
  status : Option EdgeStatus := some .passed

structure GraphData where
  nodes : List NodeConfig
  edges : List EdgeConfig

/-! ## Sorting -/

section Sorting

variable {α : Type} (id : α → String) (preconditions : α → List String)

def inDegrees (steps : List α) : String → Int :=
  steps.foldl (fun degree s => Function.update degree (id s) (preconditions s).length) fun _ => 0

/-- The ids taken from the queue, at most `fuel`. -/
def drain (steps : List α) : Nat → (String → Int) → List String → List String → List String
  | 0, _, _, done => done
  | _ + 1, _, [], done => done
  | fuel + 1, inDegree, current :: queue, done =>
    let waiting := (steps.filter fun s => current ∈ preconditions s).map id
    let relaxed := waiting.foldl Kahn.relax (inDegree, queue)
    drain steps fuel relaxed.1 relaxed.2 (done ++ [current])

def appendMissing (result steps : List α) : List α :=
  steps.foldl (fun result s => if result.any fun r => id r = id s then result else result ++ [s]) result

def sortBy (steps : List α) : List α :=
  let inDegree := inDegrees id preconditions steps
  let queue := (steps.map id).filter fun i => inDegree i = 0
  let done := drain id preconditions steps steps.length inDegree queue []
  let result := done.filterMap fun i => steps.reverse.find? fun s => id s = i
  if result.length < steps.length then appendMissing id result steps else result

end Sorting

def topologicalSortSteps (steps : List YamlStep) (preconditionMap : Dict String (List String)) : List YamlStep :=
  sortBy YamlStep.id (fun s => preconditionMap.getD s.id []) steps

def topologicalSort (steps : List Entry) (preconditionMap : Dict String (List String)) : List Entry :=
  sortBy Entry.id (fun e => if e.isLoop then [] else preconditionMap.getD e.id []) steps

/-! ## From a sequence to nodes and edges -/

def stepData (s : YamlStep) : ScriptStepData where
  stepId := s.id
  scriptName := s.script.getD ""
  params := s.params
  preconditions := s.preconditions
  resources := s.resources.keys
  timeout := ((someNumber s.timeout).map fun t => (⌈t * 1000⌉ : ℚ)).getD 60000
  onFail := (someText s.onFail).getD "stop"
  exportOutputs := s.exportOutputs

def fromDslLoopType (loopType : String) : LoopType := (LoopType.ofValue? loopType).getD .forLoop

def fromDslExecutionMode (mode : Option String) : ExecutionMode := if mode = some "PARALLEL" then .parallel else .serial

def containerData (l : YamlLoop) : LoopContainerData where
  loopId := l.id
  loopType := fromDslLoopType l.loopType
  condition := l.condition.getD ""
  iterationVar := someText l.iteratorVar
  collectionExpr := someText l.collection
  count := someNumber l.count
  executionMode := fromDslExecutionMode l.executionMode
  maxConcurrency := (someNumber l.maxIterations).getD 1

def stepNode (x y : ℚ) (s : YamlStep) : NodeConfig := ⟨s.id, x, y, .script (stepData s)⟩

def loopNode (x y : ℚ) (l : YamlLoop) : NodeConfig := ⟨l.id, x, y, .loop (containerData l)⟩

def preconditionEdges (s : YamlStep) : List EdgeConfig := s.preconditions.map fun p => { source := p, target := s.id }

def outputPort (id : String) : String := "output-" ++ id

def inputPort (id : String) : String := "input-" ++ id

def loopBackEdge (first last : YamlStep) : EdgeConfig where
  source := last.id
  target := first.id
  sourcePort := outputPort last.id
  targetPort := inputPort first.id

def loopBackEdges : List YamlStep → List EdgeConfig
  | first :: second :: rest => [loopBackEdge first ((second :: rest).getLast (List.cons_ne_nil _ _))]
  | _ => []

def childSteps (steps : List Entry) : List YamlStep := steps.filterMap Entry.step?

def addChildPreconditions (map : Dict String (List String)) (s : YamlStep) : Dict String (List String) :=
  if s.preconditions.isEmpty then map else map.set s.id s.preconditions

def childPreconditionMap (steps : List YamlStep) : Dict String (List String) := steps.foldl addChildPreconditions ∅

def sortedChildSteps (steps : List Entry) : List YamlStep :=
  topologicalSortSteps (childSteps steps) (childPreconditionMap (childSteps steps))

def childNodes (steps : List YamlStep) (offsetX offsetY : ℚ) : List NodeConfig :=
  steps.zipIdx.map fun (s, i) => stepNode (offsetX + 240 * i) offsetY s

def MAX_LOOP_DEPTH : Nat := 5

/-- Steps come first, sorted, and then the loops from a given `x` on. -/
def createChildNodesFromLoopSteps (steps : List Entry) (offsetX offsetY : ℚ) (depth : Nat)
    (loops : ℚ → Except String GraphData) : Except String GraphData :=
  if depth > MAX_LOOP_DEPTH then
    .error ("Loop nesting depth exceeds maximum (" ++ toString MAX_LOOP_DEPTH ++ "). Cannot nest loops deeper than " ++
      toString MAX_LOOP_DEPTH ++ " levels.")
  else do
    let sorted := sortedChildSteps steps
    let nested ← loops (offsetX + 240 * sorted.length)
    return ⟨childNodes sorted offsetX offsetY ++ nested.nodes,
      nested.edges ++ sorted.flatMap preconditionEdges ++ loopBackEdges sorted⟩

mutual

def createLoop : Entry → ℚ → ℚ → Nat → Except String GraphData
  | .step _, _, _, _ => return ⟨[], []⟩
  | .loop l steps, x, y, depth => do
    let nested ← if steps.isEmpty then .ok ⟨[], []⟩
      else createChildNodesFromLoopSteps steps (x + 20) (y + 40) (depth + 1) fun x =>
        createLoops steps x (y + 40) (depth + 1)
    return ⟨loopNode x y l :: nested.nodes, nested.edges⟩

def createLoops : List Entry → ℚ → ℚ → Nat → Except String GraphData
  | [], _, _, _ => return ⟨[], []⟩
  | e :: es, x, y, depth => do
    let first ← createLoop e x y depth
    let rest ← createLoops es (if e.isLoop then x + 280 else x) y depth
    return ⟨first.nodes ++ rest.nodes, first.edges ++ rest.edges⟩

end

/-- The layout moves what is at the origin, and what is in a loop stays. -/
def createEntry : Entry → Except String GraphData
  | .step s => return ⟨[stepNode 0 0 s], []⟩
  | .loop l steps => createLoop (.loop l steps) 0 0 0

def createEntries : List Entry → Except String GraphData
  | [] => return ⟨[], []⟩
  | e :: es => do
    let first ← createEntry e
    let rest ← createEntries es
    return ⟨first.nodes ++ rest.nodes, first.edges ++ rest.edges⟩

def connected (edges : List EdgeConfig) (source target : String) : Bool :=
  edges.any fun e => e.source = source ∧ e.target = target

def isOpen (current next : Entry) : Bool :=
  match current with
  | .loop _ _ => true
  | .step s => s.preconditions.isEmpty && !(next.step?.any fun t => s.id ∈ t.preconditions)

def addSequentialEdge (edges : List EdgeConfig) (current next : Entry) : List EdgeConfig :=
  if connected edges current.id next.id then edges
  else if isOpen current next then edges ++ [{ source := current.id, target := next.id }]
  else edges

def addSequentialEdges (edges : List EdgeConfig) : List Entry → List EdgeConfig
  | current :: next :: rest => addSequentialEdges (addSequentialEdge edges current next) (next :: rest)
  | _ => edges

def variableNodes (values : Dict String PyVal) : List NodeConfig :=
  if values.keys.isEmpty then [] else [⟨"variables-scope", 0, 0, .scopeVariables values⟩]

abbrev Placement : Type := String → ℚ × ℚ

def positionedNodeIds (nodes : List NodeConfig) : List String := (nodes.filter fun n => n.x ≠ 0 ∨ n.y ≠ 0).map (·.id)

def layoutNode (place : Placement) (nodes : List NodeConfig) (n : NodeConfig) : NodeConfig :=
  if n.id ∈ positionedNodeIds nodes then n else { n with x := (place n.id).1, y := (place n.id).2 }

def autoLayout (place : Placement) (data : GraphData) : GraphData :=
  { data with nodes := data.nodes.map (layoutNode place data.nodes) }

def yamlToGraphData (place : Placement) (sequence : YamlSequence) : Except String GraphData := do
  let created ← createEntries sequence.steps
  let edges := created.edges ++ (childSteps sequence.steps).flatMap preconditionEdges
  return autoLayout place
    ⟨created.nodes ++ variableNodes sequence.scopeVariables, addSequentialEdges edges sequence.steps⟩

/-! ## Import -/

/-- The children of a node are those that have it as their parent. -/
structure Node where
  id : String
  data : NodeData
  parent : Option String

structure Edge where
  source : String
  target : String
  sourcePort : String
  targetPort : String
  status : Option EdgeStatus

structure Graph where
  nodes : List Node
  edges : List Edge

def containerNodeIds (nodes : List NodeConfig) : List String := (nodes.filter (·.data.isLoop)).map (·.id)

def inBox (corner point : ℚ × ℚ) : Bool :=
  corner.1 ≤ point.1 ∧ point.1 ≤ corner.1 + 300 ∧ corner.2 ≤ point.2 ∧ point.2 ≤ corner.2 + 200

/-- `parentMap.get(id)`: the first container around a step. -/
def parentOf (nodes : List NodeConfig) (n : NodeConfig) : Option String :=
  if n.id ∈ containerNodeIds nodes then none
  else match n.data with
    | .scopeVariables _ => none
    | _ => (containerNodeIds nodes).find? fun c =>
      (nodes.find? fun m => m.id = c).any fun m => inBox (m.x, m.y) (n.x, n.y)

def addNode (nodes : List NodeConfig) (n : NodeConfig) : Node := ⟨n.id, n.data, parentOf nodes n⟩

def addEdge (e : EdgeConfig) : Edge where
  source := e.source
  target := e.target
  sourcePort := e.sourcePort.getD (outputPort e.source)
  targetPort := e.targetPort.getD (inputPort e.target)
  status := e.status

def importData (data : GraphData) : Graph :=
  let isFree (n : NodeConfig) : Bool := n.id ∈ containerNodeIds data.nodes ∧ (parentOf data.nodes n).isNone
  { nodes := (data.nodes.filter isFree ++ data.nodes.filter fun n => !isFree n).map (addNode data.nodes)
    edges := data.edges.map addEdge }

def importYamlToGraph (place : Placement) (sequence : YamlSequence) : Except String Graph :=
  (yamlToGraphData place sequence).map importData

/-! ## Export -/

variable (g : Graph)

def Graph.hasNode (id : String) : Bool := g.nodes.any (·.id = id)

def Graph.children (id : String) : List Node := g.nodes.filter (·.parent = some id)

def mentionsLoopBack (text : String) : Bool := "loop-back".toList <:+: text.toList

/-- An edge between two nodes, not at a `loop-back` port, with the right condition. -/
def isPrecondition (e : Edge) : Bool :=
  g.hasNode e.source && g.hasNode e.target && !(mentionsLoopBack e.sourcePort || mentionsLoopBack e.targetPort) &&
    (e.status = none ∨ e.status = some .passed ∨ e.status = some .any)

def addPrecondition (map : Dict String (List String)) (e : Edge) : Dict String (List String) :=
  if isPrecondition g e then
    let existing := map.getD e.target []
    if e.source ∈ existing then map else map.set e.target (existing ++ [e.source])
  else map

def buildPreconditionMap (edges : List Edge) : Dict String (List String) := edges.foldl (addPrecondition g) ∅

def textOr (text other : String) : String := if text = "" then other else text

def convertScriptStepToYaml (n : Node) (data : ScriptStepData) (preconditionMap : Dict String (List String)) :
    YamlStep where
  id := textOr data.stepId n.id
  script := data.scriptName
  params := data.params
  preconditions := preconditionMap.getD n.id []
  resources := .ofList (data.resources.map fun r => (r, .bool true))
  timeout := some (⌈(if data.timeout = 0 then 60000 else data.timeout) / 1000⌉ : ℚ)
  onFail := textOr data.onFail "stop"
  exportOutputs := data.exportOutputs

def loopEntry (n : Node) (data : LoopContainerData) : YamlLoop where
  id := textOr data.loopId n.id
  loopType := data.loopType.value
  count := data.count
  condition := someText data.condition
  collection := data.collectionExpr
  iteratorVar := data.iterationVar
  executionMode := if data.executionMode = .parallel then some "PARALLEL" else none
  maxIterations := if data.maxConcurrency > 1 then some data.maxConcurrency else none

def convertNode (convertLoop : Node → LoopContainerData → Option Entry) (preconditionMap : Dict String (List String))
    (n : Node) : Option (List Entry) :=
  match n.data with
  | .script data => some [.step (convertScriptStepToYaml n data preconditionMap)]
  | .loop data => (convertLoop n data).map fun e => [e]
  | .scopeVariables _ => some []

def internalEdges (container : String) : List Edge :=
  let childNodeIds := (g.children container).map (·.id)
  g.edges.filter fun e => e.source ∈ childNodeIds ∧ e.target ∈ childNodeIds

/-- At most `fuel` containers deep. A container that contains itself has no end. -/
def convertLoopContainerToYaml (g : Graph) : Nat → Node → LoopContainerData → Option Entry
  | 0, _, _ => none
  | fuel + 1, n, data => do
    let internalPreconditionMap := buildPreconditionMap g (internalEdges g n.id)
    let childSteps ← (g.children n.id).mapM
      (convertNode (convertLoopContainerToYaml g fuel) internalPreconditionMap)
    return .loop (loopEntry n data) (topologicalSort childSteps.flatten internalPreconditionMap)

def topLevelNodes : List Node := g.nodes.filter (·.parent.isNone)

def mergeVariables (values : Dict String PyVal) (n : Node) : Dict String PyVal :=
  match n.data with
  | .scopeVariables more => more.entries.foldl (fun d e => d.set e.1 e.2) values
  | _ => values

def graphToYaml : Option YamlSequence := do
  let preconditionMap := buildPreconditionMap g g.edges
  let steps ← (topLevelNodes g).mapM
    (convertNode (convertLoopContainerToYaml g g.nodes.length) preconditionMap)
  return {
    scopeVariables := (topLevelNodes g).foldl mergeVariables ∅
    steps := topologicalSort steps.flatten preconditionMap }

end AteStudio.Frontend
