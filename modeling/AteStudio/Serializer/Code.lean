import AteStudio.Value

/-!
# The plan serializer (`serialization/plan_serializer.py`)

A sequence graph is written as a tree of step and loop dictionaries with `depends_on` lists, and
read back. `none` stands for an exception, and for an id or a dependency that is no string.
-/

namespace AteStudio.Serializer

structure GraphNode where
  id : String
  data : Dict String PyVal
  parent : Option String := none

structure GraphEdge where
  source : String
  target : String
  data : Dict String PyVal := ∅

structure SequenceGraph where
  nodes : List GraphNode := []
  edges : List GraphEdge := []

/-! ## Node to dictionary -/

def stepDefaultOmit : Dict String PyVal where
  entries := [
    ("params", .dict []),
    ("preconditions", .list []),
    ("resources", .dict []),
    ("retry", .int 0),
    ("on_fail", .none),
    ("export_outputs", .bool false),
    ("skip_if", .none),
    ("skip_reason", .none)]
  nodup := by decide

def stepOptional : List String :=
  ["params", "resources", "timeout", "retry", "on_fail", "export_outputs", "skip_if", "skip_reason"]

def loopOptional : List String :=
  ["count", "condition", "collection", "iterator_var", "execution_mode", "max_iterations", "skip_if",
    "skip_reason"]

def depMap (edges : List GraphEdge) : Dict String (List String) :=
  edges.foldl (fun deps e => deps.set e.target (deps.getD e.target [] ++ [e.source])) ∅

def addOptional (keys : List String) (keep : String → Option PyVal) (result : Dict String PyVal) :
    Dict String PyVal :=
  keys.foldl (fun result key =>
    match keep key with
    | some val => result.set key val
    | none => result) result

def stepKeep (data : Dict String PyVal) (key : String) : Option PyVal :=
  match data.getD key .none with
  | .none => none
  | val => if val.equals (stepDefaultOmit.getD key .none) then none else some val

def loopKeep (data : Dict String PyVal) (key : String) : Option PyVal :=
  match data.getD key .none with
  | .none => none
  | val => some val

def stringList (xs : List String) : PyVal := .list (xs.map .str)

def stepToYaml (node : GraphNode) (dependsOn : List String) : Dict String PyVal :=
  addOptional stepOptional (stepKeep node.data)
    (((∅ : Dict String PyVal).set "id" (node.data.getD "id" (.str node.id))
      |>.set "script" (node.data.getD "script" (.str "")))
      |>.set "depends_on" (stringList dependsOn))

def loopHead (node : GraphNode) (dependsOn : List String) : Dict String PyVal :=
  addOptional loopOptional (loopKeep node.data)
    (((∅ : Dict String PyVal).set "id" (node.data.getD "id" (.str node.id))
      |>.set "loop_type" (node.data.getD "loop_type" (.str "FOR")))
      |>.set "depends_on" (stringList dependsOn))

def childNodes (graph : SequenceGraph) (id : String) : List GraphNode :=
  graph.nodes.filter fun n => n.parent = some id

def childDepMap (graph : SequenceGraph) (children : List GraphNode) : Dict String (List String) :=
  depMap (graph.edges.filter fun e => e.source ∈ children.map GraphNode.id ∧ e.target ∈ children.map GraphNode.id)

def loopToYaml (nodeToYaml : GraphNode → Dict String (List String) → Option PyVal) (graph : SequenceGraph)
    (node : GraphNode) (dependsOn : List String) : Option PyVal :=
  let children := childNodes graph node.id
  if children.isEmpty then
    some (loopHead node dependsOn).toPy
  else do
    let nested ← children.mapM fun child => nodeToYaml child (childDepMap graph children)
    return ((loopHead node dependsOn).set "steps" (.list nested)).toPy

/-- A node below itself recurses for ever in the source, and runs out of `fuel` here. -/
def nodeToYaml (graph : SequenceGraph) : Nat → GraphNode → Dict String (List String) → Option PyVal
  | 0, _, _ => none
  | fuel + 1, node, deps =>
    let dependsOn := (deps.getD node.id []).insertionSort (· ≤ ·)
    if node.data.contains "loop_type" then
      loopToYaml (nodeToYaml graph fuel) graph node dependsOn
    else
      some (stepToYaml node dependsOn).toPy

def serializePlan (graph : SequenceGraph) (name : String := "Untitled Sequence") (version : String := "3.0") :
    Option PyVal := do
  let topLevel := graph.nodes.filter fun n => n.parent = none
  let steps ← topLevel.mapM fun node => nodeToYaml graph graph.nodes.length node (depMap graph.edges)
  return .dict [(.str "name", .str name), (.str "version", .str version), (.str "steps", .list steps)]

/-! ## Dictionary to node -/

def stepFields : List (String × PyVal) := [
  ("id", .str ""),
  ("script", .str ""),
  ("params", .dict []),
  ("resources", .dict []),
  ("timeout", .int 60),
  ("retry", .int 0),
  ("on_fail", .none),
  ("export_outputs", .bool false),
  ("skip_if", .none),
  ("skip_reason", .none)]

def loopFields : List (String × PyVal) := [
  ("id", .str ""),
  ("loop_type", .str "FOR"),
  ("count", .none),
  ("condition", .none),
  ("collection", .none),
  ("iterator_var", .none),
  ("execution_mode", .str "SERIAL"),
  ("max_iterations", .int 1000),
  ("skip_if", .none),
  ("skip_reason", .none)]

def readFields (fields : List (String × PyVal)) (stepData : PyVal) (h : (fields.map Prod.fst).Nodup) :
    Dict String PyVal :=
  ⟨fields.map fun f => (f.1, stepData.getD f.1 f.2), by simpa [Function.comp_def] using h⟩

def yamlToStepData (stepData : PyVal) : Dict String PyVal := readFields stepFields stepData (by decide)

def yamlToLoopData (stepData : PyVal) : Dict String PyVal := readFields loopFields stepData (by decide)

def yamlToEntry (stepData : PyVal) (parent : Option String) : Option (GraphNode × List GraphEdge) := do
  let stepId ← (stepData.getD "id" (.str "")).str?
  let data := if (stepData.get? "loop_type").isSome then yamlToLoopData stepData else yamlToStepData stepData
  let dependsOn ← (stepData.getD "depends_on" (.list [])).iter?
  let sources ← dependsOn.mapM PyVal.str?
  return (⟨stepId, data, parent⟩, sources.map fun dep => { source := dep, target := stepId })

mutual

def yamlToNode : PyVal → Option String → Option (List GraphNode × List GraphEdge)
  | .dict kvs, parent => do
    let (node, edges) ← yamlToEntry (.dict kvs) parent
    if ((PyVal.dict kvs).get? "loop_type").isSome then
      let (nodes', edges') ← nestedSteps kvs (some node.id)
      return (node :: nodes', edges ++ edges')
    else
      return ([node], edges)
  | _, _ => none

def nestedSteps : List (PyVal × PyVal) → Option String → Option (List GraphNode × List GraphEdge)
  | [], _ => some ([], [])
  | (key, value) :: kvs, parent =>
    if key.str? == some "steps" then yamlSteps value parent else nestedSteps kvs parent

/-- A string or a dictionary can be iterated too, but what it holds has no `get`. -/
def yamlSteps : PyVal → Option String → Option (List GraphNode × List GraphEdge)
  | .list entries, parent => yamlToNodes entries parent
  | .str s, _ => if s = "" then some ([], []) else none
  | .dict kvs, _ => if kvs.isEmpty then some ([], []) else none
  | _, _ => none

def yamlToNodes : List PyVal → Option String → Option (List GraphNode × List GraphEdge)
  | [], _ => some ([], [])
  | entry :: entries, parent => do
    let (nodes, edges) ← yamlToNode entry parent
    let (nodes', edges') ← yamlToNodes entries parent
    return (nodes ++ nodes', edges ++ edges')

end

def deserializePlan : PyVal → Option SequenceGraph
  | .dict kvs => do
    let (nodes, edges) ← nestedSteps kvs none
    return { nodes, edges }
  | _ => none

end AteStudio.Serializer
