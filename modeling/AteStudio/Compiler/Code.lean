import AteStudio.Dsl
import AteStudio.Lib.Kahn

/-!
# `SequenceCompiler` (`scheduler/compiler.py`)

Pass A assigns the expanded ids and fills three tables, pass B emits the nodes and looks
references up in them, and Kahn's algorithm rejects a cyclic result.
-/

namespace AteStudio.Compiler

/-- One `(container_id, iteration)` pair for each enclosing loop or subsequence. -/
abbrev Frames := List (String × Option Nat)

structure CompiledStep where
  id : String
  type : StepType
  script : String := ""
  params : Dict String PyVal := ∅
  dependsOn : List String := []
  uutAffinity : Option String := none
  timeout : Int := 60
  retry : Int := 0
  onFailure : Option String := none
  barrierName : Option String := none
  action : Option String := none
  fixtureId : Option String := none
  thenIds : List String := []
  elseIds : List String := []
  condition : PyVal := .none
  sourceStepId : String := ""
  iteration : Option Nat := none
  exportOutputs : Bool := false

structure IteratorBinding where
  stepId : String
  placeholder : String
  source : String
  iteration : Option Nat
deriving DecidableEq, Repr

/-- The first two are `ValueError`s: an unknown target and duplicate ids. -/
inductive CompileError where
  | unknownTarget (target : String)
  | duplicateIds (ids : List String)
  | circularDependency (cyclic : List String)
  | keyError (key : String)
  | typeError
  | attributeError
deriving DecidableEq, Repr

def CompileError.isValueError : CompileError → Bool
  | .unknownTarget _ | .duplicateIds _ => true
  | _ => false

structure Tables where
  frameChildren : Dict Frames (Dict String String) := ∅
  leafExpansions : Dict String (List String) := ∅
  terminal : Dict String String := ∅
  iteratorBindings : List IteratorBinding := []

/-! ## Helpers -/

/-- `loop.loop_type == LoopType.FOR and loop.count`. -/
def expands (l : YamlLoop) : Bool := l.loopType = .forLoop ∧ l.count.getD 0 ≠ 0

def iterations (l : YamlLoop) : Nat := (l.count.getD 0).toNat

def isSubsequence (s : YamlStep) : Bool := s.type = some .subsequence

def iterSuffix (n : Nat) : String := "_iter" ++ toString n

def innermostIteration (frames : Frames) : Option Nat := frames.reverse.findSome? Prod.snd

def isIdentStart (c : Char) : Bool := c.isAlpha || c = '_'

def isIdentChar (c : Char) : Bool := c.isAlpha || c.isDigit || c = '_' || c = '.'

/-- The matches of `_PLACEHOLDER_PATTERN`, left to right. The fuel is the length of the text. -/
def findPlaceholders : Nat → List Char → List String
  | fuel + 1, '$' :: '\x7b' :: c :: rest =>
    match isIdentStart c, rest.dropWhile isIdentChar with
    | true, '\x7d' :: after =>
      String.ofList ('$' :: '\x7b' :: c :: rest.takeWhile isIdentChar ++ ['\x7d']) ::
        findPlaceholders fuel after
    | _, _ => findPlaceholders fuel ('\x7b' :: c :: rest)
  | fuel + 1, _ :: rest => findPlaceholders fuel rest
  | _, _ => []

def paramPlaceholders (params : Dict String PyVal) : List String :=
  params.values.flatMap fun
    | .str s => findPlaceholders s.length s.toList
    | _ => []

mutual
def walkItem : Item → List String
  | .step s _ => paramPlaceholders s.params
  | .loop _ steps => walk steps
  | .raw _ => []

def walk : List Item → List String
  | [] => []
  | item :: items => walkItem item ++ walk items
end

def collectPlaceholders (items : List Item) : List String := (walk items).dedup.insertionSort (· ≤ ·)

/-! ## Pass A -/

def assignLeaf (st : Tables) (pre suf : String) (mapping : Dict String String) (id : String) :
    Tables × Dict String String :=
  let expanded := pre ++ id ++ suf
  ({ st with leafExpansions := st.leafExpansions.set id (st.leafExpansions.getD id [] ++ [expanded]) },
    mapping.set id expanded)

def setTerminal (st : Tables) (id : String) : Option String → Tables
  | some last => { st with terminal := st.terminal.set id last }
  | none => st

def setFrame (st : Tables) (frames : Frames) (mapping : Dict String String) : Tables :=
  { st with frameChildren := st.frameChildren.set frames mapping }

def bindIndex (st : Tables) (l : YamlLoop) (n : Nat) (mapping : Dict String String) : Tables :=
  match l.iteratorVar with
  | some v =>
    if v = "" then st
    else { st with iteratorBindings := st.iteratorBindings ++ mapping.values.map fun expanded =>
      ⟨expanded, "$\x7b" ++ v ++ "\x7d", "index", some n⟩ }
  | none => st

def bindCollection (st : Tables) (l : YamlLoop) (steps : List Item) (expanded : String) : Tables :=
  if l.loopType = .foreachLoop then
    { st with iteratorBindings := st.iteratorBindings ++ (collectPlaceholders steps).map fun p =>
      ⟨expanded, p, l.collection.getD "", none⟩ }
  else st

mutual
/-- The tables, the mapping of the parent scope and the last id assigned beneath the item. -/
def assignItem (pre suf : String) (frames : Frames) :
    Item → Tables × Dict String String → Tables × Dict String String × Option String
  | .step s steps, (st, mapping) =>
    if isSubsequence s then
      let inner := frames ++ [(s.id, none)]
      let (st, m, last) := assignItems (pre ++ s.id ++ ".") suf inner steps (st, ∅, none)
      (setTerminal (setFrame st inner m) s.id last, mapping, last)
    else
      let (st, mapping) := assignLeaf st pre suf mapping s.id
      (st, mapping, some (pre ++ s.id ++ suf))
  | .loop l steps, (st, mapping) =>
    if expands l then
      let (st, last) := (List.range (iterations l)).foldl
        (fun (acc : Tables × Option String) n =>
          let inner := frames ++ [(l.id, some n)]
          let (st, m, last) := assignItems pre (suf ++ iterSuffix n) inner steps (acc.1, ∅, acc.2)
          (bindIndex (setFrame st inner m) l n m, last))
        (st, none)
      -- The container itself reports no last id, also when its body has one.
      (setTerminal st l.id last, mapping, none)
    else
      let (st, mapping) := assignLeaf st pre suf mapping l.id
      let expanded := pre ++ l.id ++ suf
      (bindCollection st l steps expanded, mapping, some expanded)
  | .raw _, (st, mapping) => (st, mapping, none)

def assignItems (pre suf : String) (frames : Frames) :
    List Item → Tables × Dict String String × Option String → Tables × Dict String String × Option String
  | [], acc => acc
  | item :: items, (st, mapping, last) =>
    let (st, mapping, assigned) := assignItem pre suf frames item (st, mapping)
    assignItems pre suf frames items (st, mapping, assigned.or last)
end

def assignPlan (items : List Item) : Tables :=
  let (st, mapping, _) := assignItems "" "" [] items ({}, ∅, none)
  setFrame st [] mapping

/-! ## References -/

section Lookup

variable (st : Tables) (frames : Frames)

def scopeLookup (target : String) : Option String :=
  (List.range (frames.length + 1)).reverse.findSome? fun i =>
    (st.frameChildren.get? (frames.take i)).bind (·.get? target)

/-- A scope, a container's terminal, or the last expansion of a leaf anywhere. -/
def lookupTarget (target : String) : Option String :=
  (scopeLookup st frames target).or <|
    (st.terminal.get? target).or ((st.leafExpansions.getD target []).getLast?)

def resolveTarget (target : String) : Except CompileError String :=
  match lookupTarget st frames target with
  | some expanded => .ok expanded
  | none => .error (.unknownTarget target)

def resolveTargets (targets : List String) : Except CompileError (List String) :=
  targets.mapM (resolveTarget st frames)

/-- A branch's `then` or `else`. Entries that are no strings are ignored. -/
def resolveReferenceList (references : PyVal) : Except CompileError (List String) :=
  match references.iter? with
  | some refs => resolveTargets st frames (refs.filterMap PyVal.str?)
  | none => .error .typeError

/-! ## Pass B -/

end Lookup

def orElse (a b : List String) : List String := if a = [] then b else a

def withoutBranchKeys (params : Dict String PyVal) : Dict String PyVal :=
  ((params.erase "condition").erase "then").erase "else"

def emitStep (st : Tables) (pre suf : String) (frames : Frames) (inherited : List String)
    (s : YamlStep) : Except CompileError CompiledStep := do
  let dependsOn ← resolveTargets st frames (orElse s.dependsOn inherited)
  let node : CompiledStep := {
    id := pre ++ s.id ++ suf
    type := s.type.getD .script
    script := s.script
    params := s.params
    dependsOn
    uutAffinity := s.uutAffinity
    timeout := s.timeout
    retry := s.retry
    onFailure := s.onFailure.or s.onFail
    barrierName := s.barrierName
    action := s.action
    fixtureId := s.fixtureId
    condition := if s.type = some .breakpoint then .ofOption s.condition else .none
    sourceStepId := s.id
    iteration := innermostIteration frames
    exportOutputs := s.exportOutputs }
  if s.type = some .branch then
    let thenIds ← resolveReferenceList st frames (s.params.getD "then" (.list []))
    let elseIds ← resolveReferenceList st frames (s.params.getD "else" (.list []))
    return { node with
      params := withoutBranchKeys s.params
      condition := s.params.getD "condition" .none
      thenIds
      elseIds }
  else return node

def deferredParams (l : YamlLoop) : Dict String PyVal :=
  let add (d : Dict String PyVal) (key : String) : Option PyVal → Dict String PyVal
    | some v => d.set key v
    | none => d
  let d := add ∅ "count" (l.count.map .int)
  let d := add d "collection" (l.collection.map .str)
  let d := add d "iterator_var" (l.iteratorVar.map .str)
  let d := add d "max_iterations" (some (.int l.maxIterations))
  add d "execution_mode" (some (.str l.executionMode.value))

def emitDeferred (st : Tables) (pre suf : String) (frames : Frames) (inherited : List String)
    (l : YamlLoop) : Except CompileError CompiledStep := do
  let dependsOn ← resolveTargets st frames (orElse l.dependsOn inherited)
  return {
    id := pre ++ l.id ++ suf
    type := .loop
    params := deferredParams l
    dependsOn
    condition := .ofOption l.condition
    sourceStepId := l.id
    iteration := innermostIteration frames }

mutual
def emitItem (st : Tables) (pre suf : String) (frames : Frames) (inherited : List String) :
    Item → Except CompileError (List CompiledStep)
  | .step s steps =>
    if isSubsequence s then do
      let containerDeps ← resolveTargets st frames s.dependsOn
      emitItems st (pre ++ s.id ++ ".") suf (frames ++ [(s.id, none)]) containerDeps steps
    else do
      let node ← emitStep st pre suf frames inherited s
      return [node]
  | .loop l steps =>
    if expands l then do
      let containerDeps ← resolveTargets st frames l.dependsOn
      let parts ← (List.range (iterations l)).mapM fun n =>
        emitItems st pre (suf ++ iterSuffix n) (frames ++ [(l.id, some n)]) containerDeps steps
      return parts.flatten
    else do
      let node ← emitDeferred st pre suf frames inherited l
      return [node]
  | .raw _ => .ok []

def emitItems (st : Tables) (pre suf : String) (frames : Frames) (inherited : List String) :
    List Item → Except CompileError (List CompiledStep)
  | [] => .ok []
  | item :: items => do
    let nodes ← emitItem st pre suf frames inherited item
    let rest ← emitItems st pre suf frames inherited items
    return nodes ++ rest
end

/-! ## Validation -/

def depEdges (nodes : List CompiledStep) : List (String × String) :=
  nodes.flatMap fun node => node.dependsOn.map fun dep => (dep, node.id)

def checkCycles (nodes : List CompiledStep) : Except CompileError Unit :=
  let ids := nodes.map (·.id)
  if ids.Nodup then
    -- `dependents[dep]` is a plain dict lookup.
    match (depEdges nodes).find? fun e => e.1 ∉ ids with
    | some e => .error (.keyError e.1)
    | none =>
      let edges := depEdges nodes
      let ready := (ids.filter fun id => Kahn.indegree edges id = 0).insertionSort (· ≤ ·)
      let (indegree, resolved) := Kahn.run edges ids ready
      if resolved.length ≠ ids.length then
        .error (.circularDependency ((ids.filter fun id => 0 < indegree id).insertionSort (· ≤ ·)))
      else .ok ()
  else .error (.duplicateIds ((ids.dedup.filter fun id => 1 < ids.count id).insertionSort (· ≤ ·)))

/-! ## `compile` -/

mutual
def reachesRaw : Item → Bool
  | .step s steps => isSubsequence s && anyReachesRaw steps
  | .loop l steps => expands l && 0 < iterations l && anyReachesRaw steps
  | .raw _ => true

def anyReachesRaw : List Item → Bool
  | [] => false
  | item :: items => reachesRaw item || anyReachesRaw items
end

/-- Both passes. Pass A raises nothing but the `AttributeError` of a raw entry. -/
def expand (plan : YamlPlan) : Except CompileError (List CompiledStep) :=
  if anyReachesRaw plan.steps then .error .attributeError
  else emitItems (assignPlan plan.steps) "" "" [] [] plan.steps

def compile (plan : YamlPlan) : Except CompileError (List CompiledStep) := do
  let nodes ← expand plan
  checkCycles nodes
  return nodes

end AteStudio.Compiler
