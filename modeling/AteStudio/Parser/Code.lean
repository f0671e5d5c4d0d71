import AteStudio.Lib.Except
import AteStudio.Wire

/-!
# `YamlParser` (`dsl/parser.py`)

A plan as the parser builds it: the fields of `shared/dsl.py` are not checked, so they hold whatever the document has.
-/

namespace AteStudio.Parser

structure Python where
  upper : String → String
  lower : String → String
  -- `str` of a float, a list or a dictionary
  repr : PyVal → String
  upper_upper : ∀ s : String, s.toList.all Char.isUpper = true → upper s = s

theorem toUpper_of_isUpper {c : Char} (h : c.isUpper = true) : c.toUpper = c := by
  unfold Char.toUpper
  rw [Char.isUpper] at h
  rw [dif_neg]
  intro hlower
  simp [UInt32.le_iff_toNat_le] at h hlower
  omega

/-- Python on texts of ASCII letters. -/
def asciiPython : Python where
  upper s := String.ofList (s.toList.map Char.toUpper)
  lower s := String.ofList (s.toList.map Char.toLower)
  repr _ := ""
  upper_upper s h := by
    have hmap : s.toList.map Char.toUpper = s.toList.map id :=
      List.map_congr_left fun c hc => toUpper_of_isUpper (List.all_eq_true.mp h c hc)
    rw [hmap, List.map_id, String.ofList_toList]

def Python.str (py : Python) : PyVal → String
  | .none => "None"
  | .bool true => "True"
  | .bool false => "False"
  | .int i => toString i
  | .str s => s
  | v => py.repr v

inductive ParseError where
  | valueError (message : String)
  | typeError
  | attributeError

/-! ## Values -/

def truthy : PyVal → Bool
  | .none => false
  | .bool b => b
  | .int i => i ≠ 0
  | .float q => q ≠ 0
  | .str s => s ≠ ""
  | .list xs => !xs.isEmpty
  | .dict kvs => !kvs.isEmpty

def isList : PyVal → Bool
  | .list _ => true
  | _ => false

def isListed (data : PyVal) : Bool := isList (data.getD "steps" (.list []))

def isHashable : PyVal → Bool
  | .list _ => false
  | .dict _ => false
  | _ => true

def setKey (kvs : List (PyVal × PyVal)) (key value : PyVal) : List (PyVal × PyVal) :=
  if kvs.any (·.1.equals key) then kvs.map fun e => if e.1.equals key then (e.1, value) else e
  else kvs ++ [(key, value)]

def pairOf (i : Nat) (v : PyVal) : Except ParseError (PyVal × PyVal) :=
  match v.iter? with
  | some [key, value] => if isHashable key then .ok (key, value) else .error .typeError
  | some xs => .error (.valueError ("dictionary update sequence element #" ++ toString i ++ " has length " ++
      toString xs.length ++ "; 2 is required"))
  | none => .error .typeError

def toDict : PyVal → Except ParseError (List (PyVal × PyVal))
  | .dict kvs => .ok kvs
  | v =>
    match v.iter? with
    | some xs => do
      let pairs ← xs.zipIdx.mapM fun e => pairOf e.2 e.1
      return pairs.foldl (fun kvs e => setKey kvs e.1 e.2) []
    | none => .error .typeError

/-- A dictionary with the entries of its `steps`, when that is a list. -/
inductive Doc where
  | mk (data : PyVal) (steps : List Doc)

mutual

def Doc.ofPy : PyVal → Doc
  | .dict kvs => ⟨.dict kvs, Doc.stepsIn kvs⟩
  | v => ⟨v, []⟩

def Doc.stepsIn : List (PyVal × PyVal) → List Doc
  | [] => []
  | (key, value) :: kvs => if key.str? == some "steps" then Doc.entriesOf value else Doc.stepsIn kvs

def Doc.entriesOf : PyVal → List Doc
  | .list xs => Doc.ofPys xs
  | _ => []

def Doc.ofPys : List PyVal → List Doc
  | [] => []
  | x :: xs => Doc.ofPy x :: Doc.ofPys xs

end

/-! ## What is built -/

structure StepFields where
  id : PyVal
  type : Option StepType := none
  script : PyVal := .str ""
  params : PyVal := .dict []
  preconditions : PyVal := .list []
  dependsOn : PyVal := .list []
  resources : PyVal := .dict []
  timeout : PyVal := .int 60
  retry : PyVal := .int 0
  onFail : PyVal := .none
  onFailure : PyVal := .none
  uutAffinity : PyVal := .none
  barrierName : PyVal := .none
  action : PyVal := .none
  fixtureId : PyVal := .none
  exportOutputs : PyVal := .bool false
  skipIf : PyVal := .none
  skipReason : PyVal := .none
  condition : PyVal := .none

structure LoopFields where
  id : PyVal
  loopType : LoopType
  count : PyVal := .none
  condition : PyVal := .none
  collection : PyVal := .none
  iteratorVar : PyVal := .none
  executionMode : ExecutionMode := .serial
  maxIterations : PyVal := .int 1000
  skipIf : PyVal := .none
  skipReason : PyVal := .none
  dependsOn : PyVal := .list []

inductive Entry where
  | step (s : StepFields)
  | loop (l : LoopFields) (steps : List Entry)

structure Plan where
  name : PyVal
  version : PyVal
  scope : PyVal
  maxConcurrency : PyVal := .int 1
  uutCount : PyVal := .int 1
  fixtureId : PyVal := .none
  steps : List Entry := []

/-! ## Steps -/

section Fields

variable (py : Python) (data : PyVal)

def require (key message : String) : Except ParseError PyVal :=
  let value := data.getD key .none
  if truthy value then .ok value else .error (.valueError message)

def StepType.all : List StepType :=
  [.script, .action, .loop, .branch, .barrier, .fixtureControl, .call, .subsequence, .breakpoint]

def StepType.ofValue? (value : String) : Option StepType := StepType.all.find? fun type => type.value == value

def onFailureOf : PyVal := data.getD "on_failure" (data.getD "on_fail" .none)

def isScriptStep (type : Option StepType) : Bool :=
  type = none || type = some .script || type = some .action || type = some .call

def parseType (stepId type : PyVal) : Except ParseError (Option StepType) :=
  match type with
  | .none => .ok none
  | type =>
    match StepType.ofValue? (py.lower (py.str type)) with
    | some t => .ok (some t)
    | none => .error (.valueError ("Step '" ++ py.str stepId ++ "' has invalid type '" ++ py.str type ++
        "'. Must be one of: " ++ ", ".intercalate (StepType.all.map StepType.value)))

/-- A list of names becomes a dictionary of empty dictionaries. -/
def normalizeResources : PyVal → PyVal
  | .list names => .dict ((names.map py.str).eraseDups.map fun name => (.str name, .dict []))
  | .dict kvs => .dict kvs
  | _ => .dict []

def stepFields (id : PyVal) (type : Option StepType) (script : PyVal) : StepFields where
  id
  type
  script
  params := data.getD "params" (.dict [])
  preconditions := data.getD "preconditions" (.list [])
  dependsOn := data.getD "depends_on" (.list [])
  resources := normalizeResources py (data.getD "resources" (.dict []))
  timeout := data.getD "timeout" (.int 60)
  retry := data.getD "retry" (.int 0)
  onFail := data.getD "on_fail" .none
  onFailure := onFailureOf data
  uutAffinity := data.getD "uut_affinity" .none
  barrierName := data.getD "barrier_name" .none
  action := data.getD "action" .none
  fixtureId := data.getD "fixture_id" .none
  exportOutputs := data.getD "export_outputs" (.bool false)
  skipIf := data.getD "skip_if" .none
  skipReason := data.getD "skip_reason" .none

def parseScript (id : PyVal) (type : Option StepType) : Except ParseError PyVal :=
  if isScriptStep type then require data "script" ("Step '" ++ py.str id ++ "' missing required field: 'script'")
  else .ok (data.getD "script" (.str ""))

def parseStep : Except ParseError StepFields := do
  let id ← require data "id" "Step missing required field: 'id'"
  let type ← parseType py id (data.getD "type" .none)
  let script ← parseScript py data id type
  return stepFields py data id type script

/-- What a branch, a breakpoint and a subsequence have in common. -/
def specialStep (id : PyVal) (type : StepType) (params condition : PyVal) : StepFields where
  id
  type := some type
  script := data.getD "script" (.str "")
  params
  preconditions := data.getD "preconditions" (.list [])
  dependsOn := data.getD "depends_on" (.list [])
  resources := data.getD "resources" (.dict [])
  timeout := data.getD "timeout" (.int 60)
  retry := data.getD "retry" (.int 0)
  onFailure := onFailureOf data
  uutAffinity := data.getD "uut_affinity" .none
  skipIf := data.getD "skip_if" .none
  skipReason := data.getD "skip_reason" .none
  condition

def branchParams (params : List (PyVal × PyVal)) : PyVal :=
  let params := setKey params (.str "condition") (data.getD "condition" (.str "True"))
  let params := setKey params (.str "then") (data.getD "then" (.list []))
  .dict (setKey params (.str "else") (data.getD "else" (.list [])))

def parseBranch : Except ParseError StepFields := do
  let id ← require data "id" "Branch missing required field: 'id'"
  let params ← toDict (data.getD "params" (.dict []))
  return specialStep data id .branch (branchParams data params) .none

def parseBreakpoint : Except ParseError StepFields := do
  let id ← require data "id" "Breakpoint missing required field: 'id'"
  match data.getD "condition" .none with
  | .none => return specialStep data id .breakpoint (data.getD "params" (.dict [])) .none
  | .str condition => return specialStep data id .breakpoint (data.getD "params" (.dict [])) (.str condition)
  | _ => .error (.valueError ("Breakpoint '" ++ py.str id ++ "' field 'condition' must be a string expression"))

def subsequenceParams (params : List (PyVal × PyVal)) : PyVal :=
  .dict (setKey params (.str "steps") (data.getD "steps" (.list [])))

/-- The entries stay as they are, in the parameters. -/
def parseSubsequence : Except ParseError StepFields := do
  let id ← require data "id" "Subsequence missing required field: 'id'"
  let params ← toDict (data.getD "params" (.dict []))
  return specialStep data id .subsequence (subsequenceParams data params) .none

/-! ## Loops -/

/-- A string and a dictionary can be iterated too, but what they hold has no `get`. -/
def nestedSteps (stepsData : PyVal) (entries : Except ParseError (List Entry)) : Except ParseError (List Entry) :=
  match stepsData with
  | .list _ => entries
  | .str s => if s = "" then .ok [] else .error .attributeError
  | .dict kvs => if kvs.isEmpty then .ok [] else .error .attributeError
  | _ => .error .typeError

def parseExecutionMode (loopId mode : PyVal) : Except ParseError ExecutionMode :=
  match mode with
  | .str s =>
    match ExecutionMode.ofValue? (py.upper s) with
    | some mode => .ok mode
    | none => .error (.valueError ("Loop '" ++ py.str loopId ++ "' has invalid execution_mode '" ++ s ++
        "'. Must be one of: SERIAL, PARALLEL"))
  | _ => .error .attributeError

def parseLoopType (loopId loopType : PyVal) : Except ParseError LoopType :=
  match loopType with
  | .str s =>
    match LoopType.ofValue? (py.upper s) with
    | some type => .ok type
    | none => .error (.valueError ("Loop '" ++ py.str loopId ++ "' has invalid loop_type '" ++ s ++
        "'. Must be one of: FOR, WHILE, FOREACH"))
  | _ => .error .attributeError

def loopFields (id : PyVal) (loopType : LoopType) (executionMode : ExecutionMode) : LoopFields where
  id
  loopType
  count := data.getD "count" .none
  condition := data.getD "condition" .none
  collection := data.getD "collection" .none
  iteratorVar := data.getD "iterator_var" .none
  executionMode
  maxIterations := data.getD "max_iterations" (.int 1000)

variable (entries : Except ParseError (List Entry))

/-- A loop of the old form. Its `depends_on`, `skip_if` and `skip_reason` are not read. -/
def parseLoop : Except ParseError Entry := do
  let id ← require data "id" "Loop missing required field: 'id'"
  let loopType ← require data "loop_type" ("Loop '" ++ py.str id ++ "' missing required field: 'loop_type'")
  let loopType ← parseLoopType py id loopType
  let steps ← nestedSteps (data.getD "steps" (.list [])) entries
  let executionMode ← parseExecutionMode py id (data.getD "execution_mode" (.str "SERIAL"))
  return .loop (loopFields data id loopType executionMode) steps

def inferLoopType : LoopType :=
  if truthy (data.getD "condition" .none) then .whileLoop
  else if truthy (data.getD "collection" .none) || truthy (data.getD "iterator_var" .none) then .foreachLoop
  else .forLoop

def parseLoopV32 : Except ParseError Entry := do
  let id ← require data "id" "Loop missing required field: 'id'"
  let steps ← nestedSteps (data.getD "steps" (.list [])) entries
  let executionMode ← parseExecutionMode py id (data.getD "execution_mode" (.str "SERIAL"))
  return .loop { loopFields data id (inferLoopType data) executionMode with
    dependsOn := data.getD "depends_on" (.list []) } steps

/-! ## Plans -/

/-- `_parse_step_or_loop` of a dictionary, whose `steps` are parsed as `entries` -/
def parseDict : Except ParseError Entry :=
  let type := (data.getD "type" .none).str?
  if type = some "loop" then parseLoopV32 py data entries
  else if type = some "branch" then (parseBranch data).map .step
  else if type = some "breakpoint" then (parseBreakpoint py data).map .step
  else if type = some "subsequence" then (parseSubsequence data).map .step
  else if (data.get? "loop_type").isSome then parseLoop py data entries
  else (parseStep py data).map .step

end Fields

mutual

def parseStepOrLoop (py : Python) : Doc → Except ParseError Entry
  | ⟨.dict kvs, steps⟩ => parseDict py (.dict kvs) (parseAll py steps)
  | _ => .error .attributeError

def parseAll (py : Python) : List Doc → Except ParseError (List Entry)
  | [] => .ok []
  | doc :: docs => do
    let entry ← parseStepOrLoop py doc
    let entries ← parseAll py docs
    return entry :: entries

end

def parseScope : PyVal → Except ParseError PyVal
  | .str s => .ok (.dict [(.str "name", .str s)])
  | .dict kvs => .ok (.dict kvs)
  | _ => .error (.valueError "Scope must be a string or dictionary")

def parsePlan (py : Python) : Doc → Except ParseError Plan
  | ⟨.dict kvs, docs⟩ => do
    let data : PyVal := .dict kvs
    let name ← require data "name" "Missing required field: 'name'"
    let version ← require data "version" "Missing required field: 'version'"
    let scope ← require data "scope" "Missing required field: 'scope'"
    let scope ← parseScope scope
    let steps ← nestedSteps (data.getD "steps" (.list [])) (parseAll py docs)
    return {
      name
      version
      scope
      maxConcurrency := data.getD "max_concurrency" (.int 1)
      uutCount := data.getD "uut_count" (.int 1)
      fixtureId := data.getD "fixture_id" .none
      steps }
  | _ => .error (.valueError "YAML content must be a dictionary")

def parse (py : Python) (document : PyVal) : Except ParseError Plan := parsePlan py (.ofPy document)

/-! ## What is accepted -/

section Accepted

variable {py : Python} {data : PyVal} {entries : Except ParseError (List Entry)}

theorem require_ok {key message : String} {value : PyVal} (h : require data key message = .ok value) :
    value = data.getD key .none ∧ truthy value = true := by
  unfold require at h
  dsimp only at h
  split at h
  · next htrue =>
    cases h
    exact ⟨rfl, htrue⟩
  · cases h

theorem require_bind_ok {α : Type} {key message : String} {f : PyVal → Except ParseError α} {r : α}
    (h : require data key message >>= f = .ok r) :
    truthy (data.getD key .none) = true ∧ f (data.getD key .none) = .ok r := by
  obtain ⟨value, hvalue, h⟩ := bind_eq_ok.mp h
  obtain ⟨rfl, htrue⟩ := require_ok hvalue
  exact ⟨htrue, h⟩

theorem getD_of_truthy {key : String} (h : truthy (data.getD key .none) = true) (default : PyVal) :
    data.getD key default = data.getD key .none := by
  unfold PyVal.getD at h ⊢
  cases hkey : data.get? key with
  | none =>
    rw [hkey] at h
    cases h
  | some v => rfl

theorem parseType_none_iff {id type : PyVal} {t : Option StepType} (h : parseType py id type = .ok t) :
    t = none ↔ type = .none := by
  unfold parseType at h
  split at h
  · cases h
    exact ⟨fun _ => rfl, fun _ => rfl⟩
  · next hne =>
    split at h <;> cases h
    exact ⟨fun hn => (nomatch hn), fun hn => absurd hn hne⟩

variable {s : StepFields}

theorem parseStep_ok (h : parseStep py data = .ok s) :
    ∃ type, parseType py (data.getD "id" .none) (data.getD "type" .none) = .ok type ∧
      truthy (data.getD "id" .none) = true ∧
      (isScriptStep type = true → truthy (data.getD "script" .none) = true) ∧
      s = stepFields py data (data.getD "id" .none) type (data.getD "script" (.str "")) := by
  obtain ⟨hid, h⟩ := require_bind_ok h
  obtain ⟨type, htype, h⟩ := bind_eq_ok.mp h
  obtain ⟨script, hscript, h⟩ := bind_eq_ok.mp h
  refine ⟨type, htype, hid, ?_⟩
  unfold parseScript at hscript
  split at hscript
  · next hkind =>
    obtain ⟨rfl, hscriptTrue⟩ := require_ok hscript
    rw [getD_of_truthy hscriptTrue (.str "")]
    exact ⟨fun _ => hscriptTrue, (pure_eq_ok.mp h).symm⟩
  · next hkind =>
    cases hscript
    exact ⟨fun hn => absurd hn hkind, (pure_eq_ok.mp h).symm⟩

theorem params_ok {message : String} {f : PyVal → List (PyVal × PyVal) → StepFields}
    (h : (do
      let id ← require data "id" message
      let params ← toDict (data.getD "params" (.dict []))
      return f id params) = .ok s) :
    ∃ params, toDict (data.getD "params" (.dict [])) = .ok params ∧ truthy (data.getD "id" .none) = true ∧
      s = f (data.getD "id" .none) params := by
  obtain ⟨hid, h⟩ := require_bind_ok h
  obtain ⟨params, hparams, h⟩ := bind_eq_ok.mp h
  exact ⟨params, hparams, hid, (pure_eq_ok.mp h).symm⟩

theorem parseBreakpoint_ok (h : parseBreakpoint py data = .ok s) :
    truthy (data.getD "id" .none) = true ∧
      (data.getD "condition" .none = .none ∨ ∃ text, data.getD "condition" .none = .str text) ∧
      s = specialStep data (data.getD "id" .none) .breakpoint (data.getD "params" (.dict []))
        (data.getD "condition" .none) := by
  obtain ⟨hid, h⟩ := require_bind_ok h
  refine ⟨hid, ?_⟩
  split at h
  · next hcondition =>
    rw [hcondition]
    exact ⟨.inl rfl, (pure_eq_ok.mp h).symm⟩
  · next text hcondition =>
    rw [hcondition]
    exact ⟨.inr ⟨text, rfl⟩, (pure_eq_ok.mp h).symm⟩
  · cases h

theorem map_step_ok {x : Except ParseError StepFields} {e : Entry} (h : x.map .step = .ok e) :
    ∃ s, x = .ok s ∧ e = .step s := by
  cases x with
  | error err => cases h
  | ok s => exact ⟨s, rfl, (Except.ok.inj h).symm⟩

theorem parseLoopType_ok {id v : PyVal} {type : LoopType} (h : parseLoopType py id v = .ok type) :
    ∃ s, v = .str s ∧ LoopType.ofValue? (py.upper s) = some type := by
  unfold parseLoopType at h
  split at h
  · next s =>
    split at h <;> cases h
    next htype => exact ⟨s, rfl, htype⟩
  · cases h

theorem parseExecutionMode_ok {id v : PyVal} {mode : ExecutionMode} (h : parseExecutionMode py id v = .ok mode) :
    ∃ s, v = .str s ∧ ExecutionMode.ofValue? (py.upper s) = some mode := by
  unfold parseExecutionMode at h
  split at h
  · next s =>
    split at h <;> cases h
    next hmode => exact ⟨s, rfl, hmode⟩
  · cases h

theorem nestedSteps_ok {v : PyVal} {es : List Entry} (h : nestedSteps v entries = .ok es) :
    isList v = true ∧ entries = .ok es ∨ isList v = false ∧ es = [] := by
  unfold nestedSteps at h
  split at h
  · exact .inl ⟨rfl, h⟩
  · split at h <;> cases h
    exact .inr ⟨rfl, rfl⟩
  · split at h <;> cases h
    exact .inr ⟨rfl, rfl⟩
  · cases h

theorem parseLoop_ok {e : Entry} (h : parseLoop py data entries = .ok e) :
    ∃ loopType steps mode, parseLoopType py (data.getD "id" .none) (data.getD "loop_type" .none) = .ok loopType ∧
      nestedSteps (data.getD "steps" (.list [])) entries = .ok steps ∧
      parseExecutionMode py (data.getD "id" .none) (data.getD "execution_mode" (.str "SERIAL")) = .ok mode ∧
      truthy (data.getD "id" .none) = true ∧ truthy (data.getD "loop_type" .none) = true ∧
      e = .loop (loopFields data (data.getD "id" .none) loopType mode) steps := by
  obtain ⟨hid, h⟩ := require_bind_ok h
  obtain ⟨hkey, h⟩ := require_bind_ok h
  obtain ⟨loopType, htype, h⟩ := bind_eq_ok.mp h
  obtain ⟨steps, hsteps, h⟩ := bind_eq_ok.mp h
  obtain ⟨mode, hmode, h⟩ := bind_eq_ok.mp h
  exact ⟨loopType, steps, mode, htype, hsteps, hmode, hid, hkey, (pure_eq_ok.mp h).symm⟩

theorem parseLoopV32_ok {e : Entry} (h : parseLoopV32 py data entries = .ok e) :
    ∃ steps mode, nestedSteps (data.getD "steps" (.list [])) entries = .ok steps ∧
      parseExecutionMode py (data.getD "id" .none) (data.getD "execution_mode" (.str "SERIAL")) = .ok mode ∧
      truthy (data.getD "id" .none) = true ∧
      e = .loop { loopFields data (data.getD "id" .none) (inferLoopType data) mode with
        dependsOn := data.getD "depends_on" (.list []) } steps := by
  obtain ⟨hid, h⟩ := require_bind_ok h
  obtain ⟨steps, hsteps, h⟩ := bind_eq_ok.mp h
  obtain ⟨mode, hmode, h⟩ := bind_eq_ok.mp h
  exact ⟨steps, mode, hsteps, hmode, hid, (pure_eq_ok.mp h).symm⟩

theorem parsePlan_ok {docs : List Doc} {p : Plan} (h : parsePlan py ⟨data, docs⟩ = .ok p) :
    ∃ scope steps, parseScope (data.getD "scope" .none) = .ok scope ∧
      nestedSteps (data.getD "steps" (.list [])) (parseAll py docs) = .ok steps ∧
      (∀ key ∈ ["name", "version", "scope"], truthy (data.getD key .none) = true) ∧
      p = { name := data.getD "name" .none, version := data.getD "version" .none, scope, steps
            maxConcurrency := data.getD "max_concurrency" (.int 1), uutCount := data.getD "uut_count" (.int 1)
            fixtureId := data.getD "fixture_id" .none } := by
  cases data with
  | dict kvs =>
    unfold parsePlan at h
    obtain ⟨hname, h⟩ := require_bind_ok h
    obtain ⟨hversion, h⟩ := require_bind_ok h
    obtain ⟨hkey, h⟩ := require_bind_ok h
    obtain ⟨scope, hscope, h⟩ := bind_eq_ok.mp h
    obtain ⟨steps, hsteps, h⟩ := bind_eq_ok.mp h
    refine ⟨scope, steps, hscope, hsteps, ?_, (pure_eq_ok.mp h).symm⟩
    simp [hname, hversion, hkey]
  | _ => cases h

end Accepted

end AteStudio.Parser
