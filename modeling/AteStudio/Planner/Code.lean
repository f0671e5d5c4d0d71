import AteStudio.Lib.JsonText

/-!
# The flow planner (`services/flow_planner.py`)

Settling times and the comment lines at the head of the file are left out.
-/

namespace AteStudio.Planner

structure Python where
  -- `json.dumps(…, ensure_ascii=False)`. A document can be told from what follows it.
  dumps : Json.Text → List Char
  dumps_cut : ∀ t t' rest rest', dumps t ++ '|' :: rest = dumps t' ++ '|' :: rest' → t = t' ∧ rest = rest'
  isAlnum : Char → Bool
  isAlnum_digit : ∀ c : Char, c.isDigit = true → isAlnum c = true
  reprList : List String → String

theorem write_cut (F : Json.FloatFormat) {t t' : Json.Text} {rest rest' : List Char}
    (h : Json.write F t ++ '|' :: rest = Json.write F t' ++ '|' :: rest') : t = t' ∧ rest = rest' := by
  have hends : ∀ r : List Char, Json.Ends ('|' :: r) := fun r => Json.ends_cons (by decide) r
  have hread := Json.readValue_write F t ((Json.write F t).length + (Json.write F t').length) ('|' :: rest) (by omega)
    (hends rest)
  rw [h, Json.readValue_write F t' _ _ (by omega) (hends rest')] at hread
  simpa [eq_comm] using hread

def compactPython : Python where
  dumps := Json.write Json.fractionFormat
  dumps_cut _ _ _ _ := write_cut Json.fractionFormat
  isAlnum := Char.isAlphanum
  isAlnum_digit c h := by simp [Char.isAlphanum, h]
  reprList names := "[" ++ ", ".intercalate (names.map fun name => "'" ++ name ++ "'") ++ "]"

/-! ## The bundle -/

inductive Side where
  | input
  | output
deriving DecidableEq

def Side.value : Side → String
  | .input => "input"
  | .output => "output"

inductive ContractStatus where
  | approved
  | draft
deriving DecidableEq

def ContractStatus.value : ContractStatus → String
  | .approved => "approved"
  | .draft => "draft"

structure ClauseModel where
  kind : String
  text : String := ""
  value : Option (Dict String Json.Text) := none
  confidence : String := "rule"
  status : ContractStatus := .approved
  methodRef : String := ""
  kind_ne : kind ≠ "" := by decide

def voltageClause (text : String) : ClauseModel := { kind := "voltage", text }

structure ScenarioModel where
  scenarioId : String
  seq : Nat
  name : String := ""
  rail : String := ""
  bindings : Dict String String := ∅
  scenarioId_ne : scenarioId ≠ "" := by decide

structure RequirementModel where
  requirementCode : String
  title : String
  inputConditions : List ClauseModel := []
  outputConditions : List ClauseModel := []
  scenarios : List ScenarioModel := []
  requirementCode_ne : requirementCode ≠ "" := by decide
  title_ne : title ≠ "" := by decide
  seqs : (scenarios.map (·.seq)).Nodup := by decide
  scenarioIds : (scenarios.map (·.scenarioId)).Nodup := by decide

structure BundleModel where
  productCode : String
  docVersion : String := ""
  requirements : List RequirementModel := []
  productCode_ne : productCode ≠ "" := by decide

def BundleModel.pa601 (requirements : List RequirementModel) : BundleModel := { productCode := "PA601", requirements }

structure Binding where
  resource : List String := []
  action : String
  setupGroup : String := "default"
  destructive : Bool := false
  methodRef : String := ""
  unit : String := ""
  batchLevel : Bool := false

abbrev Bindings := Dict (String × Side) Binding

/-! ## The plan -/

structure StepParams where
  conditionKind : String
  conditionText : String
  value : Option (Dict String Json.Text)
  unit : String
  methodRef : String
  scenarioBindings : Dict String String
  rail : String

structure PlanStep where
  id : String
  action : String
  requirementCode : String
  scenarioSeq : Nat
  scenarioName : String
  resources : List String
  params : StepParams
  dependsOn : List String
  batchLevel : Bool
  destructive : Bool
  setupGroup : String
  methodRef : String
  -- Not in the source: the scenario that the step is for, and the loop that made it.
  model : RequirementModel
  scen : ScenarioModel
  side : Side

structure Segment where
  signature : String
  index : Nat
  steps : List PlanStep
  destructive : Bool
  -- `plan_flow` keeps no segment without steps.
  nonempty : steps ≠ []

structure Unmapped where
  requirementCode : String
  scenarioSeq : String
  scenarioName : String
  missing : String
deriving DecidableEq

structure Pending where
  requirementCode : String
  side : Side
  kind : String
  status : String
  confidence : String
  methodRef : String
  text : String
deriving DecidableEq

structure FlowPlan where
  productCode : String
  docVersion : String
  segments : List Segment
  unmapped : List Unmapped
  pending : List Pending
  warnings : List String

namespace FlowPlan

variable (plan : FlowPlan)

def stepCount : Nat := (plan.segments.map (·.steps.length)).sum

def destructiveSegmentCount : Nat := plan.segments.countP (·.destructive)

def emittedStepCount : Nat :=
  plan.stepCount + plan.destructiveSegmentCount + if plan.stepCount = 0 then 0 else 2

end FlowPlan

/-! ## Texts -/

def cut (text : String) (n : Nat) : String := .ofList (text.toList.take n)

def pad3 (n : Nat) : String :=
  .ofList (List.replicate (3 - (Nat.toDigits 10 n).length) '0' ++ Nat.toDigits 10 n)

example : pad3 7 = "007" ∧ pad3 1234 = "1234" := by decide

/-- The same document with the keys of every object in order. -/
def sortKeys : Json.Text → Json.Text
  | .array xs => .array (sortAll xs)
  | .object kvs => .object ((sortValues kvs).insertionSort fun a b => a.1 ≤ b.1)
  | t => t
where
  sortAll : List Json.Text → List Json.Text
    | [] => []
    | x :: xs => sortKeys x :: sortAll xs
  sortValues : List (String × Json.Text) → List (String × Json.Text)
    | [] => []
    | (k, v) :: kvs => (k, sortKeys v) :: sortValues kvs

def valueText : Option (Dict String Json.Text) → Json.Text
  | none => .null
  | some d => .object d.entries

def bindingsText (bindings : Dict String String) : Json.Text := .object (bindings.entries.map fun e => (e.1, .str e.2))

section Plan

variable (py : Python) (binds : Bindings)

/-- `json.dumps(…, sort_keys=True, ensure_ascii=False)` -/
def dumpsSorted (t : Json.Text) : String := .ofList (py.dumps (sortKeys t))

def condValue (clause : ClauseModel) : String :=
  match clause.value with
  | none => cut clause.text 24
  | some d => if d.entries = [] then cut clause.text 24 else dumpsSorted py (valueText (some d))

def slugKeep : List Char := ['-', '_', '.']

def slug (s : String) : String :=
  let out := String.ofList (s.toList.map fun ch => if py.isAlnum ch || slugKeep.contains ch then ch else '_')
  if out = "" then "x" else out

def setupSignature (model : RequirementModel) (scen : ScenarioModel) : String :=
  let rail := if scen.rail = "" then [] else ["rail=" ++ scen.rail]
  let bindings := (scen.bindings.entries.insertionSort fun a b => a.1 ≤ b.1).map fun e => e.1 ++ "=" ++ e.2
  let conditions := model.inputConditions.filterMap fun cl =>
    match binds.get? (cl.kind, .input) with
    | none => none
    | some b =>
      if b.setupGroup ∈ ["telemetry", "sequence"] then none else some (cl.kind ++ ":" ++ condValue py cl)
  "|".intercalate (rail ++ bindings ++ conditions)

/-! ## One scenario -/

/-- Setup-affecting kinds, in the order they must be applied. -/
def setupOrder : List String :=
  ["test_mode", "input_type", "input_voltage", "input_frequency", "power_factor", "load", "cap_load", "duty",
    "temperature", "measurement_setup", "power_event", "fault_stimulus"]

variable (includeDraft : Bool) (segIndex : Nat) (model : RequirementModel) (scen : ScenarioModel)

def included (clauses : List ClauseModel) : List ClauseModel :=
  clauses.filter fun cl => includeDraft || cl.status = .approved

def boundItems (side : Side) (clauses : List ClauseModel) : List (Binding × ClauseModel) :=
  (included includeDraft clauses).filterMap fun cl => (binds.get? (cl.kind, side)).map (·, cl)

def missingItems (side : Side) (clauses : List ClauseModel) : List String :=
  ((included includeDraft clauses).filter fun cl => (binds.get? (cl.kind, side)).isNone).map fun cl =>
    side.value ++ "/" ++ cl.kind

/-- The setup conditions, by the rank of their kind. A kind without rank comes last. -/
def setupItems : List (Binding × ClauseModel) :=
  (boundItems binds includeDraft .input model.inputConditions).insertionSort
    fun x y => setupOrder.idxOf x.2.kind ≤ setupOrder.idxOf y.2.kind

def measuredItems : List (Binding × ClauseModel) :=
  boundItems binds includeDraft .output model.outputConditions

def setupKey (b : Binding) (cl : ClauseModel) : String × String :=
  (b.action, dumpsSorted py (valueText cl.value) ++ "|" ++ dumpsSorted py (bindingsText scen.bindings) ++ "|" ++
    scen.rail)

structure Planning where
  steps : List PlanStep := []
  applied : List (String × String) := []
  kindSeq : Dict String Nat := ∅
  prevId : Option String := none

def dependsOnPrev : Option String → List String
  | none => []
  | some id => if id = "" then [] else [id]

def ordinal (clauses : List ClauseModel) (kind : String) (n : Nat) : String :=
  if 1 < clauses.countP (·.kind = kind) then "_" ++ toString (n + 1) else ""

def newStep (side : Side) (b : Binding) (cl : ClauseModel) (id : String) (prevId : Option String) : PlanStep where
  id
  action := b.action
  requirementCode := model.requirementCode
  scenarioSeq := scen.seq
  scenarioName := if scen.name = "" then model.title else scen.name
  resources := b.resource
  params :=
    { conditionKind := cl.kind
      conditionText := cut cl.text 200
      value := cl.value
      unit := b.unit
      methodRef := b.methodRef
      scenarioBindings := scen.bindings
      rail := scen.rail }
  dependsOn := dependsOnPrev prevId
  batchLevel := match side with | .input => b.batchLevel | .output => false
  destructive := b.destructive
  setupGroup := b.setupGroup
  methodRef := b.methodRef
  model
  scen
  side

/-- The two loops give their steps different ids: `mark` is `_` or `_m_`. -/
def appendStep (base mark : String) (clauses : List ClauseModel) (model : RequirementModel) (scen : ScenarioModel)
    (side : Side) (st : Planning) (item : Binding × ClauseModel) : Planning :=
  let n := st.kindSeq.getD item.2.kind 0
  let id := base ++ mark ++ slug py item.2.kind ++ ordinal clauses item.2.kind n
  { st with
    steps := st.steps ++ [newStep model scen side item.1 item.2 id st.prevId]
    kindSeq := st.kindSeq.set item.2.kind (n + 1)
    prevId := some id }

/-- A setup that was applied in the segment is skipped. Batch-level setups are never skipped. -/
def addSetup (base : String) (model : RequirementModel) (scen : ScenarioModel) (st : Planning)
    (item : Binding × ClauseModel) : Planning :=
  let key := setupKey py scen item.1 item.2
  if item.1.batchLevel then appendStep py base "_" model.inputConditions model scen .input st item
  else if key ∈ st.applied then st
  else appendStep py base "_" model.inputConditions model scen .input { st with applied := st.applied ++ [key] } item

def addMeasurement (base : String) (model : RequirementModel) (scen : ScenarioModel) (st : Planning)
    (item : Binding × ClauseModel) : Planning :=
  appendStep py base "_m_" model.outputConditions model scen .output st item

def stepBase (segIndex : Nat) : String :=
  slug py (model.requirementCode ++ "_s" ++ pad3 scen.seq ++ "_g" ++ pad3 segIndex)

def planScenario (prevId : Option String) (applied : List (String × String)) : Planning :=
  let base := stepBase py model scen segIndex
  let setup := (setupItems binds includeDraft model).foldl (addSetup py base model scen) { applied, prevId }
  (measuredItems binds includeDraft model).foldl (addMeasurement py base model scen) { setup with kindSeq := ∅ }

def missingOf : List String :=
  missingItems binds includeDraft .input model.inputConditions ++
    missingItems binds includeDraft .output model.outputConditions

/-! ## Segments -/

abbrev Bucket := List (RequirementModel × ScenarioModel)

structure SegmentState where
  steps : List PlanStep := []
  destructive : Bool := false
  prevId : Option String := none
  applied : List (String × String) := []

def addScenario (st : SegmentState) (item : RequirementModel × ScenarioModel) : SegmentState :=
  let planned := planScenario py binds includeDraft segIndex item.1 item.2 st.prevId st.applied
  if planned.steps = [] then { st with applied := planned.applied }
  else
    { steps := st.steps ++ planned.steps
      destructive := st.destructive || planned.steps.any (·.destructive)
      prevId := planned.steps.getLast?.map (·.id)
      applied := planned.applied }

def planBucket (items : Bucket) : SegmentState :=
  items.foldl (addScenario py binds includeDraft segIndex) {}

def unmappedOf (item : RequirementModel × ScenarioModel) : List Unmapped :=
  (missingOf binds includeDraft item.1).map fun missing =>
    { requirementCode := item.1.requirementCode
      scenarioSeq := toString item.2.seq
      scenarioName := if item.2.name = "" then item.1.title else item.2.name
      missing }

variable (bundle : BundleModel)

def scenariosOf : Bucket :=
  bundle.requirements.flatMap fun model => model.scenarios.map (model, ·)

/-- Scenarios by signature, in the order of their first ones. -/
def bucketsOf : Dict String Bucket :=
  (scenariosOf bundle).foldl (fun buckets item =>
    let sig := setupSignature py binds item.1 item.2
    buckets.set sig (buckets.getD sig [] ++ [item])) ∅

def sigIsDestructive (sig : String) : Bool :=
  binds.entries.any fun e =>
    e.2.destructive && e.1.2 = .input && decide ((e.1.1 ++ ":").toList <:+: sig.toList)

/-- Destructive signatures last, each half by its text. -/
def orderedBuckets : List (String × Bucket) :=
  (bucketsOf py binds bundle).entries.insertionSort fun a b =>
    (sigIsDestructive binds a.1 = false ∧ sigIsDestructive binds b.1 = true) ∨
      (sigIsDestructive binds a.1 = sigIsDestructive binds b.1 ∧ a.1 ≤ b.1)

/-- The number in the ids counts the segments before. A bucket without steps gives none. -/
def addSegment (segments : List Segment) (entry : (String × Bucket) × Nat) : List Segment :=
  let planned := planBucket py binds includeDraft segments.length entry.1.2
  if h : planned.steps = [] then segments
  else segments ++ [⟨entry.1.1, entry.2, planned.steps, planned.destructive, h⟩]

def plannedSegments : List Segment :=
  (orderedBuckets py binds bundle).zipIdx.foldl (addSegment py binds includeDraft) []

/-! ## Unique ids -/

structure Renaming where
  seen : Dict String Nat := ∅
  renames : Dict String String := ∅

def renameStep (r : Renaming) (st : PlanStep) : Renaming × PlanStep :=
  let n := r.seen.getD st.id 0
  let seen := r.seen.set st.id (n + 1)
  if n = 0 then ({ r with seen }, st)
  else
    let newId := st.id ++ "_d" ++ toString n
    (⟨seen, r.renames.set st.id newId⟩, { st with id := newId })

def renameSteps : Renaming → List PlanStep → Renaming × List PlanStep
  | r, [] => (r, [])
  | r, st :: rest =>
    let (r, st) := renameStep r st
    let (r, rest) := renameSteps r rest
    (r, st :: rest)

theorem renameSteps_ne_nil (r : Renaming) {steps : List PlanStep} (h : steps ≠ []) : (renameSteps r steps).2 ≠ [] := by
  cases steps with
  | nil => exact absurd rfl h
  | cons st rest => exact List.cons_ne_nil _ _

def renameSegments : Renaming → List Segment → Renaming × List Segment
  | r, [] => (r, [])
  | r, seg :: rest =>
    let renamed := renameSteps r seg.steps
    let others := renameSegments renamed.1 rest
    (others.1, { seg with steps := renamed.2, nonempty := renameSteps_ne_nil r seg.nonempty } :: others.2)

def Segment.mapSteps (f : PlanStep → PlanStep) (seg : Segment) : Segment :=
  { seg with steps := seg.steps.map f, nonempty := by simpa using seg.nonempty }

def redirectStep (renames : Dict String String) (st : PlanStep) : PlanStep :=
  { st with dependsOn := st.dependsOn.map fun d => renames.getD d d }

def disambiguateStepIds (segments : List Segment) (warnings : List String) : List Segment × List String :=
  let (r, segments) := renameSegments {} segments
  if r.renames.entries = [] then (segments, warnings)
  else
    let sample := (r.renames.keys.insertionSort (· ≤ ·)).take 3
    (segments.map (·.mapSteps (redirectStep r.renames)),
      warnings ++ [toString r.renames.entries.length ++ " 个步骤 id 仍发生冲突(已加序号兜底), 样例: " ++
        py.reprList sample ++ "。 请检查 id 构造规则 —— 兜底只保证唯一, 不保证 id 仍能读懂它测的是什么"])

/-! ## The whole plan -/

def collectPending : List Pending :=
  let ofSide (side : Side) (clauses : List ClauseModel) : List Pending :=
    (clauses.filter (·.status ≠ .approved)).map fun c =>
      ⟨model.requirementCode, side, c.kind, c.status.value, c.confidence, c.methodRef, cut c.text 120⟩
  ofSide .input model.inputConditions ++ ofSide .output model.outputConditions

def planWarnings (unmapped : List Unmapped) (pending : List Pending) (segments : List Segment) : List String :=
  (if unmapped = [] then [] else
    [toString unmapped.length ++ " 个场景的条件无绑定, 这些需求不会被测到 —— " ++
      "补 config/test_method_bindings.yaml 后重新规划"]) ++
  (if pending = [] then [] else
    [toString pending.length ++ " 条条件未经人审(status=draft), 已排除在执行序列之外。" ++
      " 按红线未批准的条件不得作为产测判据; 评审签字后重新规划即可纳入。"]) ++
  (if (segments.map (·.steps.length)).sum = 0 then ["计划为空 —— 没有任何条件排不出步骤, 禁止上机"] else [])

def planFlow : FlowPlan :=
  let planned := plannedSegments py binds includeDraft bundle
  let unmapped := (orderedBuckets py binds bundle).flatMap fun e => e.2.flatMap (unmappedOf binds includeDraft)
  let pending := if includeDraft then [] else bundle.requirements.flatMap collectPending
  let (segments, warnings) := disambiguateStepIds py planned (planWarnings unmapped pending planned)
  { productCode := bundle.productCode
    docVersion := bundle.docVersion
    segments
    unmapped
    pending
    warnings }

end Plan

/-! ## The emitted steps -/

inductive Emitted where
  | clamp
  | recovery (id : String) (dependsOn : List String)
  | planned (step : PlanStep) (dependsOn : List String)
  | release (dependsOn : List String)

namespace Emitted

def id : Emitted → String
  | clamp => "fixture_clamp"
  | recovery id _ => id
  | planned step _ => step.id
  | release _ => "fixture_release"

def dependsOn : Emitted → List String
  | clamp => []
  | recovery _ deps => deps
  | planned _ deps => deps
  | release deps => deps

/-- The clamp and the release are `fixture_control` steps and run no script. -/
def script? : Emitted → Option String
  | clamp => none
  | recovery .. => some "power_cycle.py"
  | planned step _ => some (step.action ++ ".py")
  | release _ => none

end Emitted

structure YamlState where
  steps : List Emitted
  lastId : Option String

def lastDeps : Option String → List String := dependsOnPrev

def emitStep (st : YamlState) (step : PlanStep) : YamlState where
  steps := st.steps ++ [.planned step (if step.dependsOn = [] then lastDeps st.lastId else step.dependsOn)]
  lastId := some step.id

def Segment.fenceId (seg : Segment) : String := "recover_before_" ++ (seg.steps.head seg.nonempty).id

/-- The fence before a destructive segment, unless nothing was written yet. -/
def emitFence (st : YamlState) (seg : Segment) : YamlState :=
  if seg.destructive ∧ lastDeps st.lastId ≠ [] then
    { steps := st.steps ++ [.recovery seg.fenceId (lastDeps st.lastId)], lastId := some seg.fenceId }
  else st

def emitSegment (st : YamlState) (seg : Segment) : YamlState := seg.steps.foldl emitStep (emitFence st seg)

def FlowPlan.toYaml (plan : FlowPlan) : List Emitted :=
  let st := plan.segments.foldl emitSegment ⟨[.clamp], none⟩
  st.steps ++ (if lastDeps st.lastId = [] then [] else [.release (lastDeps st.lastId)])

end AteStudio.Planner
