import AteStudio.Dsl
import AteStudio.Lib.Json

/-!
# A plan on the wire (`scheduler/jetstream_worker.py`)

The plan is sent as JSON and built again by the worker. `none` stands for an exception, and for a field of a type that
`shared/dsl.py` does not declare.
-/

namespace AteStudio

open Json (Obj)

/-! ## JSON -/

namespace PyVal

def toObj : PyVal → Obj
  | .none => .none
  | .bool b => .bool b
  | .int i => .int i
  | .float q => .float q
  | .str s => .str s
  | .list xs => .list (toObjs xs)
  | .dict kvs => .dict (toObjEntries kvs)
where
  toObjs : List PyVal → List Obj
    | [] => []
    | x :: xs => x.toObj :: toObjs xs
  toObjEntries : List (PyVal × PyVal) → List (Obj × Obj)
    | [] => []
    | (k, v) :: kvs => (k.toObj, v.toObj) :: toObjEntries kvs

def ofObj? : Obj → Option PyVal
  | .none => some .none
  | .bool b => some (.bool b)
  | .int i => some (.int i)
  | .float q => some (.float q)
  | .str s => some (.str s)
  | .list xs => (ofObjs? xs).map .list
  | .dict kvs => (ofObjEntries? kvs).map .dict
  | .tuple _ => Option.none
  | .object _ => Option.none
where
  ofObjs? : List Obj → Option (List PyVal)
    | [] => some []
    | x :: xs => do
      let v ← ofObj? x
      let vs ← ofObjs? xs
      return v :: vs
  ofObjEntries? : List (Obj × Obj) → Option (List (PyVal × PyVal))
    | [] => some []
    | (k, v) :: kvs => do
      let key ← ofObj? k
      let val ← ofObj? v
      let rest ← ofObjEntries? kvs
      return (key, val) :: rest

/-- Whether JSON can represent the value: every key is a text. -/
def isJson (v : PyVal) : Bool := v.toObj.plain

/-- `json.loads(json.dumps(v))` -/
def jsonImage (reprFloat : Rat → String) (v : PyVal) : Option PyVal := (Json.image reprFloat v.toObj).bind ofObj?

mutual

theorem ofObj?_toObj : ∀ v : PyVal, ofObj? v.toObj = some v
  | .none | .bool _ | .int _ | .float _ | .str _ => rfl
  | .list xs => by rw [toObj, ofObj?, ofObjs?_toObjs xs, Option.map_some]
  | .dict kvs => by rw [toObj, ofObj?, ofObjEntries?_toObjEntries kvs, Option.map_some]

theorem ofObjs?_toObjs : ∀ xs : List PyVal, ofObj?.ofObjs? (toObj.toObjs xs) = some xs
  | [] => rfl
  | x :: xs => by simp [toObj.toObjs, ofObj?.ofObjs?, ofObj?_toObj x, ofObjs?_toObjs xs]

theorem ofObjEntries?_toObjEntries : ∀ kvs : List (PyVal × PyVal),
    ofObj?.ofObjEntries? (toObj.toObjEntries kvs) = some kvs
  | [] => rfl
  | (k, v) :: kvs => by
    simp [toObj.toObjEntries, ofObj?.ofObjEntries?, ofObj?_toObj k, ofObj?_toObj v, ofObjEntries?_toObjEntries kvs]

end

theorem jsonImage_eq_self {reprFloat : Rat → String} {v : PyVal} (h : v.isJson = true) :
    v.jsonImage reprFloat = some v := by
  rw [jsonImage, Json.image_eq_self h, Option.bind_some, ofObj?_toObj]

/-! ## Fields -/

def ofInt : Option Int → PyVal
  | some i => .int i
  | Option.none => .none

def ofStrs (xs : List String) : PyVal := .list (xs.map .str)

def reqStr? : Option PyVal → Option String
  | some (.str s) => some s
  | _ => Option.none

def optStr? : Option PyVal → Option (Option String)
  | some (.str s) => some (some s)
  | some .none | Option.none => some Option.none
  | _ => Option.none

def optInt? : Option PyVal → Option (Option Int)
  | some (.int i) => some (some i)
  | some .none | Option.none => some Option.none
  | _ => Option.none

def intOr (default : Int) : Option PyVal → Option Int
  | some (.int i) => some i
  | Option.none => some default
  | _ => Option.none

def boolOr (default : Bool) : Option PyVal → Option Bool
  | some (.bool b) => some b
  | Option.none => some default
  | _ => Option.none

def strsOr : Option PyVal → Option (List String)
  | some (.list xs) => xs.mapM str?
  | Option.none => some []
  | _ => Option.none

def strEntries? : List (PyVal × PyVal) → Option (List (String × PyVal))
  | [] => some []
  | (k, v) :: kvs => do
    let key ← k.str?
    let rest ← strEntries? kvs
    return (key, v) :: rest

def dictOr : Option PyVal → Option (Dict String PyVal)
  | some (.dict kvs) => (strEntries? kvs).map Dict.ofList
  | Option.none => some ∅
  | _ => Option.none

@[simp] theorem reqStr?_str (s : String) : reqStr? (some (.str s)) = some s := rfl

@[simp] theorem optStr?_ofOption (s : Option String) : optStr? (some (ofOption s)) = some s := by
  cases s <;> rfl

@[simp] theorem optInt?_ofInt (i : Option Int) : optInt? (some (ofInt i)) = some i := by
  cases i <;> rfl

@[simp] theorem intOr_int (default i : Int) : intOr default (some (.int i)) = some i := rfl

@[simp] theorem boolOr_bool (default b : Bool) : boolOr default (some (.bool b)) = some b := rfl

@[simp] theorem strsOr_ofStrs (xs : List String) : strsOr (some (ofStrs xs)) = some xs := by
  rw [ofStrs, strsOr]
  induction xs with
  | nil => rfl
  | cons x xs ih => simp [List.mapM_cons, str?, ih]

@[simp] theorem dictOr_toPy (d : Dict String PyVal) : dictOr (some d.toPy) = some d := by
  have hentries (es : List (String × PyVal)) : strEntries? (es.map fun e => (.str e.1, e.2)) = some es := by
    induction es with
    | nil => rfl
    | cons e es ih => simp [strEntries?, str?, ih]
  rw [Dict.toPy, dictOr, hentries, Option.map_some, Dict.ofList_self]

end PyVal

open PyVal hiding none

/-! ## `asdict` -/

def YamlStep.asdict (s : YamlStep) (params : Dict String PyVal) : PyVal := .dict [
  (.str "id", .str s.id),
  (.str "type", ofOption (s.type.map StepType.value)),
  (.str "script", .str s.script),
  (.str "params", params.toPy),
  (.str "preconditions", ofStrs s.preconditions),
  (.str "depends_on", ofStrs s.dependsOn),
  (.str "resources", s.resources.toPy),
  (.str "timeout", .int s.timeout),
  (.str "retry", .int s.retry),
  (.str "on_fail", ofOption s.onFail),
  (.str "on_failure", ofOption s.onFailure),
  (.str "uut_affinity", ofOption s.uutAffinity),
  (.str "barrier_name", ofOption s.barrierName),
  (.str "action", ofOption s.action),
  (.str "fixture_id", ofOption s.fixtureId),
  (.str "export_outputs", .bool s.exportOutputs),
  (.str "skip_if", ofOption s.skipIf),
  (.str "skip_reason", ofOption s.skipReason),
  (.str "condition", ofOption s.condition)]

def YamlLoop.asdict (l : YamlLoop) (steps : List PyVal) : PyVal := .dict [
  (.str "id", .str l.id),
  (.str "loop_type", .str l.loopType.value),
  (.str "steps", .list steps),
  (.str "count", ofInt l.count),
  (.str "condition", ofOption l.condition),
  (.str "collection", ofOption l.collection),
  (.str "iterator_var", ofOption l.iteratorVar),
  (.str "execution_mode", .str l.executionMode.value),
  (.str "max_iterations", .int l.maxIterations),
  (.str "skip_if", ofOption l.skipIf),
  (.str "skip_reason", ofOption l.skipReason),
  (.str "depends_on", ofStrs l.dependsOn)]

def paramsWith (params : Dict String PyVal) : List PyVal → Dict String PyVal
  | [] => params
  | steps => params.set "steps" (.list steps)

namespace Item

def asdict : Item → PyVal
  | .step s steps => s.asdict (paramsWith s.params (asdictAll steps))
  | .loop l steps => l.asdict (asdictAll steps)
  | .raw entry => entry
where
  asdictAll : List Item → List PyVal
    | [] => []
    | item :: items => item.asdict :: asdictAll items

end Item

def YamlPlan.asdict (p : YamlPlan) : PyVal := .dict [
  (.str "name", .str p.name),
  (.str "version", .str p.version),
  (.str "scope", p.scope.toPy),
  (.str "max_concurrency", .int p.maxConcurrency),
  (.str "uut_count", .int p.uutCount),
  (.str "fixture_id", ofOption p.fixtureId),
  (.str "steps", .list (Item.asdict.asdictAll p.steps))]

/-! ## The worker -/

def LoopType.ofValue? (value : String) : Option LoopType :=
  [LoopType.forLoop, .whileLoop, .foreachLoop].find? fun loopType => loopType.value == value

def ExecutionMode.ofValue? (value : String) : Option ExecutionMode :=
  [ExecutionMode.serial, .parallel].find? fun mode => mode.value == value

/-- The objects under `steps` are apart from the other parameters. They come as plain dicts. -/
def splitParams (params : Dict String PyVal) : Dict String PyVal × List Item :=
  match params.get? "steps" with
  | some (.list (x :: xs)) => (params.erase "steps", (x :: xs).map .raw)
  | _ => (params, [])

def dictToStep (data : PyVal) : Option Item := do
  let id ← reqStr? (data.get? "id")
  let script ← reqStr? (data.get? "script")
  let params ← dictOr (data.get? "params")
  let preconditions ← strsOr (data.get? "preconditions")
  let resources ← dictOr (data.get? "resources")
  let timeout ← intOr 60 (data.get? "timeout")
  let retry ← intOr 0 (data.get? "retry")
  let onFail ← optStr? (data.get? "on_fail")
  let exportOutputs ← boolOr false (data.get? "export_outputs")
  let skipIf ← optStr? (data.get? "skip_if")
  let skipReason ← optStr? (data.get? "skip_reason")
  return .step {
    id, script, params := (splitParams params).1, preconditions, resources, timeout, retry, onFail, exportOutputs,
    skipIf, skipReason } (splitParams params).2

def dictToLoop (data : PyVal) : Option YamlLoop := do
  let id ← reqStr? (data.get? "id")
  let loopType ← (reqStr? (data.get? "loop_type")).bind LoopType.ofValue?
  let count ← optInt? (data.get? "count")
  let condition ← optStr? (data.get? "condition")
  let collection ← optStr? (data.get? "collection")
  let iteratorVar ← optStr? (data.get? "iterator_var")
  let executionMode ← (reqStr? (some (data.getD "execution_mode" (.str "SERIAL")))).bind ExecutionMode.ofValue?
  let maxIterations ← intOr 1000 (data.get? "max_iterations")
  let skipIf ← optStr? (data.get? "skip_if")
  let skipReason ← optStr? (data.get? "skip_reason")
  return { id, loopType, count, condition, collection, iteratorVar, executionMode, maxIterations, skipIf, skipReason }

def dictToStepOrLoop : PyVal → Option Item
  | .dict kvs =>
    if ((PyVal.dict kvs).get? "loop_type").isSome then do
      let loop ← dictToLoop (.dict kvs)
      let steps ← stepsIn kvs
      return .loop loop steps
    else dictToStep (.dict kvs)
  | _ => none
where
  /-- `[_dict_to_step_or_loop(s) for s in data.get("steps", [])]` -/
  stepsIn : List (PyVal × PyVal) → Option (List Item)
    | [] => some []
    | (k, v) :: kvs => if k.str? = some "steps" then stepsOf v else stepsIn kvs
  stepsOf : PyVal → Option (List Item)
    | .list xs => allOf xs
    -- No character and no key is a dict.
    | .str s => if s = "" then some [] else none
    | .dict kvs => if kvs.isEmpty then some [] else none
    | _ => none
  allOf : List PyVal → Option (List Item)
    | [] => some []
    | x :: xs => do
      let item ← dictToStepOrLoop x
      let items ← allOf xs
      return item :: items

def dictToYamlPlan : PyVal → Option YamlPlan
  | .dict kvs => do
    let data := PyVal.dict kvs
    let steps ← dictToStepOrLoop.stepsIn kvs
    let name ← reqStr? (data.get? "name")
    let version ← reqStr? (data.get? "version")
    let scope ← dictOr (data.get? "scope")
    let maxConcurrency ← intOr 1 (data.get? "max_concurrency")
    return { name, version, scope, maxConcurrency, steps }
  | _ => none

def receive (reprFloat : Rat → String) (p : YamlPlan) : Option YamlPlan :=
  (p.asdict.jsonImage reprFloat).bind dictToYamlPlan

/-! ## What is kept -/

def Item.isRaw : Item → Bool
  | .raw _ => true
  | _ => false

def ParamsApart (params : Dict String PyVal) (steps : List Item) : Prop :=
  match params.get? "steps" with
  | none => True
  | some (.list (_ :: _)) => False
  | some _ => steps = []

/-- Every field that the worker does not read has its default. -/
def YamlStep.Sent (s : YamlStep) : Prop :=
  s.type = none ∧ s.dependsOn = [] ∧ s.onFailure = none ∧ s.uutAffinity = none ∧ s.barrierName = none ∧
    s.action = none ∧ s.fixtureId = none ∧ s.condition = none

def YamlLoop.Sent (l : YamlLoop) : Prop := l.dependsOn = []

namespace Item

def Sent : Item → Prop
  | .step s steps => s.Sent ∧ ParamsApart s.params steps ∧ ∀ item ∈ steps, item.isRaw = true
  | .loop l steps => l.Sent ∧ SentAll steps
  | .raw _ => False
where
  SentAll : List Item → Prop
    | [] => True
    | item :: items => item.Sent ∧ SentAll items

end Item

def YamlPlan.Sent (p : YamlPlan) : Prop := p.uutCount = 1 ∧ p.fixtureId = none ∧ Item.Sent.SentAll p.steps

/-! ### Parameters -/

theorem Dict.erase_set_new {d : Dict String PyVal} {key : String} (h : d.get? key = none) (v : PyVal) :
    (d.set key v).erase key = d := by
  have hnew : key ∉ d.keys := (Dict.get?_eq_none_iff _ _).mp h
  have hkeep : d.entries.filter (fun e => e.1 ≠ key) = d.entries := by
    rw [List.filter_eq_self]
    intro e he
    exact decide_eq_true fun heq => hnew (heq ▸ List.mem_map_of_mem he)
  cases d with
  | mk entries nodup =>
    simp only [Dict.set, Dict.erase, Dict.setEntries_new hnew, List.filter_append]
    simpa using hkeep

open Item

theorem map_raw_eq_iff (xs : List PyVal) (steps : List Item) :
    xs.map raw = steps ↔ (∀ item ∈ steps, item.isRaw = true) ∧ xs = asdict.asdictAll steps := by
  induction steps generalizing xs with
  | nil => simp [asdict.asdictAll]
  | cons item items ih =>
    cases xs with
    | nil => simp [asdict.asdictAll]
    | cons x xs =>
      rw [List.map_cons, List.cons.injEq, ih, asdict.asdictAll, List.cons.injEq, List.forall_mem_cons]
      cases item with
      | raw entry => simp [isRaw, asdict, and_left_comm]
      | _ => simp [isRaw]

/-- The parameters come back when the inner objects are plain dicts, and no others. -/
theorem splitParams_paramsWith (params : Dict String PyVal) (steps : List Item) :
    splitParams (paramsWith params (asdict.asdictAll steps)) = (params, steps) ↔
      ParamsApart params steps ∧ ∀ item ∈ steps, item.isRaw = true := by
  cases steps with
  | nil =>
    simp only [asdict.asdictAll, paramsWith, splitParams, ParamsApart]
    split
    · next h => simp [h]
    · next h =>
      have hnot : ∀ x xs, params.get? "steps" ≠ some (.list (x :: xs)) := h
      split <;> simp_all
  | cons item items =>
    have hraw := map_raw_eq_iff (asdict.asdictAll (item :: items)) (item :: items)
    rw [and_iff_left rfl, asdict.asdictAll] at hraw
    rw [asdict.asdictAll, paramsWith, splitParams, Dict.get?_set_self]
    · simp only [Prod.mk.injEq, hraw]
      refine and_congr_left fun _ => ?_
      cases hget : params.get? "steps" with
      | none => simp [ParamsApart, hget, Dict.erase_set_new hget]
      | some v =>
        -- The parameters lose their own value.
        have hne : (params.set "steps" (.list (item.asdict :: asdict.asdictAll items))).erase "steps" ≠ params := by
          intro heq
          have hnone := congrArg (·.get? "steps") heq
          simp [Dict.get?_erase, hget] at hnone
        simp only [ParamsApart, hget, hne, false_iff]
        split <;> simp_all
    · simp

/-! ### Steps and loops -/

theorem LoopType.ofValue?_value (loopType : LoopType) : LoopType.ofValue? loopType.value = some loopType := by
  cases loopType <;> decide

theorem ExecutionMode.ofValue?_value (mode : ExecutionMode) : ExecutionMode.ofValue? mode.value = some mode := by
  cases mode <;> decide

open PyVal

theorem dictToStep_asdict (s : YamlStep) (params : Dict String PyVal) :
    dictToStepOrLoop (s.asdict params) = some (.step { s with
      type := none, params := (splitParams params).1, dependsOn := [], onFailure := none, uutAffinity := none,
      barrierName := none, action := none, fixtureId := none, condition := none } (splitParams params).2) := by
  simp [YamlStep.asdict, dictToStepOrLoop, dictToStep, get?, str?]

theorem dictToLoop_asdict (l : YamlLoop) (steps : List PyVal) :
    dictToStepOrLoop (l.asdict steps) =
      (dictToStepOrLoop.allOf steps).map fun items => .loop { l with dependsOn := [] } items := by
  have hfields : dictToLoop (l.asdict steps) = some { l with dependsOn := [] } := by
    simp [YamlLoop.asdict, dictToLoop, get?, getD, str?, LoopType.ofValue?_value, ExecutionMode.ofValue?_value]
  simp only [YamlLoop.asdict] at hfields ⊢
  simp only [dictToStepOrLoop, hfields]
  simp [get?, str?, dictToStepOrLoop.stepsIn, dictToStepOrLoop.stepsOf, Option.map_eq_bind]

theorem dictToStepOrLoop_ne_raw (data entry : PyVal) : dictToStepOrLoop data ≠ some (.raw entry) := by
  cases data with
  | dict kvs =>
    rw [dictToStepOrLoop]
    split <;> simp [dictToStep, Option.bind_eq_some_iff]
  | _ => simp [dictToStepOrLoop]

theorem allOf_cons_iff {x : PyVal} {xs : List PyVal} {item : Item} {items : List Item} :
    dictToStepOrLoop.allOf (x :: xs) = some (item :: items) ↔
      dictToStepOrLoop x = some item ∧ dictToStepOrLoop.allOf xs = some items := by
  simp [dictToStepOrLoop.allOf, Option.bind_eq_some_iff]

theorem step_asdict_iff (s : YamlStep) (steps : List Item) :
    dictToStepOrLoop (step s steps).asdict = some (.step s steps) ↔ (step s steps).Sent := by
  have hparams := splitParams_paramsWith s.params steps
  rw [Prod.ext_iff] at hparams
  rw [asdict, dictToStep_asdict, Sent, ← hparams, YamlStep.Sent]
  cases s
  simp only [Option.some.injEq, step.injEq, YamlStep.mk.injEq, true_and]
  tauto

theorem allOf_asdictAll (items : List Item) :
    dictToStepOrLoop.allOf (asdict.asdictAll items) = some items ↔ Sent.SentAll items := by
  induction items using list_induction with
  | nil => simp [asdict.asdictAll, dictToStepOrLoop.allOf, Sent.SentAll]
  | step s steps items _ ih =>
    rw [asdict.asdictAll, allOf_cons_iff, step_asdict_iff, ih, Sent.SentAll]
  | loop l steps items hsteps ih =>
    rw [asdict.asdictAll, allOf_cons_iff, ih, Sent.SentAll, asdict, dictToLoop_asdict, Sent, ← hsteps, YamlLoop.Sent]
    cases l
    simp only [Option.map_eq_some_iff, loop.injEq, YamlLoop.mk.injEq, true_and]
    grind
  | raw entry items ih =>
    rw [asdict.asdictAll, allOf_cons_iff, Sent.SentAll, Sent]
    simp [dictToStepOrLoop_ne_raw]

theorem dictToYamlPlan_asdict (p : YamlPlan) :
    dictToYamlPlan p.asdict = (dictToStepOrLoop.allOf (asdict.asdictAll p.steps)).map fun steps =>
      { p with uutCount := 1, fixtureId := none, steps } := by
  simp [YamlPlan.asdict, dictToYamlPlan, dictToStepOrLoop.stepsIn, dictToStepOrLoop.stepsOf, get?, str?,
    Option.map_eq_bind]

theorem receive_eq_self_iff {reprFloat : Rat → String} {p : YamlPlan} (hjson : p.asdict.isJson = true) :
    receive reprFloat p = some p ↔ p.Sent := by
  rw [receive, jsonImage_eq_self hjson, Option.bind_some, dictToYamlPlan_asdict, YamlPlan.Sent,
    ← allOf_asdictAll, Option.map_eq_some_iff]
  cases p with
  | mk name version scope maxConcurrency uutCount fixtureId steps =>
    constructor
    · rintro ⟨items, hitems, heq⟩
      cases heq
      exact ⟨rfl, rfl, hitems⟩
    · rintro ⟨rfl, rfl, hitems⟩
      exact ⟨steps, hitems, rfl⟩

def loopPlan : YamlPlan where
  name := "burn-in"
  version := "3.2"
  maxConcurrency := 2
  steps := [
    .loop { id := "l", loopType := .forLoop, count := some 3 } [.leaf { id := "a", script := "a.py", timeout := 5 }]]

theorem receive_loopPlan : loopPlan.asdict.isJson = true ∧ receive (fun _ => "") loopPlan = some loopPlan :=
  ⟨by decide +kernel, (receive_eq_self_iff (by decide +kernel)).mpr
    ⟨rfl, rfl, ⟨rfl, ⟨⟨rfl, rfl, rfl, rfl, rfl, rfl, rfl, rfl⟩, trivial, by simp⟩, trivial⟩, trivial⟩⟩

def orderedPlan : YamlPlan where
  name := "two steps"
  version := "3.2"
  steps := [.leaf { id := "a", script := "a.py" }, .leaf { id := "b", script := "b.py", dependsOn := ["a"] }]

/-- The order is lost on the way. -/
theorem receive_orderedPlan : orderedPlan.asdict.isJson = true ∧
    receive (fun _ => "") orderedPlan = some { orderedPlan with
      steps := [.leaf { id := "a", script := "a.py" }, .leaf { id := "b", script := "b.py" }] } ∧
    receive (fun _ => "") orderedPlan ≠ some orderedPlan := by
  have hjson : orderedPlan.asdict.isJson = true := by decide +kernel
  have hsteps : dictToStepOrLoop.allOf (asdict.asdictAll orderedPlan.steps) =
      some [.leaf { id := "a", script := "a.py" }, .leaf { id := "b", script := "b.py" }] := by
    simp [orderedPlan, asdict.asdictAll, asdict, dictToStepOrLoop.allOf, dictToStep_asdict, paramsWith, splitParams]
  have hreceive : receive (fun _ => "") orderedPlan = some { orderedPlan with
      steps := [.leaf { id := "a", script := "a.py" }, .leaf { id := "b", script := "b.py" }] } := by
    rw [receive, jsonImage_eq_self hjson, Option.bind_some, dictToYamlPlan_asdict, hsteps]
    rfl
  refine ⟨hjson, hreceive, ?_⟩
  rw [hreceive]
  simp [orderedPlan]

end AteStudio
