import AteStudio.Parser.Code

/-! # The plan materializer (`ate_cloud/services/plan_materializer.py`) -/

namespace AteStudio.Parser

open PyVal (Same)

/-! ## `_build_plan` -/

def buildStep (data : PyVal) : StepFields where
  id := data.getD "id" (.str "")
  script := data.getD "script" (.str "")
  params := data.getD "params" (.dict [])
  preconditions := data.getD "preconditions" (.list [])
  resources := data.getD "resources" (.dict [])
  timeout := data.getD "timeout" (.int 60)
  retry := data.getD "retry" (.int 0)
  onFail := data.getD "on_fail" .none
  exportOutputs := data.getD "export_outputs" (.bool false)
  skipIf := data.getD "skip_if" .none
  skipReason := data.getD "skip_reason" .none

/-- Nothing is built from `steps` that are no list. -/
def buildNested (stepsData : PyVal) (entries : Except ParseError (List Entry)) : Except ParseError (List Entry) :=
  match stepsData with
  | .list _ => entries
  | _ => .ok []

def buildLoopType (py : Python) (loopType : PyVal) : Except ParseError LoopType :=
  match LoopType.ofValue? (py.upper (py.str loopType)) with
  | some type => .ok type
  | none => .error (.valueError ("'" ++ py.upper (py.str loopType) ++ "' is not a valid LoopType"))

def buildExecutionMode (py : Python) (mode : PyVal) : Except ParseError ExecutionMode :=
  match ExecutionMode.ofValue? (py.upper (py.str mode)) with
  | some mode => .ok mode
  | none => .error (.valueError ("'" ++ py.upper (py.str mode) ++ "' is not a valid ExecutionMode"))

def buildLoopFields (data : PyVal) (loopType : LoopType) (executionMode : ExecutionMode) : LoopFields where
  id := data.getD "id" (.str "")
  loopType
  count := data.getD "count" .none
  condition := data.getD "condition" .none
  collection := data.getD "collection" .none
  iteratorVar := data.getD "iterator_var" .none
  executionMode
  maxIterations := data.getD "max_iterations" (.int 1000)
  skipIf := data.getD "skip_if" .none
  skipReason := data.getD "skip_reason" .none

def buildLoop (py : Python) (data : PyVal) (entries : Except ParseError (List Entry)) : Except ParseError Entry := do
  let loopType ← buildLoopType py (data.getD "loop_type" (.str "FOR"))
  let executionMode ← buildExecutionMode py (data.getD "execution_mode" (.str "SERIAL"))
  let steps ← buildNested (data.getD "steps" (.list [])) entries
  return .loop (buildLoopFields data loopType executionMode) steps

mutual

def buildStepOrLoop (py : Python) : Doc → Except ParseError Entry
  | ⟨.dict kvs, steps⟩ =>
    if ((PyVal.dict kvs).get? "loop_type").isSome then buildLoop py (.dict kvs) (buildAll py steps)
    else .ok (.step (buildStep (.dict kvs)))
  -- `in` works on a string and a list, but they have no `get`.
  | ⟨.str _, _⟩ => .error .attributeError
  | ⟨.list _, _⟩ => .error .attributeError
  | _ => .error .typeError

def buildAll (py : Python) : List Doc → Except ParseError (List Entry)
  | [] => .ok []
  | doc :: docs => do
    let entry ← buildStepOrLoop py doc
    let entries ← buildAll py docs
    return entry :: entries

end

def buildScope : PyVal → PyVal
  | .str s => .dict [(.str "name", .str s)]
  | .dict kvs => .dict kvs
  | _ => .dict []

def buildDoc (py : Python) : Doc → Except ParseError Plan
  | ⟨data, docs⟩ => do
    let steps ← buildNested (data.getD "steps" (.list [])) (buildAll py docs)
    return {
      name := data.getD "name" (.str "")
      version := .str (py.str (data.getD "version" (.str "")))
      scope := buildScope (data.getD "scope" (.dict []))
      maxConcurrency := data.getD "max_concurrency" (.int 1)
      steps }

def buildPlan (py : Python) (document : PyVal) : Except ParseError Plan := buildDoc py (.ofPy document)

/-! ## Equal plans -/

def StepFields.values (s : StepFields) : List PyVal :=
  [s.id, s.script, s.params, s.preconditions, s.dependsOn, s.resources, s.timeout, s.retry, s.onFail, s.onFailure,
    s.uutAffinity, s.barrierName, s.action, s.fixtureId, s.exportOutputs, s.skipIf, s.skipReason, s.condition]

def LoopFields.values (l : LoopFields) : List PyVal :=
  [l.id, l.count, l.condition, l.collection, l.iteratorVar, l.maxIterations, l.skipIf, l.skipReason, l.dependsOn]

def Plan.values (p : Plan) : List PyVal := [p.name, p.version, p.scope, p.maxConcurrency, p.uutCount, p.fixtureId]

mutual

def Entry.Same : Entry → Entry → Prop
  | .step s, .step t => s.type = t.type ∧ List.Forall₂ PyVal.Same s.values t.values
  | .loop l steps, .loop m steps' => l.loopType = m.loopType ∧ l.executionMode = m.executionMode ∧
      List.Forall₂ PyVal.Same l.values m.values ∧ Entry.AllSame steps steps'
  | _, _ => False

def Entry.AllSame : List Entry → List Entry → Prop
  | [], [] => True
  | e :: es, f :: fs => e.Same f ∧ Entry.AllSame es fs
  | _, _ => False

end

def Plan.Same (p q : Plan) : Prop := List.Forall₂ PyVal.Same p.values q.values ∧ Entry.AllSame p.steps q.steps

/-! ## When they are equal -/

def isNull (data : PyVal) (key : String) : Prop := data.getD key .none = .none

structure AgreesStep (data : PyVal) : Prop where
  -- A list of names is normalised by the parser only, and so is what is no dictionary.
  resources : ∃ kvs, data.getD "resources" (.dict []) = .dict kvs
  dependsOn : data.getD "depends_on" (.list []) = .list []
  onFailure : onFailureOf data = .none
  null : ∀ key ∈ ["uut_affinity", "barrier_name", "action", "fixture_id"], isNull data key

mutual

/-- No field that one of the two drops, and the right `loop_type` on a loop of the new form. -/
def Agrees (py : Python) : Doc → Prop
  | ⟨data, steps⟩ =>
    let type := (data.getD "type" .none).str?
    let agreesLoop := isNull data "skip_if" ∧ isNull data "skip_reason" ∧
      (isListed data = true → AgreesAll py steps)
    if type = some "loop" then (data.get? "loop_type").isSome = true ∧
      LoopType.ofValue? (py.upper (py.str (data.getD "loop_type" .none))) = some (inferLoopType data) ∧
      data.getD "depends_on" (.list []) = .list [] ∧ agreesLoop
    else type ∉ [some "branch", some "breakpoint", some "subsequence"] ∧
      if (data.get? "loop_type").isSome then agreesLoop else isNull data "type" ∧ AgreesStep data

def AgreesAll (py : Python) : List Doc → Prop
  | [] => True
  | doc :: docs => Agrees py doc ∧ AgreesAll py docs

end

def AgreesPlan (py : Python) : Doc → Prop
  | ⟨data, steps⟩ => (∃ version, data.getD "version" .none = .str version) ∧
      PyVal.Same (data.getD "uut_count" (.int 1)) (.int 1) ∧ isNull data "fixture_id" ∧
      (isListed data = true → AgreesAll py steps)

/-! ## Field by field -/

theorem getD_of_isSome {data : PyVal} {key : String} (h : (data.get? key).isSome = true) (default : PyVal) :
    data.getD key default = data.getD key .none := by
  obtain ⟨v, hv⟩ := Option.isSome_iff_exists.mp h
  simp [PyVal.getD, hv]

variable {v : PyVal}

theorem same_none : Same v .none ↔ v = .none := by
  simp [Same, PyVal.num?]

theorem same_nil : Same v (.list []) ↔ v = .list [] := by
  simp [Same, PyVal.num?]

theorem same_none_left : Same .none v ↔ v = .none := by
  simp [Same, PyVal.num?, eq_comm]

theorem same_normalizeResources {py : Python} : Same (normalizeResources py v) v ↔ ∃ kvs, v = .dict kvs := by
  cases v <;> simp [Same, normalizeResources, PyVal.num?]

theorem same_str {py : Python} : Same v (.str (py.str v)) ↔ ∃ s, v = .str s := by
  cases v <;> simp [Same, Python.str, PyVal.num?]

section Fields

variable {py : Python} {data : PyVal}

theorem same_stepFields (hid : truthy (data.getD "id" .none) = true) :
    List.Forall₂ Same (stepFields py data (data.getD "id" .none) none (data.getD "script" (.str ""))).values
      (buildStep data).values ↔ AgreesStep data := by
  simp only [StepFields.values, stepFields, buildStep, List.forall₂_cons, List.forall₂_nil_left_iff, same_none, same_nil,
    same_normalizeResources, getD_of_truthy hid (.str ""), Same.refl, true_and, and_true]
  constructor
  · rintro ⟨hdeps, hres, hfail, hnull⟩
    exact ⟨hres, hdeps, hfail, by simpa [isNull] using hnull⟩
  · rintro ⟨hres, hdeps, hfail, hnull⟩
    exact ⟨hdeps, hres, hfail, by simpa [isNull] using hnull⟩

theorem same_loopFields (hid : truthy (data.getD "id" .none) = true) (type type' : LoopType)
    (mode mode' : ExecutionMode) (dependsOn : PyVal) :
    List.Forall₂ Same { loopFields data (data.getD "id" .none) type mode with dependsOn }.values
      (buildLoopFields data type' mode').values ↔
      isNull data "skip_if" ∧ isNull data "skip_reason" ∧ dependsOn = .list [] := by
  simp only [LoopFields.values, loopFields, buildLoopFields, List.forall₂_cons, List.forall₂_nil_left_iff,
    same_none_left, same_nil, getD_of_truthy hid (.str ""), Same.refl, true_and, and_true, isNull]

variable {entries : Except ParseError (List Entry)}

theorem buildLoop_ok {f : Entry} (h : buildLoop py data entries = .ok f) :
    ∃ loopType mode steps,
      LoopType.ofValue? (py.upper (py.str (data.getD "loop_type" (.str "FOR")))) = some loopType ∧
      ExecutionMode.ofValue? (py.upper (py.str (data.getD "execution_mode" (.str "SERIAL")))) = some mode ∧
      buildNested (data.getD "steps" (.list [])) entries = .ok steps ∧
      f = .loop (buildLoopFields data loopType mode) steps := by
  unfold buildLoop at h
  obtain ⟨loopType, htype, h⟩ := bind_eq_ok.mp h
  obtain ⟨mode, hmode, h⟩ := bind_eq_ok.mp h
  obtain ⟨steps, hsteps, h⟩ := bind_eq_ok.mp h
  refine ⟨loopType, mode, steps, ?_, ?_, hsteps, (pure_eq_ok.mp h).symm⟩
  · unfold buildLoopType at htype
    split at htype <;> cases htype
    assumption
  · unfold buildExecutionMode at hmode
    split at hmode <;> cases hmode
    assumption

theorem mode_eq {id : PyVal} {mode mode' : ExecutionMode} {v : PyVal} (h : parseExecutionMode py id v = .ok mode)
    (h' : ExecutionMode.ofValue? (py.upper (py.str v)) = some mode') : mode = mode' := by
  obtain ⟨s, rfl, hs⟩ := parseExecutionMode_ok h
  exact Option.some.inj (hs.symm.trans h')

variable {entries' : Except ParseError (List Entry)}

theorem nested_iff {v : PyVal} {es fs : List Entry} {P : Prop}
    (h : nestedSteps v entries = .ok es) (h' : buildNested v entries' = .ok fs)
    (hlist : entries = .ok es → entries' = .ok fs → (Entry.AllSame es fs ↔ P)) :
    Entry.AllSame es fs ↔ (isList v = true → P) := by
  rcases nestedSteps_ok h with ⟨hv, h⟩ | ⟨hv, rfl⟩
  · cases v <;> cases hv
    exact (hlist h h').trans ⟨fun hp _ => hp, fun hp => hp rfl⟩
  · cases v <;> cases hv <;> cases h' <;> simp [isList, Entry.AllSame]

theorem same_loop {es fs : List Entry} {P : Prop}
    {type type' : LoopType} {id : PyVal} {mode mode' : ExecutionMode} {dependsOn : PyVal}
    (hid : truthy (data.getD "id" .none) = true)
    (hmode : parseExecutionMode py id (data.getD "execution_mode" (.str "SERIAL")) = .ok mode)
    (hmode' : ExecutionMode.ofValue? (py.upper (py.str (data.getD "execution_mode" (.str "SERIAL")))) = some mode')
    (hes : nestedSteps (data.getD "steps" (.list [])) entries = .ok es)
    (hfs : buildNested (data.getD "steps" (.list [])) entries' = .ok fs)
    (hlist : entries = .ok es → entries' = .ok fs → (Entry.AllSame es fs ↔ P)) :
    (Entry.loop { loopFields data (data.getD "id" .none) type mode with dependsOn } es).Same
      (.loop (buildLoopFields data type' mode') fs) ↔
      type = type' ∧ dependsOn = .list [] ∧ isNull data "skip_if" ∧ isNull data "skip_reason" ∧
        (isListed data = true → P) := by
  rw [Entry.Same, same_loopFields hid, nested_iff hes hfs hlist]
  have hmodes : mode = mode' := mode_eq hmode hmode'
  constructor
  · rintro ⟨htype, -, ⟨hskip, hreason, hdeps⟩, hsteps⟩
    exact ⟨htype, hdeps, hskip, hreason, hsteps⟩
  · rintro ⟨htype, hdeps, hskip, hreason, hsteps⟩
    exact ⟨htype, hmodes, ⟨hskip, hreason, hdeps⟩, hsteps⟩

theorem not_same_special {id params condition : PyVal} {type : StepType} {steps : List Doc} {f : Entry}
    {kvs : List (PyVal × PyVal)} (h : buildStepOrLoop py ⟨.dict kvs, steps⟩ = .ok f) :
    ¬ (Entry.step (specialStep data id type params condition)).Same f := by
  unfold buildStepOrLoop at h
  split at h
  · obtain ⟨_, _, _, -, -, -, rfl⟩ := buildLoop_ok h
    exact fun hsame => hsame
  · cases h
    exact fun hsame => nomatch hsame.1

end Fields

/-! ## The trees -/

section Dict

variable {py : Python} {kvs : List (PyVal × PyVal)} {steps : List Doc} {e f : Entry}

theorem agrees_special {type : String} (htype : ((PyVal.dict kvs).getD "type" .none).str? = some type)
    (hspecial : type ∈ ["branch", "breakpoint", "subsequence"]) : ¬ Agrees py ⟨.dict kvs, steps⟩ := by
  unfold Agrees
  simp only [htype]
  split
  · next hloop =>
    cases hloop
    exact absurd hspecial (by decide)
  · intro h
    exact h.1 (by simpa using hspecial)

theorem same_dict_iff (he : parseDict py (.dict kvs) (parseAll py steps) = .ok e)
    (hf : buildStepOrLoop py ⟨.dict kvs, steps⟩ = .ok f)
    (hsteps : ∀ es fs, parseAll py steps = .ok es → buildAll py steps = .ok fs →
      (Entry.AllSame es fs ↔ AgreesAll py steps)) : e.Same f ↔ Agrees py ⟨.dict kvs, steps⟩ := by
  unfold parseDict at he
  dsimp only at he
  split at he
  · next hloop =>
    obtain ⟨es, mode, hes, hmode, hid, rfl⟩ := parseLoopV32_ok he
    unfold Agrees buildStepOrLoop at *
    simp only [hloop, if_true]
    split at hf
    · next hkey =>
      obtain ⟨type, mode', fs, htype, hmode', hfs, rfl⟩ := buildLoop_ok hf
      rw [getD_of_isSome hkey] at htype
      rw [same_loop hid hmode hmode' hes hfs (hsteps es fs), htype, Option.some.injEq, eq_comm]
      exact ⟨fun h => ⟨hkey, h⟩, fun h => h.2⟩
    · next hkey =>
      cases hf
      simp [Entry.Same, hkey]
  · next hloop =>
    split at he
    · next htype =>
      obtain ⟨s, hs, rfl⟩ := map_step_ok he
      obtain ⟨params, -, -, rfl⟩ := params_ok hs
      exact iff_of_false (not_same_special hf) (agrees_special htype (by decide))
    split at he
    · next htype =>
      obtain ⟨s, hs, rfl⟩ := map_step_ok he
      obtain ⟨-, -, rfl⟩ := parseBreakpoint_ok hs
      exact iff_of_false (not_same_special hf) (agrees_special htype (by decide))
    split at he
    · next htype =>
      obtain ⟨s, hs, rfl⟩ := map_step_ok he
      obtain ⟨params, -, -, rfl⟩ := params_ok hs
      exact iff_of_false (not_same_special hf) (agrees_special htype (by decide))
    next hbranch hbreakpoint hsubsequence =>
    have hspecial : ((PyVal.dict kvs).getD "type" .none).str? ∉
        [some "branch", some "breakpoint", some "subsequence"] := by
      simp [hbranch, hbreakpoint, hsubsequence]
    unfold Agrees buildStepOrLoop at *
    simp only [hloop, if_false, hspecial, not_false_eq_true, true_and]
    split at he
    · next hkey =>
      obtain ⟨type, es, mode, htype, hes, hmode, hid, -, rfl⟩ := parseLoop_ok he
      rw [if_pos hkey] at hf ⊢
      obtain ⟨type', mode', fs, htype', hmode', hfs, rfl⟩ := buildLoop_ok hf
      obtain ⟨text, htext, htype⟩ := parseLoopType_ok htype
      rw [getD_of_isSome hkey, htext] at htype'
      obtain rfl : type = type' := Option.some.inj (htype.symm.trans htype')
      exact (same_loop hid hmode hmode' hes hfs (hsteps es fs)).trans (by simp)
    · next hkey =>
      obtain ⟨s, hs, rfl⟩ := map_step_ok he
      obtain ⟨type, htype, hid, -, rfl⟩ := parseStep_ok hs
      rw [if_neg hkey] at hf ⊢
      cases hf
      rw [Entry.Same, isNull, ← parseType_none_iff htype]
      refine and_congr_right fun htype => ?_
      rw [show type = none from htype]
      exact same_stepFields hid

end Dict

mutual

theorem same_iff (py : Python) : ∀ (doc : Doc) (e f : Entry), parseStepOrLoop py doc = .ok e →
    buildStepOrLoop py doc = .ok f → (e.Same f ↔ Agrees py doc)
  | ⟨.dict _, steps⟩, _, _, he, hf => same_dict_iff he hf (allSame_iff py steps)
  | ⟨.none, _⟩, _, _, he, _ => nomatch he
  | ⟨.bool _, _⟩, _, _, he, _ => nomatch he
  | ⟨.int _, _⟩, _, _, he, _ => nomatch he
  | ⟨.float _, _⟩, _, _, he, _ => nomatch he
  | ⟨.str _, _⟩, _, _, he, _ => nomatch he
  | ⟨.list _, _⟩, _, _, he, _ => nomatch he

theorem allSame_iff (py : Python) : ∀ (docs : List Doc) (es fs : List Entry), parseAll py docs = .ok es →
    buildAll py docs = .ok fs → (Entry.AllSame es fs ↔ AgreesAll py docs)
  | [], es, fs, he, hf => by
    cases he
    cases hf
    exact Iff.rfl
  | doc :: docs, es, fs, he, hf => by
    obtain ⟨e, hparse, he⟩ := bind_eq_ok.mp he
    obtain ⟨es, hparses, he⟩ := bind_eq_ok.mp he
    obtain ⟨f, hbuild, hf⟩ := bind_eq_ok.mp hf
    obtain ⟨fs, hbuilds, hf⟩ := bind_eq_ok.mp hf
    cases he
    cases hf
    exact and_congr (same_iff py doc e f hparse hbuild) (allSame_iff py docs es fs hparses hbuilds)

end

/-! ## Plans -/

theorem parseScope_ok {scope : PyVal} (h : parseScope v = .ok scope) : buildScope v = scope := by
  cases v <;> cases h <;> rfl

theorem same_doc_iff {py : Python} {doc : Doc} {p q : Plan} (hparse : parsePlan py doc = .ok p)
    (hbuild : buildDoc py doc = .ok q) : p.Same q ↔ AgreesPlan py doc := by
  obtain ⟨data, docs⟩ := doc
  obtain ⟨scope, es, hscope, hes, htrue, rfl⟩ := parsePlan_ok hparse
  unfold buildDoc at hbuild
  obtain ⟨fs, hfs, hbuild⟩ := bind_eq_ok.mp hbuild
  cases hbuild
  simp only [List.forall_mem_cons] at htrue
  obtain ⟨hname, hversion, htrueScope, -⟩ := htrue
  rw [Plan.Same, AgreesPlan, nested_iff hes hfs (allSame_iff py docs es fs)]
  simp only [Plan.values, List.forall₂_cons, List.forall₂_nil_left_iff, getD_of_truthy hname (.str ""),
    getD_of_truthy hversion (.str ""), getD_of_truthy htrueScope (.dict []), parseScope_ok hscope, same_str, same_none,
    Same.refl, true_and, and_true, isNull, isListed, and_assoc]

/-- Equal exactly when the document is silent on what one of the two drops. -/
theorem parse_same_buildPlan_iff (py : Python) (document : PyVal) (p q : Plan) (hparse : parse py document = .ok p)
    (hbuild : buildPlan py document = .ok q) : p.Same q ↔ AgreesPlan py (.ofPy document) :=
  same_doc_iff hparse hbuild

def documentOf (steps : List PyVal) : PyVal :=
  .dict [(.str "name", .str "plan"), (.str "version", .str "1"), (.str "scope", .str "bench"),
    (.str "steps", .list steps)]

def stepOf (id : String) (fields : List (PyVal × PyVal)) : PyVal :=
  .dict ((.str "id", .str id) :: (.str "script", .str "measure.py") :: fields)

def loopOf (id : String) (steps : List PyVal) : PyVal :=
  .dict [(.str "id", .str id), (.str "loop_type", .str "for"), (.str "count", .int 2), (.str "steps", .list steps)]

theorem parse_same_buildPlan_loop : ∃ p q,
    parse asciiPython (documentOf [stepOf "a" [], loopOf "l" [stepOf "b" [(.str "timeout", .int 5)]]]) = .ok p ∧
      buildPlan asciiPython (documentOf [stepOf "a" [], loopOf "l" [stepOf "b" [(.str "timeout", .int 5)]]]) = .ok q ∧
      (p.Same q ↔ AgreesPlan asciiPython
        (.ofPy (documentOf [stepOf "a" [], loopOf "l" [stepOf "b" [(.str "timeout", .int 5)]]]))) :=
  ⟨_, _, rfl, rfl, parse_same_buildPlan_iff _ _ _ _ rfl rfl⟩

/-- The materializer drops the order of the two steps. -/
theorem not_same_depends_on : ∃ p q,
    parse asciiPython (documentOf [stepOf "a" [], stepOf "b" [(.str "depends_on", .list [.str "a"])]]) = .ok p ∧
      buildPlan asciiPython (documentOf [stepOf "a" [], stepOf "b" [(.str "depends_on", .list [.str "a"])]]) = .ok q ∧
      ¬ p.Same q := by
  obtain ⟨p, hp⟩ : ∃ p, parse asciiPython (documentOf [stepOf "a" [],
    stepOf "b" [(.str "depends_on", .list [.str "a"])]]) = .ok p := ⟨_, rfl⟩
  obtain ⟨q, hq⟩ : ∃ q, buildPlan asciiPython (documentOf [stepOf "a" [],
    stepOf "b" [(.str "depends_on", .list [.str "a"])]]) = .ok q := ⟨_, rfl⟩
  refine ⟨p, q, hp, hq, fun h => ?_⟩
  obtain ⟨-, -, -, hsteps⟩ := (same_doc_iff hp hq).mp h
  obtain ⟨-, hb, -⟩ := hsteps rfl
  exact nomatch (hb.2.2 : AgreesStep _).dependsOn

end AteStudio.Parser
