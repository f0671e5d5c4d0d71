import AteStudio.Value

/-!
# The step registry (`scheduler/step_registry.py`, `scheduler/condition_evaluator.py`)

`none` stands for an exception. The lock is left out: each method is one step.
-/

namespace AteStudio

inductive StepStatus where
  | pending
  | running
  | passed
  | failed
  | skipped
  | error
deriving DecidableEq, Repr

namespace StepStatus

def value : StepStatus → String
  | .pending => "PENDING"
  | .running => "RUNNING"
  | .passed => "PASSED"
  | .failed => "FAILED"
  | .skipped => "SKIPPED"
  | .error => "ERROR"

def ofName? (name : String) : Option StepStatus :=
  [.pending, .running, .passed, .failed, .skipped, .error].find? fun s => s.value = name

def terminal (s : StepStatus) : Bool := s ∈ [.passed, .failed, .skipped, .error]

end StepStatus

structure Condition where
  step : Option String := none
  status : Option String := none
  expression : Option String := none
  resourceAvailable : Option (List String) := none
deriving DecidableEq

inductive OnFailure where
  | abort
  | continue
  | skip
deriving DecidableEq, Repr

structure StepExecutionConfig where
  maxRetries : Int := 0
  retryDelayMs : Int := 0
  repeatOnMeasurementFail : Bool := false
  repeatLimit : Int := 0
  forceRepeat : Bool := false
  skipIf : Option String := none
  onFailure : OnFailure := .continue
deriving DecidableEq

/-! ## Conditions -/

/-- `evalExpression` is `none` when `resolve` or `simpleeval` raises. -/
structure Evaluator where
  evalExpression : String → Option Bool
  resources : Option (String → Bool)

def stepResults (steps : Dict String StepStatus) (c : Condition) : Option (List Bool) :=
  match c.step, c.status with
  | some step, some status =>
    match steps.get? step with
    | none => some [false]
    | some actual => do
      let expected ← StepStatus.ofName? status
      return [actual == .skipped || actual == expected]
  | _, _ => some []

def Evaluator.expressionResults (e : Evaluator) (c : Condition) : List Bool :=
  match c.expression with
  | some expr => [(e.evalExpression expr).getD false]
  | none => []

def Evaluator.resourceResults (e : Evaluator) (c : Condition) : List Bool :=
  match c.resourceAvailable with
  | some names => [match e.resources with
    | some available => names.all available
    | none => false]
  | none => []

def Evaluator.evaluate (e : Evaluator) (steps : Dict String StepStatus) (c : Condition) : Option Bool := do
  let results ← stepResults steps c
  return (results ++ e.expressionResults c ++ e.resourceResults c).all id

def Evaluator.evaluateSkipCondition (e : Evaluator) (expr : String) : Bool :=
  !isBlank expr && (e.evalExpression expr).getD false

/-! ## Steps -/

structure StepRegistry where
  steps : Dict String StepStatus := ∅
  conditions : Dict String Condition := ∅
  configs : Dict String StepExecutionConfig := ∅
  retryCounts : Dict String Nat := ∅
  repeatCounts : Dict String Nat := ∅

namespace StepRegistry

inductive RegisterError where
  | emptyId
  | alreadyRegistered (stepId : String)
deriving DecidableEq

def RegisterError.message : RegisterError → String
  | .emptyId => "step_id cannot be empty"
  | .alreadyRegistered stepId => "Step '" ++ stepId ++ "' is already registered"

def register (reg : StepRegistry) (stepId : String) (condition : Option Condition := none)
    (config : Option StepExecutionConfig := none) : Except RegisterError StepRegistry :=
  if isBlank stepId then
    .error .emptyId
  else if reg.steps.contains stepId then
    .error (.alreadyRegistered stepId)
  else
    .ok
      { steps := reg.steps.set stepId .pending
        conditions := match condition with
          | some c => reg.conditions.set stepId c
          | none => reg.conditions
        configs := match config with
          | some c => reg.configs.set stepId c
          | none => reg.configs
        retryCounts := reg.retryCounts.set stepId 0
        repeatCounts := reg.repeatCounts.set stepId 0 }

def isReady (reg : StepRegistry) (e : Evaluator) (stepId : String) (status : StepStatus) : Option Bool :=
  if status ≠ .pending then
    some false
  else
    match reg.conditions.get? stepId with
    | none => some true
    | some c => e.evaluate reg.steps c

def readyFrom (reg : StepRegistry) (e : Evaluator) : List (String × StepStatus) → Option (List String)
  | [] => some []
  | (stepId, status) :: rest => do
    let ready ← reg.isReady e stepId status
    let others ← readyFrom reg e rest
    return if ready then stepId :: others else others

def getReadySteps (reg : StepRegistry) (e : Evaluator) : Option (List String) :=
  reg.readyFrom e reg.steps.entries

end StepRegistry

/-! ## What is ready -/

namespace StepRegistry

variable {reg : StepRegistry} {e : Evaluator} {stepId : String} {ready : List String}

theorem mem_readyFrom {l : List (String × StepStatus)} (h : reg.readyFrom e l = some ready) :
    stepId ∈ ready ↔ ∃ status, (stepId, status) ∈ l ∧ reg.isReady e stepId status = some true := by
  induction l generalizing ready with
  | nil =>
    cases h
    simp
  | cons entry rest ih =>
    obtain ⟨id, status⟩ := entry
    simp only [readyFrom, Option.bind_eq_bind, Option.bind_eq_some_iff, pure] at h
    obtain ⟨flag, hflag, others, hothers, h⟩ := h
    cases h
    have ih := ih hothers
    cases flag <;> simp only [Bool.false_eq_true, if_false, if_true, List.mem_cons, ih]
    · constructor
      · rintro ⟨st, hmem, hready⟩
        exact ⟨st, .inr hmem, hready⟩
      · rintro ⟨st, hmem | hmem, hready⟩
        · cases hmem
          simp [hflag] at hready
        · exact ⟨st, hmem, hready⟩
    · constructor
      · rintro (rfl | ⟨st, hmem, hready⟩)
        · exact ⟨status, .inl rfl, hflag⟩
        · exact ⟨st, .inr hmem, hready⟩
      · rintro ⟨st, hmem | hmem, hready⟩
        · cases hmem
          exact .inl rfl
        · exact .inr ⟨st, hmem, hready⟩

theorem mem_getReadySteps (h : reg.getReadySteps e = some ready) :
    stepId ∈ ready ↔ reg.steps.get? stepId = some .pending ∧ reg.isReady e stepId .pending = some true := by
  rw [mem_readyFrom h]
  constructor
  · rintro ⟨status, hmem, hready⟩
    have hpending : status = .pending := by
      by_contra hne
      simp [isReady, hne] at hready
    subst hpending
    exact ⟨(Dict.get?_eq_some_iff _ _ _).mpr hmem, hready⟩
  · rintro ⟨hstatus, hready⟩
    exact ⟨.pending, (Dict.get?_eq_some_iff _ _ _).mp hstatus, hready⟩

theorem readyFrom_sublist {l : List (String × StepStatus)}
    (h : reg.readyFrom e l = some ready) : ready.Sublist (l.map Prod.fst) := by
  induction l generalizing ready with
  | nil =>
    cases h
    exact .refl []
  | cons entry rest ih =>
    obtain ⟨id, status⟩ := entry
    simp only [readyFrom, Option.bind_eq_bind, Option.bind_eq_some_iff, pure] at h
    obtain ⟨flag, _, others, hothers, h⟩ := h
    cases h
    cases flag with
    | false => exact (ih hothers).cons id
    | true => exact (ih hothers).cons_cons id

theorem getReadySteps_nodup (h : reg.getReadySteps e = some ready) : ready.Nodup :=
  (readyFrom_sublist h).nodup reg.steps.nodup

theorem getReadySteps_isSome (h : ∀ c ∈ reg.conditions.values, (e.evaluate reg.steps c).isSome = true) :
    ∃ ready, reg.getReadySteps e = some ready := by
  unfold getReadySteps
  generalize reg.steps.entries = l
  induction l with
  | nil => exact ⟨[], rfl⟩
  | cons entry rest ih =>
    obtain ⟨others, hothers⟩ := ih
    obtain ⟨flag, hflag⟩ : ∃ flag, reg.isReady e entry.1 entry.2 = some flag := by
      unfold isReady
      split
      · exact ⟨_, rfl⟩
      split
      · exact ⟨_, rfl⟩
      · next c hc =>
        refine Option.isSome_iff_exists.mp (h c ?_)
        exact List.mem_map.mpr ⟨_, (Dict.get?_eq_some_iff _ _ _).mp hc, rfl⟩
    exact ⟨_, by simp [readyFrom, hflag, hothers]; rfl⟩

theorem register_ok {reg' : StepRegistry} {id : String} {condition : Option Condition}
    (h : reg.register id condition = .ok reg') :
    isBlank id = false ∧ reg'.steps = reg.steps.set id .pending ∧ reg'.configs = reg.configs ∧
      ∀ k, reg'.conditions.get? k = (if k = id then condition else none).or (reg.conditions.get? k) := by
  unfold register at h
  split at h
  · cases h
  next hblank =>
  split at h
  · cases h
  cases h
  refine ⟨by simpa using hblank, rfl, rfl, fun k => ?_⟩
  cases condition with
  | none => by_cases hk : k = id <;> simp [hk]
  | some c => by_cases hk : k = id <;> simp [Dict.get?_set, hk]

end StepRegistry

end AteStudio
