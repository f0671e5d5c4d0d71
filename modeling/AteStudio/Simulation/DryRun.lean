import AteStudio.Bootstrap

/-!
# The dry run (`DryRunScheduler` in `simulation/dry_run_scheduler.py`)

One pass over the plan, in its order.
-/

namespace AteStudio.DryRun

open List

open Bootstrap (flatItems)
open StepRegistry (RegisterError)

/-! ## Resources (`scheduler/resource_manager.py`, without waiting) -/

inductive ResourceError where
  | alreadyHeld (resourceId ownerId : String)
  | notFound (resourceId : String)
  | notOwner (resourceId : String) (owner : Option String) (ownerId : String)
deriving DecidableEq

def ResourceError.message : ResourceError → String
  | .alreadyHeld resourceId ownerId => "Owner '" ++ ownerId ++ "' already holds resource '" ++ resourceId ++ "'"
  | .notFound resourceId => "Resource '" ++ resourceId ++ "' not found"
  | .notOwner resourceId owner ownerId =>
    "Cannot release '" ++ resourceId ++ "': owner is '" ++ owner.getD "None" ++ "', not '" ++ ownerId ++ "'"

structure ResourceManager where
  -- The resources that a lock was made for.
  locks : List String := []
  owners : Dict String String := ∅

namespace ResourceManager

def acquire (rm : ResourceManager) (resourceId ownerId : String) : Except ResourceError (ResourceManager × Bool) :=
  let rm := if resourceId ∈ rm.locks then rm else { rm with locks := rm.locks ++ [resourceId] }
  match rm.owners.get? resourceId with
  | some owner => if owner = ownerId then .error (.alreadyHeld resourceId ownerId) else .ok (rm, false)
  | none => .ok ({ rm with owners := rm.owners.set resourceId ownerId }, true)

def release (rm : ResourceManager) (resourceId ownerId : String) : Except ResourceError ResourceManager :=
  if resourceId ∉ rm.locks then .error (.notFound resourceId)
  else if rm.owners.get? resourceId ≠ some ownerId then
    .error (.notOwner resourceId (rm.owners.get? resourceId) ownerId)
  else .ok { rm with owners := rm.owners.erase resourceId }

/-- Up to the first resource that is held by another. The flag says that there is none. -/
def acquireAll (rm : ResourceManager) (ownerId : String) :
    List String → List String → Except ResourceError (ResourceManager × List String × Bool)
  | [], acquired => .ok (rm, acquired, true)
  | resourceId :: rest, acquired => do
    let (rm, taken) ← rm.acquire resourceId ownerId
    if taken then rm.acquireAll ownerId rest (acquired ++ [resourceId]) else return (rm, acquired, false)

def releaseAll (rm : ResourceManager) (ownerId : String) (acquired : List String) :
    Except ResourceError ResourceManager :=
  acquired.foldlM (fun rm resourceId => rm.release resourceId ownerId) rm

end ResourceManager

/-! ## Decisions -/

inductive Decision where
  | pass
  | fail
  | skip
  | blocked
  | error
  | notReached
deriving DecidableEq

def Decision.status : Decision → StepStatus
  | .pass => .passed
  | .fail => .failed
  | .skip => .skipped
  | .blocked => .pending
  | .error => .error
  | .notReached => .pending

inductive Reason where
  | skipIf (expr : String)
  | loopSkipIf (expr : String)
  | precondition (failed : String) (status : Option StepStatus)
  | resources (ids : List String)
  | satisfied
  | checked
deriving DecidableEq

def statusName (status : Option StepStatus) : String := status.elim "NOT_PROCESSED" StepStatus.value

def Reason.text (reprList : List String → String) : Reason → String
  | .skipIf expr => "skip_if condition met: " ++ expr
  | .loopSkipIf expr => "Loop skip_if condition met: " ++ expr
  | .precondition failed status => "Precondition not met: '" ++ failed ++ "' (status: " ++ statusName status ++ ")"
  | .resources ids => "Resource unavailable: could not acquire all required resources " ++ reprList ids
  | .satisfied => "All preconditions and resources satisfied"
  | .checked => "All checks passed (no execution performed)"

structure StepDecision where
  stepId : String
  decision : Decision
  reason : Reason
  conditionMet : Bool
  resourcesAcquired : List String
  skipIfEvaluated : Option String
  skipIfResult : Option Bool
deriving DecidableEq

inductive DryRunError where
  | register (e : RegisterError)
  | resource (e : ResourceError)
deriving DecidableEq

structure State where
  registry : StepRegistry := {}
  resources : ResourceManager := {}
  completed : Dict String StepStatus := ∅

/-- `_update_registry_status`: a step that is not registered is registered first. -/
def State.setStatus (s : State) (stepId : String) (status : StepStatus) : Except DryRunError State :=
  match if s.registry.steps.contains stepId then .ok s.registry else s.registry.register stepId with
  | .error e => .error (.register e)
  | .ok registry => .ok { s with registry := { registry with steps := registry.steps.set stepId status } }

/-! ## Steps -/

def evaluatePreconditions (step : YamlStep) (completed : Dict String StepStatus) : Bool :=
  step.preconditions.all fun p => completed.get? p = some .passed

def findFailedPrecondition (step : YamlStep) (completed : Dict String StepStatus) : String :=
  match step.preconditions.find? fun p => completed.get? p ≠ some .passed with
  | some p => p
  | none => step.preconditions.headD ""

section

/- `VariableSpace.resolve` with `simpleeval`, for the variables that the dry run is given. -/
variable (eval : String → Option Bool)

def evaluateSkipExpression (expr : String) : Bool :=
  Evaluator.evaluateSkipCondition { evalExpression := eval, resources := some fun _ => true } expr

def evaluateSkipIf (step : YamlStep) : Option Bool :=
  (step.skipIf.filter fun expr => !isBlank expr).map (evaluateSkipExpression eval)

variable (assumePass : Bool) (step : YamlStep)

/-- Resources are taken one by one, and given back at once. -/
def checkResources (s : State) : Except DryRunError (State × List String × Bool) :=
  let taken := do
    let (rm, acquired, all) ← s.resources.acquireAll step.id step.resources.keys []
    let rm ← rm.releaseAll step.id acquired
    return ({ s with resources := rm }, acquired, all)
  taken.mapError .resource

def skipDecision : StepDecision where
  stepId := step.id
  decision := .skip
  reason := .skipIf (step.skipIf.getD "None")
  conditionMet := true
  resourcesAcquired := []
  skipIfEvaluated := step.skipIf
  skipIfResult := some true

def blockedDecision (completed : Dict String StepStatus) : StepDecision where
  stepId := step.id
  decision := .blocked
  reason :=
    .precondition (findFailedPrecondition step completed) (completed.get? (findFailedPrecondition step completed))
  conditionMet := false
  resourcesAcquired := []
  skipIfEvaluated := step.skipIf
  skipIfResult := some false

def unavailableDecision : StepDecision where
  stepId := step.id
  decision := .blocked
  reason := .resources step.resources.keys
  conditionMet := true
  resourcesAcquired := []
  skipIfEvaluated := step.skipIf
  skipIfResult := evaluateSkipIf eval step

def passDecision (acquired : List String) : StepDecision where
  stepId := step.id
  decision := .pass
  reason := if assumePass then .satisfied else .checked
  conditionMet := true
  resourcesAcquired := acquired
  skipIfEvaluated := step.skipIf
  skipIfResult := evaluateSkipIf eval step

def processStep (s : State) : Except DryRunError (State × StepDecision) :=
  if evaluateSkipIf eval step = some true then do
    let s ← s.setStatus step.id .skipped
    return (s, skipDecision step)
  else if !evaluatePreconditions step s.completed then do
    let s ← s.setStatus step.id .pending
    return (s, blockedDecision step s.completed)
  else do
    let (s, acquired, all) ← checkResources step s
    if all then
      let s ← s.setStatus step.id .passed
      return (s, passDecision eval assumePass step acquired)
    else
      let s ← s.setStatus step.id .pending
      return (s, unavailableDecision eval step)

/-! ## Loops -/

def maxWhileIterations : Int := 100

/-- A `WHILE` condition is evaluated, but one iteration is simulated either way. -/
def iterations (loop : YamlLoop) : Nat :=
  match loop.loopType with
  | .forLoop => (min (loop.count.getD 1) maxWhileIterations).toNat
  | .whileLoop | .foreachLoop => 1

/-- It keeps the preconditions of the child, which name steps of the plan. -/
def iterationStep (loopId : String) (i : Nat) (child : YamlStep) : YamlStep where
  id := loopId ++ "#" ++ toString i ++ "#" ++ child.id
  script := child.script
  params := child.params
  preconditions := child.preconditions
  resources := child.resources
  timeout := child.timeout
  retry := child.retry
  onFail := child.onFail
  exportOutputs := child.exportOutputs
  skipIf := child.skipIf
  skipReason := child.skipReason

/-- The first precondition. No decision looks at it. -/
def firstCondition (preconditions : List String) : Option Condition :=
  preconditions.head?.map fun p => { step := some p, status := some "PASSED" }

def processIteration (loopId : String) (i : Nat) (child : YamlStep) (s : State) :
    Except DryRunError (State × List StepDecision) := do
  let step := iterationStep loopId i child
  let registry ←
    if s.registry.steps.contains step.id then .ok s.registry
    else (s.registry.register step.id (firstCondition child.preconditions)).mapError .register
  let (s, decision) ← processStep eval assumePass step { s with registry }
  return ({ s with completed := s.completed.set step.id decision.decision.status }, [decision])

def runIterations (body : Nat → State → Except DryRunError (State × List StepDecision)) (n : Nat) (s : State) :
    Except DryRunError (State × List StepDecision) :=
  (List.range n).foldlM (fun acc i => do
    let (s, decisions) ← body i acc.1
    return (s, acc.2 ++ decisions)) (s, [])

/-- `_process_loop`, with what one iteration does as `body`. -/
def processLoopWith (loop : YamlLoop) (body : Nat → State → Except DryRunError (State × List StepDecision)) (s : State) :
    Except DryRunError (State × List StepDecision) :=
  match loop.skipIf.filter fun expr => !isBlank expr && evaluateSkipExpression eval expr with
  | some expr => do
    let s ← s.setStatus loop.id .skipped
    return (s, [{
      stepId := loop.id
      decision := .skip
      reason := .loopSkipIf expr
      conditionMet := true
      resourcesAcquired := []
      skipIfEvaluated := some expr
      skipIfResult := some true }])
  | none => runIterations body (iterations loop) s

mutual

def processChild (loopId : String) (i : Nat) : Item → State → Except DryRunError (State × List StepDecision)
  | .step child _, s => processIteration eval assumePass loopId i child s
  | .loop loop steps, s => processLoopWith eval loop (fun i s => processChildren loop.id i steps s) s
  | .raw _, s => .ok (s, [])

def processChildren (loopId : String) (i : Nat) : List Item → State → Except DryRunError (State × List StepDecision)
  | [], s => .ok (s, [])
  | item :: rest, s => do
    let (s, first) ← processChild loopId i item s
    let (s, others) ← processChildren loopId i rest s
    return (s, first ++ others)

end

def processLoop (loop : YamlLoop) (steps : List Item) (s : State) : Except DryRunError (State × List StepDecision) :=
  processLoopWith eval loop (fun i s => processChildren eval assumePass loop.id i steps s) s

/-! ## Plans -/

def processItem (s : State) : Item → Except DryRunError (State × List StepDecision)
  | .step step _ => do
    let (s, decision) ← processStep eval assumePass step s
    return ({ s with completed := s.completed.set step.id decision.decision.status }, [decision])
  | .loop loop steps => do
    let (s, decisions) ← processLoop eval assumePass loop steps s
    let status := if decisions.all (·.decision = .pass) then .passed else .failed
    return ({ s with completed := s.completed.set loop.id status }, decisions)
  | .raw _ => .ok (s, [])

def processItems : List Item → State → Except DryRunError (State × List StepDecision)
  | [], s => .ok (s, [])
  | item :: rest, s => do
    let (s, first) ← processItem eval assumePass s item
    let (s, others) ← processItems rest s
    return (s, first ++ others)

end

def buildStepConditions (plan : YamlPlan) : Dict String (Option Condition) :=
  (flatItems plan.steps).foldl (fun conditions item =>
    match item with
    | .step step _ => conditions.set step.id (firstCondition step.preconditions)
    | _ => conditions) ∅

def registerItem (conditions : Dict String (Option Condition)) (registry : StepRegistry) (item : Item) :
    Except RegisterError StepRegistry :=
  if registry.steps.contains item.id then .ok registry
  else match item with
    | .step step _ => registry.register step.id (conditions.getD step.id none)
    | .loop loop _ => registry.register loop.id
    | .raw _ => .ok registry

def registerSteps (plan : YamlPlan) : Except RegisterError StepRegistry :=
  (flatItems plan.steps).foldlM (registerItem (buildStepConditions plan)) {}

structure DryRunResult where
  planName : String
  planVersion : String
  decisions : List StepDecision
  totalSteps : Nat
  passed : Nat
  failed : Nat
  skipped : Nat
  blocked : Nat
  errors : Nat
  notReached : Nat
  deadlockDetected : Bool
  deadlockSteps : List String

def summarize (plan : YamlPlan) (decisions : List StepDecision) : DryRunResult :=
  let blockedSteps := (decisions.filter (·.decision = .blocked)).map StepDecision.stepId
  { planName := plan.name
    planVersion := plan.version
    decisions
    totalSteps := decisions.length
    passed := decisions.countP (·.decision = .pass)
    failed := decisions.countP (·.decision = .fail)
    skipped := decisions.countP (·.decision = .skip)
    blocked := decisions.countP (·.decision = .blocked)
    errors := decisions.countP (·.decision = .error)
    notReached := decisions.countP (·.decision = .notReached)
    deadlockDetected := 0 < blockedSteps.length
    deadlockSteps := blockedSteps }

def dryRun (eval : String → Option Bool) (assumePass : Bool) (plan : YamlPlan) : Except DryRunError DryRunResult := do
  let registry ← (registerSteps plan).mapError .register
  let (_, decisions) ← processItems eval assumePass plan.steps { registry }
  return summarize plan decisions

/-! ## Resources never block -/

namespace ResourceManager

def Free (rm : ResourceManager) : Prop := ∀ resourceId, rm.owners.get? resourceId = none

theorem acquireAll_ok {rm : ResourceManager} (ownerId : String) {ids : List String} (acquired : List String)
    (hids : ids.Nodup) (hfree : ∀ r ∈ ids, rm.owners.get? r = none) :
    ∃ rm', rm.acquireAll ownerId ids acquired = .ok (rm', acquired ++ ids, true) ∧
      (∀ r, rm'.owners.get? r = if r ∈ ids then some ownerId else rm.owners.get? r) ∧ rm.locks ⊆ rm'.locks ∧
        ids ⊆ rm'.locks := by
  induction ids generalizing rm acquired with
  | nil => exact ⟨rm, by simp [acquireAll], by simp, List.Subset.refl _, nil_subset _⟩
  | cons id ids ih =>
    obtain ⟨hnot, hids⟩ := nodup_cons.mp hids
    obtain ⟨hid, hfree⟩ := forall_mem_cons.mp hfree
    have hacquire : ∃ locks, rm.acquire id ownerId = .ok (⟨locks, rm.owners.set id ownerId⟩, true) ∧
        rm.locks ⊆ locks ∧ id ∈ locks := by
      unfold acquire
      by_cases hlock : id ∈ rm.locks
      · exact ⟨rm.locks, by simp [hlock, hid], List.Subset.refl _, hlock⟩
      · exact ⟨rm.locks ++ [id], by simp [hlock, hid], subset_append_left _ _, by simp⟩
    obtain ⟨locks, hacquire, hlocks, hlock⟩ := hacquire
    have hfree' : ∀ r ∈ ids, (rm.owners.set id ownerId).get? r = none := by
      intro r hr
      rw [Dict.get?_set_of_ne _ _ (ne_of_mem_of_not_mem hr hnot)]
      exact hfree r hr
    obtain ⟨rm', hall, howners, hsub, hin⟩ := @ih ⟨locks, rm.owners.set id ownerId⟩ (acquired ++ [id]) hids hfree'
    refine ⟨rm', ?_, fun r => ?_, fun r hr => hsub (hlocks hr), cons_subset.mpr ⟨hsub hlock, hin⟩⟩
    · simpa [acquireAll, hacquire, bind, Except.bind] using hall
    · rw [howners, Dict.get?_set]
      by_cases hr : r = id <;> by_cases hr' : r ∈ ids <;> simp [hr, hr']

theorem releaseAll_ok {rm : ResourceManager} {ownerId : String} {ids : List String} (hids : ids.Nodup)
    (hheld : ∀ r ∈ ids, rm.owners.get? r = some ownerId) (hlocks : ids ⊆ rm.locks) :
    ∃ rm', rm.releaseAll ownerId ids = .ok rm' ∧
      ∀ r, rm'.owners.get? r = if r ∈ ids then none else rm.owners.get? r := by
  induction ids generalizing rm with
  | nil => exact ⟨rm, rfl, by simp⟩
  | cons id ids ih =>
    obtain ⟨hnot, hids⟩ := nodup_cons.mp hids
    obtain ⟨hid, hheld⟩ := forall_mem_cons.mp hheld
    obtain ⟨hlock, hlocks⟩ := cons_subset.mp hlocks
    have hrelease : rm.release id ownerId = .ok { rm with owners := rm.owners.erase id } := by
      simp [release, hlock, hid]
    have hheld' : ∀ r ∈ ids, (rm.owners.erase id).get? r = some ownerId := by
      intro r hr
      rw [Dict.get?_erase, if_neg (ne_of_mem_of_not_mem hr hnot)]
      exact hheld r hr
    obtain ⟨rm', hall, howners⟩ := @ih { rm with owners := rm.owners.erase id } hids hheld' hlocks
    refine ⟨rm', ?_, fun r => ?_⟩
    · simpa [releaseAll, hrelease, bind, Except.bind] using hall
    · rw [howners, Dict.get?_erase]
      by_cases hr : r = id <;> by_cases hr' : r ∈ ids <;> simp [hr, hr']

end ResourceManager

variable {s : State}

theorem checkResources_ok (step : YamlStep) (hfree : s.resources.Free) :
    ∃ rm : ResourceManager, checkResources step s = .ok ({ s with resources := rm }, step.resources.keys, true) ∧
      rm.Free := by
  have hkeys : step.resources.keys.Nodup := step.resources.nodup
  obtain ⟨rm, hacquire, howners, -, hlocks⟩ :=
    ResourceManager.acquireAll_ok step.id [] hkeys fun r _ => hfree r
  obtain ⟨rm', hrelease, howners'⟩ :=
    ResourceManager.releaseAll_ok hkeys (fun r hr => by rw [howners, if_pos hr]) hlocks
  refine ⟨rm', ?_, fun r => ?_⟩
  · simp [checkResources, hacquire, hrelease, bind, Except.bind, Except.mapError, pure, Except.pure]
  · rw [howners', howners, hfree r]
    simp

/-! ## Plans of steps -/

section Plans

variable (eval : String → Option Bool) (assumePass : Bool)

def decisionFor (completed : Dict String StepStatus) (step : YamlStep) : StepDecision :=
  if evaluateSkipIf eval step = some true then skipDecision step
  else if !evaluatePreconditions step completed then blockedDecision step completed
  else passDecision eval assumePass step step.resources.keys

def decisionsFrom (completed : Dict String StepStatus) : List YamlStep → List StepDecision
  | [] => []
  | step :: rest =>
    let decision := decisionFor eval assumePass completed step
    decision :: decisionsFrom (completed.set step.id decision.decision.status) rest

structure Prepared (steps : List YamlStep) (s : State) : Prop where
  free : s.resources.Free
  registered : ∀ step ∈ steps, s.registry.steps.contains step.id = true

theorem setStatus_ok {id : String} (h : s.registry.steps.contains id = true) (status : StepStatus) :
    s.setStatus id status = .ok { s with registry := { s.registry with steps := s.registry.steps.set id status } } := by
  simp [State.setStatus, h]

theorem contains_set {ν : Type} {d : Dict String ν} {id : String} (h : d.contains id = true) (id' : String) (v : ν) :
    (d.set id' v).contains id = true := by
  rw [Dict.contains, Dict.get?_set]
  split
  · rfl
  · exact h

variable {steps : List YamlStep}

theorem processStep_ok {step : YamlStep} (h : Prepared steps s) (hstep : step ∈ steps) :
    ∃ s', processStep eval assumePass step s = .ok (s', decisionFor eval assumePass s.completed step) ∧
      Prepared steps s' ∧ s'.completed = s.completed := by
  have hcontains := h.registered step hstep
  unfold processStep decisionFor
  split
  · rw [setStatus_ok hcontains]
    exact ⟨_, rfl, ⟨h.free, fun x hx => contains_set (h.registered x hx) _ _⟩, rfl⟩
  split
  · rw [setStatus_ok hcontains]
    exact ⟨_, rfl, ⟨h.free, fun x hx => contains_set (h.registered x hx) _ _⟩, rfl⟩
  · obtain ⟨rm, hresources, hfree⟩ := checkResources_ok step h.free
    have hset := @setStatus_ok { s with resources := rm } step.id hcontains .passed
    have hprepared : Prepared steps { s with
        resources := rm
        registry := { s.registry with steps := s.registry.steps.set step.id .passed } } :=
      ⟨hfree, fun x hx => contains_set (h.registered x hx) step.id .passed⟩
    refine ⟨_, ?_, hprepared, rfl⟩
    simp [hresources, hset, bind, Except.bind, pure, Except.pure]

theorem processItems_leaves (h : Prepared steps s) :
    ∃ s', processItems eval assumePass (steps.map Item.leaf) s =
      .ok (s', decisionsFrom eval assumePass s.completed steps) := by
  induction steps generalizing s with
  | nil => exact ⟨s, rfl⟩
  | cons step rest ih =>
    obtain ⟨s', hstep, hprepared, hcompleted⟩ := processStep_ok eval assumePass h mem_cons_self
    obtain ⟨s'', hrest⟩ := @ih { s' with
      completed := s'.completed.set step.id (decisionFor eval assumePass s.completed step).decision.status }
      ⟨hprepared.free, fun x hx => hprepared.registered x (mem_cons_of_mem _ hx)⟩
    refine ⟨s'', ?_⟩
    rw [hcompleted] at hrest
    simp [processItems, processItem, hstep, hcompleted, hrest, decisionsFrom, bind, Except.bind, pure, Except.pure]

theorem flatItems_leaves (steps : List YamlStep) : flatItems (steps.map Item.leaf) = steps.map Item.leaf := by
  induction steps with
  | nil => rfl
  | cons step rest ih => simp [flatItems, Bootstrap.flatItem, ih]

theorem foldlM_registerItem_ok (conditions : Dict String (Option Condition))
    (hblank : ∀ step ∈ steps, isBlank step.id = false) (reg : StepRegistry) :
    ∃ reg', (steps.map Item.leaf).foldlM (registerItem conditions) reg = .ok reg' ∧
      (∀ id, reg.steps.contains id = true → reg'.steps.contains id = true) ∧
        ∀ step ∈ steps, reg'.steps.contains step.id = true := by
  induction steps generalizing reg with
  | nil => exact ⟨reg, rfl, fun _ h => h, by simp⟩
  | cons step rest ih =>
    obtain ⟨hstep, hrest⟩ := forall_mem_cons.mp hblank
    have hitem : ∃ reg', registerItem conditions reg (Item.leaf step) = .ok reg' ∧
        (∀ id, reg.steps.contains id = true → reg'.steps.contains id = true) ∧
          reg'.steps.contains step.id = true := by
      unfold registerItem
      cases hcontains : reg.steps.contains step.id with
      | true => exact ⟨reg, by simp [Item.id, hcontains], fun _ h => h, hcontains⟩
      | false =>
        have hregister : ∃ reg', reg.register step.id (conditions.getD step.id none) = .ok reg' := by
          simp [StepRegistry.register, hstep, hcontains]
        obtain ⟨reg', hreg'⟩ := hregister
        have hsteps := (StepRegistry.register_ok hreg').2.1
        refine ⟨reg', by simp [Item.id, hcontains, hreg'], fun id h => hsteps ▸ contains_set h _ _, ?_⟩
        simp [hsteps, Dict.contains]
    obtain ⟨reg₁, hreg₁, hkept₁, hin₁⟩ := hitem
    obtain ⟨reg', hreg', hkept, hin⟩ := ih hrest reg₁
    refine ⟨reg', ?_, fun id h => hkept id (hkept₁ id h), forall_mem_cons.mpr ⟨hkept _ hin₁, hin⟩⟩
    rw [map_cons, foldlM_cons, hreg₁]
    exact hreg'

theorem dryRun_leaves {plan : YamlPlan} (hplan : plan.steps = steps.map Item.leaf)
    (hblank : ∀ step ∈ steps, isBlank step.id = false) :
    dryRun eval assumePass plan = .ok (summarize plan (decisionsFrom eval assumePass ∅ steps)) := by
  obtain ⟨reg, hreg, -, hregistered⟩ := foldlM_registerItem_ok (buildStepConditions plan) hblank {}
  have hregister : registerSteps plan = .ok reg := by rw [registerSteps, hplan, flatItems_leaves, hreg]
  have hprepared : Prepared steps { registry := reg } := ⟨fun _ => rfl, hregistered⟩
  obtain ⟨s, hitems⟩ := processItems_leaves eval assumePass hprepared
  simp [dryRun, hregister, hplan, hitems, bind, Except.bind, Except.mapError, pure, Except.pure]

end Plans

end AteStudio.DryRun
