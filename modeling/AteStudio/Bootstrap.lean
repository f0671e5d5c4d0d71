import AteStudio.Dsl
import AteStudio.Registry
import AteStudio.Lib.Except
import AteStudio.Lib.Tally

/-!
# Booting a plan (`PlanBootstrapper` in `scheduler/jetstream_worker.py`)

The plan is flattened into one condition for each step and loop.
-/

namespace AteStudio.Bootstrap

open List Evaluator StepRegistry

/-! ## The bootstrapper -/

structure StepPosition where
  parent : Option String
  order : Nat
  depth : Nat
deriving DecidableEq

inductive BootstrapError where
  | recursionError
  | valueError (e : StepRegistry.RegisterError)
  | attributeError
deriving DecidableEq

def maxRecursionDepth : Nat := 10

def BootstrapError.message : BootstrapError → String
  | .recursionError => "YamlLoop nesting exceeds max depth " ++ toString maxRecursionDepth
  | .valueError e => e.message
  | .attributeError => "'dict' object has no attribute 'id'"

def stepCondition (step : YamlStep) : Option Condition :=
  match step.skipIf, step.preconditions with
  | some expr, _ => some { expression := some expr }
  | none, first :: _ => some { step := some first, status := some "PASSED" }
  | none, [] => none

def loopCondition (loop : YamlLoop) : Option Condition :=
  match loop.skipIf with
  | some expr => some { expression := some expr }
  | none => none

structure FlatStep where
  id : String
  condition : Option Condition
  position : StepPosition

def checkDepth (depth : Nat) : Except BootstrapError Unit :=
  if maxRecursionDepth < depth then .error .recursionError else .ok ()

mutual

def flattenItem : Item → Nat → Nat → Option String → Except BootstrapError (List FlatStep)
  | .step s _, order, depth, parent => .ok [⟨s.id, stepCondition s, parent, order, depth⟩]
  | .loop l steps, order, depth, parent => do
    checkDepth (depth + 1)
    let nested ← flattenFrom steps 0 (depth + 1) (some l.id)
    return ⟨l.id, loopCondition l, parent, order, depth⟩ :: nested
  | .raw _, _, _, _ => .error .attributeError

def flattenFrom : List Item → Nat → Nat → Option String → Except BootstrapError (List FlatStep)
  | [], _, _, _ => .ok []
  | item :: rest, order, depth, parent => do
    let first ← flattenItem item order depth parent
    let others ← flattenFrom rest (order + 1) depth parent
    return first ++ others

end

def flatten (plan : YamlPlan) : Except BootstrapError (List FlatStep) := do
  checkDepth 0
  flattenFrom plan.steps 0 0 none

def registerAll : List FlatStep → StepRegistry → Except BootstrapError StepRegistry
  | [], reg => .ok reg
  | f :: rest, reg =>
    if reg.steps.contains f.id then
      registerAll rest reg
    else
      match reg.register f.id f.condition with
      | .ok reg => registerAll rest reg
      | .error e => throw (.valueError e)

def setSkipCondition (id : String) (skipIf skipReason : Option String)
    (result : Dict String (String × Option String)) : Dict String (String × Option String) :=
  match skipIf with
  | some expr => result.set id (expr, skipReason)
  | none => result

mutual

def collectSkipCondition : Item → Dict String (String × Option String) → Dict String (String × Option String)
  | .step s _, result => setSkipCondition s.id s.skipIf s.skipReason result
  | .loop l steps, result => collectSkipConditions steps (setSkipCondition l.id l.skipIf l.skipReason result)
  | .raw _, result => result

def collectSkipConditions : List Item → Dict String (String × Option String) → Dict String (String × Option String)
  | [], result => result
  | item :: rest, result => collectSkipConditions rest (collectSkipCondition item result)

end

structure Booted where
  registry : StepRegistry
  -- What `compile_plan` builds its index from.
  compiled : List (String × Option Condition)
  positions : Dict String StepPosition
  skipConditions : Dict String (String × Option String)

def bootstrap (plan : YamlPlan) : Except BootstrapError Booted := do
  let steps ← flatten plan
  let registry ← registerAll steps {}
  return {
    registry
    compiled := steps.map fun f => (f.id, f.condition)
    positions := steps.foldl (fun positions f => positions.set f.id f.position) ∅
    skipConditions := collectSkipConditions plan.steps ∅ }

/-! ## What is registered -/

mutual

def flatItem : Item → List Item
  | .loop l steps => .loop l steps :: flatItems steps
  | .step s steps => [.step s steps]
  | .raw entry => [.raw entry]

def flatItems : List Item → List Item
  | [] => []
  | item :: rest => flatItem item ++ flatItems rest

end

def itemCondition : Item → Option Condition
  | .step s _ => stepCondition s
  | .loop l _ => loopCondition l
  | .raw _ => none

def preconditions : Item → List String
  | .step s _ => s.preconditions
  | _ => []

def skipIf : Item → Option String
  | .step s _ => s.skipIf
  | .loop l _ => l.skipIf
  | .raw _ => none

theorem flattenFrom_ok {items : List Item} {order depth : Nat} {parent : Option String} {r : List FlatStep}
    (h : flattenFrom items order depth parent = .ok r) :
    r.map (fun f => (f.id, f.condition)) = (flatItems items).map fun i => (i.id, itemCondition i) := by
  induction items using Item.list_induction generalizing order depth parent r with
  | nil =>
    cases h
    rfl
  | step s steps items _ ih =>
    obtain ⟨first, hfirst, h⟩ := bind_eq_ok.mp h
    obtain ⟨others, hothers, h⟩ := bind_eq_ok.mp h
    cases hfirst
    cases h
    simp [flatItems, flatItem, ih hothers, Item.id, itemCondition]
  | loop l steps items ihs ih =>
    obtain ⟨first, hfirst, h⟩ := bind_eq_ok.mp h
    obtain ⟨others, hothers, h⟩ := bind_eq_ok.mp h
    obtain ⟨_, _, hfirst⟩ := bind_eq_ok.mp hfirst
    obtain ⟨nested, hnested, hfirst⟩ := bind_eq_ok.mp hfirst
    cases hfirst
    cases h
    simp [flatItems, flatItem, ih hothers, ihs hnested, Item.id, itemCondition]
  | raw entry items _ =>
    obtain ⟨first, hfirst, _⟩ := bind_eq_ok.mp h
    cases hfirst

section

variable {reg' reg : StepRegistry} {l : List FlatStep}

/-- What registering the steps one by one can do. -/
inductive Registers (reg' : StepRegistry) : List FlatStep → StepRegistry → Prop
  | nil : Registers reg' [] reg'
  | known {f rest reg} : reg.steps.contains f.id = true → Registers reg' rest reg → Registers reg' (f :: rest) reg
  | new {f rest reg reg₁} : reg.register f.id f.condition = .ok reg₁ → Registers reg' rest reg₁ →
      Registers reg' (f :: rest) reg

theorem registers_of_registerAll (h : registerAll l reg = .ok reg') : Registers reg' l reg := by
  induction l generalizing reg with
  | nil =>
    cases h
    exact .nil
  | cons f rest ih =>
    unfold registerAll at h
    split at h
    · next hcontains => exact .known hcontains (ih h)
    split at h
    · next hreg => exact .new hreg (ih h)
    · cases h

theorem Registers.ok (h : Registers reg' l reg) (hd : (l.map FlatStep.id).Nodup)
    (hnew : ∀ f ∈ l, reg.steps.get? f.id = none ∧ reg.conditions.get? f.id = none) :
    (∀ f ∈ l, reg'.steps.get? f.id = some .pending ∧ reg'.conditions.get? f.id = f.condition) ∧
      ∀ k, k ∉ l.map FlatStep.id → reg'.steps.get? k = reg.steps.get? k ∧
        reg'.conditions.get? k = reg.conditions.get? k := by
  induction h with
  | nil => simp
  | @known f rest reg hcontains _ ih =>
    rw [Dict.contains, (hnew f mem_cons_self).1] at hcontains
    cases hcontains
  | @new f rest reg reg₁ hreg _ ih =>
    obtain ⟨hf, hrest⟩ := nodup_cons.mp hd
    obtain ⟨-, hsteps, -, hconds⟩ := register_ok hreg
    have hother (k : String) (hk : k ≠ f.id) :
        reg₁.steps.get? k = reg.steps.get? k ∧ reg₁.conditions.get? k = reg.conditions.get? k := by
      rw [hsteps, Dict.get?_set_of_ne _ _ hk, hconds, if_neg hk]
      exact ⟨rfl, rfl⟩
    obtain ⟨hin, hout⟩ := ih hrest fun g hg => by
      obtain ⟨hs, hc⟩ := hother g.id fun he => hf (he ▸ mem_map_of_mem hg)
      rw [hs, hc]
      exact hnew g (mem_cons_of_mem _ hg)
    refine ⟨forall_mem_cons.mpr ⟨?_, hin⟩, fun k hk => ?_⟩
    · rw [(hout f.id hf).1, (hout f.id hf).2, hsteps, hconds, (hnew f mem_cons_self).2]
      simp
    · simp only [map_cons, mem_cons, not_or] at hk
      rw [(hout k hk.2).1, (hout k hk.2).2]
      exact hother k hk.1

theorem Registers.pending (h : Registers reg' l reg)
    (hreg : ∀ id status, reg.steps.get? id = some status → status = .pending) :
    ∀ id status, reg'.steps.get? id = some status → status = .pending := by
  induction h with
  | nil => exact hreg
  | known _ _ ih => exact ih hreg
  | new hreg₁ _ ih =>
    refine ih fun id status hstatus => ?_
    rw [(register_ok hreg₁).2.1, Dict.get?_set] at hstatus
    split at hstatus
    · exact (Option.some.inj hstatus).symm
    · exact hreg id status hstatus

theorem Registers.configs (h : Registers reg' l reg) : reg'.configs = reg.configs := by
  induction h with
  | nil => rfl
  | known _ _ ih => exact ih
  | new hreg _ ih => rw [ih, (register_ok hreg).2.2.1]

theorem Registers.nonBlank (h : Registers reg' l reg)
    (hreg : ∀ id, reg.steps.contains id = true → isBlank id = false) : ∀ f ∈ l, isBlank f.id = false := by
  induction h with
  | nil => simp
  | known hcontains _ ih => exact forall_mem_cons.mpr ⟨hreg _ hcontains, ih hreg⟩
  | new hreg₁ _ ih =>
    obtain ⟨hf, hsteps, -, -⟩ := register_ok hreg₁
    refine forall_mem_cons.mpr ⟨hf, ih fun id hid => ?_⟩
    rw [Dict.contains, hsteps, Dict.get?_set] at hid
    split at hid
    · next heq => exact heq ▸ hf
    · exact hreg id hid

end

section

variable {plan : YamlPlan} {booted : Booted} (h : bootstrap plan = .ok booted)

include h

theorem bootstrap_registers : ∃ steps, Registers booted.registry steps {} ∧
    steps.map FlatStep.id = (flatItems plan.steps).map Item.id ∧
      ∀ item ∈ flatItems plan.steps, ∃ f ∈ steps, f.id = item.id ∧ f.condition = itemCondition item := by
  obtain ⟨steps, hsteps, h⟩ := bind_eq_ok.mp h
  obtain ⟨reg, hreg, h⟩ := bind_eq_ok.mp h
  cases h
  obtain ⟨_, _, hsteps⟩ := bind_eq_ok.mp hsteps
  have hflat := flattenFrom_ok hsteps
  refine ⟨steps, registers_of_registerAll hreg, ?_, fun item hitem => ?_⟩
  · simpa [Function.comp_def] using congrArg (List.map Prod.fst) hflat
  · have hmem : (item.id, itemCondition item) ∈ steps.map fun f => (f.id, f.condition) :=
      hflat ▸ mem_map_of_mem hitem
    obtain ⟨f, hf, heq⟩ := mem_map.mp hmem
    exact ⟨f, hf, Prod.mk.inj heq⟩

theorem bootstrap_ok (hd : ((flatItems plan.steps).map Item.id).Nodup) :
    (∀ item ∈ flatItems plan.steps, booted.registry.steps.get? item.id = some .pending ∧
        booted.registry.conditions.get? item.id = itemCondition item) ∧
      ∀ k, k ∉ (flatItems plan.steps).map Item.id → booted.registry.steps.get? k = none ∧
        booted.registry.conditions.get? k = none := by
  obtain ⟨steps, hreg, hids, hflat⟩ := bootstrap_registers h
  obtain ⟨hin, hout⟩ := hreg.ok (hids ▸ hd) fun f _ => ⟨rfl, rfl⟩
  refine ⟨fun item hitem => ?_, fun k hk => hout k (hids ▸ hk)⟩
  obtain ⟨f, hf, hid, hcond⟩ := hflat item hitem
  rw [← hid, ← hcond]
  exact hin f hf

theorem bootstrap_pending : ∀ id status, booted.registry.steps.get? id = some status → status = .pending := by
  obtain ⟨_, hreg, -⟩ := bootstrap_registers h
  exact hreg.pending fun _ _ hnone => by cases hnone

theorem bootstrap_registry :
    booted.registry.configs = ∅ ∧ ∀ item ∈ flatItems plan.steps, isBlank item.id = false := by
  obtain ⟨steps, hreg, -, hflat⟩ := bootstrap_registers h
  refine ⟨hreg.configs, fun item hitem => ?_⟩
  obtain ⟨f, hf, hid, -⟩ := hflat item hitem
  rw [← hid]
  exact hreg.nonBlank (fun _ hcontains => by cases hcontains) f hf

end

/-! ## Skip conditions -/

def skipReason : Item → Option String
  | .step s _ => s.skipReason
  | .loop l _ => l.skipReason
  | .raw _ => none

theorem collectSkipConditions_flat (items : List Item) (result : Dict String (String × Option String)) :
    collectSkipConditions items result = (flatItems items).foldl
      (fun result item => setSkipCondition item.id (skipIf item) (skipReason item) result) result := by
  induction items using Item.list_induction generalizing result with
  | nil => rfl
  | step s steps items _ ih => exact ih _
  | loop l steps items ihs ih =>
    rw [flatItems, flatItem, cons_append, foldl_cons, foldl_append, ← ihs, ← ih]
    rfl
  | raw entry items ih => exact ih _

theorem bootstrap_skipConditions {plan : YamlPlan} {booted : Booted} (h : bootstrap plan = .ok booted) (hd : ((flatItems plan.steps).map Item.id).Nodup) :
    ∀ item ∈ flatItems plan.steps, (booted.skipConditions.get? item.id).map Prod.fst = skipIf item := by
  obtain ⟨_, _, h⟩ := bind_eq_ok.mp h
  obtain ⟨_, _, h⟩ := bind_eq_ok.mp h
  cases h
  intro item hitem
  rw [collectSkipConditions_flat]
  let read (result : Dict String (String × Option String)) (id : String) := (result.get? id).map Prod.fst
  have hself (result : Dict String (String × Option String)) (item : Item) (hnone : read result item.id = none) :
      read (setSkipCondition item.id (skipIf item) (skipReason item) result) item.id = skipIf item := by
    unfold setSkipCondition
    split
    · next heq => simp [read, heq]
    · next heq => rw [hnone, heq]
  have hother (result : Dict String (String × Option String)) (item : Item) (id : String) (hid : id ≠ item.id) :
      read (setSkipCondition item.id (skipIf item) (skipReason item) result) id = read result id := by
    unfold setSkipCondition
    split
    · exact congrArg (Option.map Prod.fst) (Dict.get?_set_of_ne _ _ hid)
    · rfl
  exact Dict.foldl_distinct read hself hother hd hitem rfl

/-! ## Readiness -/

def withStatuses (reg : StepRegistry) (status : String → StepStatus) : StepRegistry :=
  { reg with steps := reg.steps.mapVals fun id _ => status id }

def Satisfied (reg : StepRegistry) (id : String) : Prop :=
  reg.steps.get? id = some .passed ∨ reg.steps.get? id = some .skipped

instance (reg : StepRegistry) : DecidablePred (Satisfied reg) := fun _ =>
  inferInstanceAs (Decidable (_ ∨ _))

def Met (reg : StepRegistry) (item : Item) : Prop :=
  ∀ d ∈ preconditions item ++ item.dependsOn, Satisfied reg d

/-- The one condition that is registered for the item says the same as its dependencies. -/
def Faithful (e : Evaluator) (reg : StepRegistry) (item : Item) : Prop :=
  match skipIf item with
  | some expr => e.evalExpression expr = some true ↔ Met reg item
  | none => (∀ p, (preconditions item).head? = some p → Satisfied reg p) → Met reg item

theorem evaluate_expression (e : Evaluator) (steps : Dict String StepStatus) (expr : String) :
    e.evaluate steps { expression := some expr } = some (decide (e.evalExpression expr = some true)) := by
  cases h : e.evalExpression expr with
  | none => simp [evaluate, stepResults, expressionResults, resourceResults, h]
  | some b => cases b <;>
    simp [evaluate, stepResults, expressionResults, resourceResults, h]

theorem evaluate_passed (e : Evaluator) (reg : StepRegistry) (p : String) :
    e.evaluate reg.steps { step := some p, status := some "PASSED" } = some (decide (Satisfied reg p)) := by
  have hname : StepStatus.ofName? "PASSED" = some .passed := by decide
  cases h : reg.steps.get? p with
  | none =>
    simp [evaluate, stepResults, expressionResults, resourceResults, h, Satisfied]
  | some st => cases st <;>
    simp [evaluate, stepResults, expressionResults, resourceResults, h, Satisfied, hname]

section Ready

variable {plan : YamlPlan} {booted : Booted} (hd : ((flatItems plan.steps).map Item.id).Nodup)
  (hb : bootstrap plan = .ok booted) (status : String → StepStatus) (e : Evaluator)

theorem evaluate_itemCondition {item : Item} {c : Condition} (h : itemCondition item = some c) (reg : StepRegistry) :
    (∃ expr, skipIf item = some expr ∧
        e.evaluate reg.steps c = some (decide (e.evalExpression expr = some true))) ∨
      ∃ p, skipIf item = none ∧ (preconditions item).head? = some p ∧
        e.evaluate reg.steps c = some (decide (Satisfied reg p)) := by
  cases item with
  | step s steps =>
    simp only [itemCondition, stepCondition] at h
    cases hs : s.skipIf with
    | some expr =>
      rw [hs] at h
      cases h
      exact .inl ⟨expr, hs, evaluate_expression e reg.steps expr⟩
    | none =>
      rw [hs] at h
      split at h
      · contradiction
      · next p _ _ hp =>
        cases h
        exact .inr ⟨p, hs, by simp [preconditions, hp], evaluate_passed e reg p⟩
      · cases h
  | loop l steps =>
    simp only [itemCondition, loopCondition] at h
    split at h
    · next expr hs =>
      cases h
      exact .inl ⟨expr, hs, evaluate_expression e reg.steps expr⟩
    · cases h
  | raw entry => cases h

theorem itemCondition_eq_none {item : Item} (h : itemCondition item = none) :
    skipIf item = none ∧ preconditions item = [] := by
  cases item with
  | step s steps =>
    simp only [itemCondition, stepCondition] at h
    split at h <;> simp_all [skipIf, preconditions]
  | loop l steps =>
    simp only [itemCondition, loopCondition] at h
    split at h <;> simp_all [skipIf, preconditions]
  | raw entry => exact ⟨rfl, rfl⟩

include hd hb in
theorem getReadySteps_booted : ∃ ready, (withStatuses booted.registry status).getReadySteps e = some ready := by
  obtain ⟨hin, hout⟩ := bootstrap_ok hb hd
  apply getReadySteps_isSome
  intro c hc
  obtain ⟨⟨k, c⟩, hmem, rfl⟩ := mem_map.mp hc
  have hget := (Dict.get?_eq_some_iff _ _ _).mpr hmem
  by_cases hk : k ∈ (flatItems plan.steps).map Item.id
  · obtain ⟨item, hitem, rfl⟩ := mem_map.mp hk
    have hcond : itemCondition item = some c := by
      rw [← (hin item hitem).2]
      exact hget
    rcases evaluate_itemCondition e hcond (withStatuses booted.registry status) with ⟨_, _, h⟩ | ⟨_, _, _, h⟩ <;>
      simp [h]
  · have hnone : booted.registry.conditions.get? k = some c := hget
    rw [(hout k hk).2] at hnone
    cases hnone

include hd hb in
/-- Ready means pending with met dependencies, exactly if the registered condition is faithful to them. -/
theorem ready_iff : ∃ ready, (withStatuses booted.registry status).getReadySteps e = some ready ∧
    ∀ item ∈ flatItems plan.steps,
      ((item.id ∈ ready ↔ status item.id = .pending ∧ Met (withStatuses booted.registry status) item) ↔
        (status item.id = .pending → Faithful e (withStatuses booted.registry status) item)) := by
  obtain ⟨ready, hready⟩ := getReadySteps_booted hd hb status e
  refine ⟨ready, hready, ?_⟩
  intro item hitem
  obtain ⟨hstep, hcond⟩ := (bootstrap_ok hb hd).1 item hitem
  have hstatus : (withStatuses booted.registry status).steps.get? item.id = some (status item.id) := by
    simp [withStatuses, Dict.get?_mapVals, hstep]
  have hcond' : (withStatuses booted.registry status).conditions.get? item.id = itemCondition item := hcond
  generalize withStatuses booted.registry status = reg at hready hstatus hcond' ⊢
  rw [StepRegistry.mem_getReadySteps hready, hstatus, Option.some.injEq]
  by_cases hp : status item.id = .pending
  swap
  · simp [hp]
  simp only [hp, true_and, true_implies, StepRegistry.isReady, ne_eq, not_true_eq_false, if_false, hcond']
  unfold Faithful
  cases hc : itemCondition item with
  | none =>
    obtain ⟨hs, hpre⟩ := itemCondition_eq_none hc
    simp [hs, hpre]
  | some c =>
    rcases evaluate_itemCondition e hc reg with ⟨expr, hs, heval⟩ | ⟨p, hs, hpre, heval⟩
    · simp [hs, heval]
    · have hmem : p ∈ preconditions item ++ item.dependsOn :=
        List.mem_append_left _ (List.mem_of_mem_head? hpre)
      have himp : Met reg item → Satisfied reg p := fun hmet => hmet p hmem
      simp only [hs, hpre, heval, Option.some.injEq, decide_eq_true_eq, forall_eq']
      exact ⟨fun h => h.mp, fun h => ⟨h, himp⟩⟩

end Ready

/-! ## Two plans -/

def literals : Evaluator where
  evalExpression := fun expr => if expr = "True" then some true else if expr = "False" then some false else none
  resources := none

def chainPlan : YamlPlan :=
  { name := "plan", version := "1", steps := [
    .leaf { id := "a" },
    .loop { id := "L", loopType := .forLoop, count := some 2 } [.leaf { id := "b", preconditions := ["a"] }]] }

theorem ready_iff_chainPlan : ∃ booted, bootstrap chainPlan = .ok booted ∧
    ∃ ready, (withStatuses booted.registry fun _ => .pending).getReadySteps literals = some ready ∧
      ∀ item ∈ flatItems chainPlan.steps,
        ((item.id ∈ ready ↔ StepStatus.pending = .pending ∧
            Met (withStatuses booted.registry fun _ => .pending) item) ↔
          (StepStatus.pending = .pending →
            Faithful literals (withStatuses booted.registry fun _ => .pending) item)) :=
  ⟨_, rfl, ready_iff (by decide) rfl (fun _ => .pending) literals⟩

def joinStep : YamlStep := { id := "c", preconditions := ["a", "b"] }

def skippableStep : YamlStep := { id := "d", skipIf := some "False" }

def joinPlan : YamlPlan :=
  { name := "plan", version := "1",
    steps := [.leaf { id := "a" }, .leaf { id := "b" }, .leaf joinStep, .leaf skippableStep] }

def afterA (id : String) : StepStatus := if id = "a" then .passed else .pending

/-- `c` is ready before `b` has run, and `d`, which waits for nothing, is not. -/
theorem not_ready_joinPlan : ((flatItems joinPlan.steps).map Item.id).Nodup ∧
    ∃ booted ready, bootstrap joinPlan = .ok booted ∧
      (withStatuses booted.registry afterA).getReadySteps literals = some ready ∧
      ("c" ∈ ready ∧ ¬ Met (withStatuses booted.registry afterA) (.leaf joinStep)) ∧
      ("d" ∉ ready ∧ Met (withStatuses booted.registry afterA) (.leaf skippableStep)) := by
  refine ⟨by decide, _, ["b", "c"], rfl, rfl, ⟨by decide, ?_⟩, by decide, ?_⟩
  · intro hmet
    exact absurd (hmet "b" (by decide)) (by decide)
  · intro d hd
    cases hd

end AteStudio.Bootstrap
