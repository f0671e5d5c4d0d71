import AteStudio.Lib.Splits
import AteStudio.Scheduler.Passing
import AteStudio.Simulation.DryRun
import AteStudio.Worker.Code

/-!
# What a dry run says about production

The dry run asks for all preconditions, in the order of the plan. The scheduler of the booted plan asks for the first one
only, at any time.
-/

namespace AteStudio.DryRun

open List Option Bootstrap Item

open Bootstrap (bootstrap Booted flatItems)
open AteStudio.Splits (AtEach)
open Scheduler (Boots HasStarted OnPlan PassingMove Skips Starts hasStarted_iff)

def Passed (decisions : List StepDecision) (id : String) : Prop := ∃ d ∈ decisions, d.stepId = id ∧ d.decision = .pass

def RespectsPreconditions (steps : List YamlStep) (decisions : List StepDecision) : Prop :=
  ∀ i step d, steps[i]? = some step → decisions[i]? = some d → d.decision = .pass →
    ∀ p ∈ step.preconditions, Passed (decisions.take i) p

/-- The dry run executes what production starts, in an order that the preconditions allow. -/
def Predicts (steps : List YamlStep) (decisions : List StepDecision) (log : List Scheduler.Obs) : Prop :=
  (∀ id, Passed decisions id ↔ HasStarted log id) ∧ RespectsPreconditions steps decisions

/-- What starts is what is not skipped and has all its preconditions among what starts earlier in the plan. -/
def Settled (eval : String → Option Bool) (starts : String → Prop) (before : List YamlStep) (step : YamlStep) : Prop :=
  starts step.id ↔ ¬ Skips eval (.leaf step) ∧ ∀ p ∈ step.preconditions, ∃ q ∈ before, q.id = p ∧ starts p

/-- A step, after those before it, with what production starts of the plan. -/
def Predictable (eval : String → Option Bool) (steps before : List YamlStep) (step : YamlStep) : Prop :=
  Settled eval (Starts eval (steps.map leaf)) before step

/-! ## Decisions -/

section Decisions

variable {eval : String → Option Bool} {assumePass : Bool} {completed : Dict String StepStatus} {steps : List YamlStep}
  {step : YamlStep}

theorem decisionFor_stepId : (decisionFor eval assumePass completed step).stepId = step.id := by
  unfold decisionFor
  split
  · rfl
  split <;> rfl

theorem decisionFor_pass : (decisionFor eval assumePass completed step).decision = .pass ↔
    evaluateSkipIf eval step ≠ some true ∧ ∀ p ∈ step.preconditions, completed.get? p = some .passed := by
  unfold decisionFor
  split
  · next h => exact iff_of_false (by simp [skipDecision]) fun hnot => hnot.1 h
  · next h =>
    split
    · next hpre =>
      refine iff_of_false (by simp [blockedDecision]) fun hall => ?_
      simp [evaluatePreconditions] at hpre
      obtain ⟨p, hp, hnot⟩ := hpre
      exact hnot (hall.2 p hp)
    · next hpre => exact iff_of_true rfl ⟨h, by simpa [evaluatePreconditions] using hpre⟩

theorem status_passed {d : Decision} : d.status = .passed ↔ d = .pass := by
  cases d <;> simp [Decision.status]

theorem evaluateSkipIf_iff : evaluateSkipIf eval step = some true ↔ Skips eval (.leaf step) := by
  simp only [evaluateSkipIf, Skips, skipIf]
  cases step.skipIf with
  | none => simp
  | some expr =>
    cases hblank : isBlank expr with
    | true => simp [hblank]
    | false =>
      simp only [filter_some, hblank, Bool.not_false, if_true, map_some, some.injEq,
        exists_eq_left', true_and, evaluateSkipExpression, Evaluator.evaluateSkipCondition, Bool.true_and]
      cases eval expr <;> simp

theorem map_stepId_decisionsFrom : (decisionsFrom eval assumePass completed steps).map (·.stepId) = steps.map (·.id) := by
  induction steps generalizing completed with
  | nil => rfl
  | cons first rest ih => rw [decisionsFrom, map_cons, map_cons, decisionFor_stepId, ih]

theorem forall_set_passed {P : String → Prop} {d : StepDecision}
    (hbefore : ∀ p, completed.get? p = some .passed → P p) (hstep : d.decision = .pass → P step.id) :
    ∀ p, (completed.set step.id d.decision.status).get? p = some .passed → P p := by
  intro p h
  rw [Dict.get?_set] at h
  split at h
  · next hp => exact hp ▸ hstep (status_passed.mp (some.inj h))
  · exact hbefore p h

theorem Passed.mono {decisions decisions' : List StepDecision} {id : String} (h : Passed decisions id)
    (hsub : decisions ⊆ decisions') : Passed decisions' id := by
  obtain ⟨d, hd, hpassed⟩ := h
  exact ⟨d, hsub hd, hpassed⟩

theorem respectsPreconditions_from {before : List StepDecision}
    (hbefore : ∀ p, completed.get? p = some .passed → Passed before p) :
    ∀ i step d, steps[i]? = some step → (decisionsFrom eval assumePass completed steps)[i]? = some d →
      d.decision = .pass → ∀ p ∈ step.preconditions,
        Passed (before ++ (decisionsFrom eval assumePass completed steps).take i) p := by
  induction steps generalizing completed before with
  | nil => simp
  | cons first rest ih =>
    intro i step d hstep hd hpass p hp
    cases i with
    | zero =>
      obtain rfl := some.inj hstep
      obtain rfl := some.inj hd
      exact (hbefore p ((decisionFor_pass.mp hpass).2 p hp)).mono (subset_append_left _ _)
    | succ i =>
      have hnext := forall_set_passed (P := Passed (before ++ [decisionFor eval assumePass completed first]))
        (fun p hget => (hbefore p hget).mono (subset_append_left _ _))
        fun hpassed => ⟨_, mem_append_right _ mem_cons_self, decisionFor_stepId, hpassed⟩
      simpa [decisionsFrom] using ih hnext i step d hstep hd hpass p hp

theorem respectsPreconditions_decisions : RespectsPreconditions steps (decisionsFrom eval assumePass ∅ steps) := by
  intro i step d hstep hd hpass p hp
  have hbefore : ∀ p, (∅ : Dict String StepStatus).get? p = some .passed → Passed [] p := fun _ h => by cases h
  exact respectsPreconditions_from hbefore i step d hstep hd hpass p hp

end Decisions

/-! ## The two sets -/

section Sets

variable {eval : String → Option Bool} {assumePass : Bool} {completed : Dict String StepStatus} {steps before : List YamlStep}
  {starts : String → Prop}

theorem passed_cons {first : YamlStep} (hids : ((first :: steps).map YamlStep.id).Nodup) :
    (∀ step ∈ first :: steps, Passed (decisionsFrom eval assumePass completed (first :: steps)) step.id ↔ starts step.id) ↔
      ((decisionFor eval assumePass completed first).decision = .pass ↔ starts first.id) ∧
        ∀ step ∈ steps, Passed (decisionsFrom eval assumePass (completed.set first.id
          (decisionFor eval assumePass completed first).decision.status) steps) step.id ↔ starts step.id := by
  obtain ⟨hfirst, -⟩ := nodup_cons.mp hids
  rw [forall_mem_cons, decisionsFrom]
  refine and_congr (iff_congr ?_ Iff.rfl) (forall₂_congr fun step hstep => iff_congr ?_ Iff.rfl)
  · -- No later decision is about the same step.
    refine ⟨?_, fun hpass => ⟨_, mem_cons_self, decisionFor_stepId, hpass⟩⟩
    rintro ⟨d, hd, hid, hpass⟩
    rcases mem_cons.mp hd with rfl | hd
    · exact hpass
    · refine absurd (mem_map.mpr ⟨d, hd, hid⟩) ?_
      rwa [map_stepId_decisionsFrom]
  · refine ⟨?_, fun h => h.mono (subset_cons_self _ _)⟩
    rintro ⟨d, hd, hid, hpass⟩
    rcases mem_cons.mp hd with rfl | hd
    · rw [decisionFor_stepId] at hid
      exact absurd (mem_map.mpr ⟨step, hstep, hid.symm⟩) hfirst
    · exact ⟨d, hd, hid, hpass⟩

/-- The induction is on the steps that are left, with the decisions on those `before`. -/
theorem passed_iff_settled (hids : (steps.map YamlStep.id).Nodup)
    (hbefore : ∀ p, completed.get? p = some .passed ↔ ∃ q ∈ before, q.id = p ∧ starts p) :
    (∀ step ∈ steps, Passed (decisionsFrom eval assumePass completed steps) step.id ↔ starts step.id) ↔
      AtEach (fun x => Settled eval starts (before ++ x)) steps := by
  induction steps generalizing completed before with
  | nil => simp [Splits.atEach_nil]
  | cons first rest ih =>
    have hfirst : ((decisionFor eval assumePass completed first).decision = .pass ↔ starts first.id) ↔
        Settled eval starts before first := by
      rw [decisionFor_pass, Ne, evaluateSkipIf_iff]
      simp only [hbefore]
      exact iff_comm
    rw [passed_cons hids, hfirst, ← singleton_append, Splits.atEach_append, Splits.atEach_singleton, append_nil]
    refine and_congr_right fun hsettled => ?_
    simp only [← append_assoc]
    refine ih (nodup_cons.mp hids).2 fun p => ?_
    rw [Dict.get?_set]
    split
    · next hp =>
      rw [hp, some.injEq, status_passed, hfirst.mpr hsettled]
      exact ⟨fun h => ⟨first, by simp, rfl, h⟩, fun ⟨_, _, _, h⟩ => h⟩
    · next hp =>
      rw [hbefore]
      simp [or_and_right, exists_or, Ne.symm hp]

theorem mem_of_starts {id : String} (h : Starts eval (steps.map leaf) id) : id ∈ steps.map YamlStep.id := by
  have hmem : id ∈ (steps.map leaf).map Item.id := by
    cases h <;> exact mem_map_of_mem (by assumption)
  rwa [List.map_map] at hmem

theorem mem_of_passed {id : String} (h : Passed (decisionsFrom eval assumePass completed steps) id) :
    id ∈ steps.map YamlStep.id := by
  obtain ⟨d, hd, rfl, -⟩ := h
  rw [← map_stepId_decisionsFrom]
  exact mem_map_of_mem hd

theorem passed_iff_starts (hids : (steps.map YamlStep.id).Nodup) :
    (∀ id, Passed (decisionsFrom eval assumePass ∅ steps) id ↔ Starts eval (steps.map leaf) id) ↔
      AtEach (Predictable eval steps) steps := by
  have hnone : ∀ p, (∅ : Dict String StepStatus).get? p = some .passed ↔
      ∃ q ∈ ([] : List YamlStep), q.id = p ∧ Starts eval (steps.map leaf) p := fun p => iff_of_false nofun (by simp)
  refine Iff.trans ⟨fun h (step : YamlStep) _ => h step.id, fun h id => ?_⟩ (passed_iff_settled hids hnone)
  by_cases hid : id ∈ steps.map YamlStep.id
  · obtain ⟨step, hstep, rfl⟩ := mem_map.mp hid
    exact h step hstep
  · exact iff_of_false (fun hpassed => hid (mem_of_passed hpassed)) fun hstarts => hid (mem_of_starts hstarts)

end Sets

/-! ## Production -/

section Production

variable (env : Env) {plan : YamlPlan} {booted : Booted}

theorem boots_config (hboot : bootstrap plan = .ok booted) (hids : ((flatItems plan.steps).map Item.id).Nodup) :
    Boots (env.config booted) (flatItems plan.steps) where
  conditions item hitem := ((bootstrap_ok hboot hids).1 item hitem).2
  skipConditions := bootstrap_skipConditions hboot hids
  configs id := by
    have hconfigs : (env.config booted).configs = ∅ := (bootstrap_registry hboot).1
    rw [Scheduler.Config.getConfig, hconfigs]
    rfl
  adaptiveSkipConditions := rfl
  barrierSteps _ := rfl
  uutIds := rfl

/-- Before `start()`, with the given variables and without breakpoints. -/
def bootedState (booted : Booted) (vars : VariableSpace) : Scheduler.State VariableSpace :=
  { bootScheduler booted [] with variableSpace := vars }

theorem onPlan_bootedState (hboot : bootstrap plan = .ok booted) (hids : ((flatItems plan.steps).map Item.id).Nodup)
    (vars : VariableSpace) :
    OnPlan (env.config booted) (flatItems plan.steps) (env.evalExpression vars) (bootedState booted vars) := by
  obtain ⟨hin, hout⟩ := bootstrap_ok hboot hids
  refine ⟨?_, fun id status hstatus => ?_, fun item hitem => ?_, fun _ _ _ _ => rfl, rfl, rfl, rfl⟩
  · rintro id ⟨_, _, _, hmem⟩
    cases hmem
  · have hmem : id ∈ (flatItems plan.steps).map Item.id := by
      by_contra hnot
      have hnone : (bootedState booted vars).steps.get? id = none := (hout id hnot).1
      simp [hnone] at hstatus
    obtain ⟨item, hitem, rfl⟩ := mem_map.mp hmem
    exact ⟨item, hitem, rfl, .inl (bootstrap_pending hboot _ _ hstatus)⟩
  · have hpending : (bootedState booted vars).steps.get? item.id = some .pending := (hin item hitem).1
    simp [hpending]

end Production

/-- Exactly if no step makes a difference that the scheduler does not look at. -/
theorem predicts_iff (env : Env) {plan : YamlPlan} {steps : List YamlStep} (hplan : plan.steps = steps.map Item.leaf)
    (hids : (steps.map YamlStep.id).Nodup) {booted : Booted} (hboot : bootstrap plan = .ok booted)
    (vars : VariableSpace) (moves : List (Scheduler.Move VariableSpace))
    (hmoves : Runs.Meets (Scheduler.step (env.config booted)) (PassingMove (env.config booted) plan.steps)
      (bootedState booted vars) moves)
    (hdone : (env.config booted).getReadySteps (Scheduler.run (env.config booted) (bootedState booted vars) moves) =
      some [])
    (assumePass : Bool) :
    ∃ result, dryRun (env.evalExpression vars) assumePass plan = .ok result ∧
      (Predicts steps result.decisions (Scheduler.run (env.config booted) (bootedState booted vars) moves).log ↔
        ∀ before step after, steps = before ++ step :: after →
          Predictable (env.evalExpression vars) steps before step) := by
  have hflat : flatItems plan.steps = steps.map Item.leaf := by rw [hplan, flatItems_leaves]
  have hids' : ((flatItems plan.steps).map Item.id).Nodup := by
    rw [hflat, List.map_map]
    exact hids
  have hblank : ∀ step ∈ steps, isBlank step.id = false := fun step hstep =>
    (bootstrap_registry hboot).2 (.leaf step) (hflat ▸ List.mem_map_of_mem hstep)
  refine ⟨_, dryRun_leaves _ assumePass hplan hblank, ?_⟩
  have hcfg := boots_config env hboot hids'
  have hplanned := onPlan_bootedState env hboot hids' vars
  rw [hflat] at hcfg hplanned
  rw [hplan] at hmoves
  have hstarted := hasStarted_iff hcfg (by rwa [hflat] at hids') hplanned hmoves hdone
  unfold Predicts
  simp only [hstarted]
  exact (and_iff_left respectsPreconditions_decisions).trans (passed_iff_starts hids)

/-! ## Two plans -/

def firstStep : YamlStep := { id := "a" }

def secondStep : YamlStep := { id := "b", preconditions := ["a"] }

def planOf (steps : List YamlStep) : YamlPlan := { name := "plan", version := "1", steps := steps.map Item.leaf }

def passingMoves : List (Scheduler.Move VariableSpace) := [
  .start,
  .scan false .silent,
  .updateStatus "a" .passed,
  .scan false .silent,
  .updateStatus "b" .passed]

theorem predicts_planOf : ∃ booted result, bootstrap (planOf [firstStep, secondStep]) = .ok booted ∧
    dryRun (Env.bare.evalExpression {}) true (planOf [firstStep, secondStep]) = .ok result ∧
      Predicts [firstStep, secondStep] result.decisions
        (Scheduler.run (Env.bare.config booted) (bootedState booted {}) passingMoves).log := by
  have hplan : (planOf [firstStep, secondStep]).steps = [firstStep, secondStep].map leaf := rfl
  refine ⟨_, _, rfl, rfl, ?_⟩
  obtain ⟨result, hresult, hiff⟩ := predicts_iff Env.bare hplan (by decide) rfl {} passingMoves
    ⟨trivial, fun _ => rfl, ⟨rfl, by decide +kernel⟩, fun _ => rfl, ⟨rfl, by decide +kernel⟩, trivial⟩
    (by decide +kernel) true
  obtain rfl := Except.ok.inj hresult
  have hfirst : Starts (Env.bare.evalExpression {}) ([firstStep, secondStep].map leaf) "a" :=
    @Starts.free _ _ (leaf firstStep) mem_cons_self rfl rfl
  have hsecond : Starts (Env.bare.evalExpression {}) ([firstStep, secondStep].map leaf) "b" :=
    @Starts.after _ _ (leaf secondStep) _ (mem_cons_of_mem _ mem_cons_self) rfl rfl hfirst
  refine hiff.mpr ((Splits.atEach_append [firstStep] [secondStep]).mpr ⟨(Splits.atEach_singleton _).mpr ?_,
    (Splits.atEach_singleton _).mpr ?_⟩)
  · exact iff_of_true hfirst ⟨nofun, nofun⟩
  · refine iff_of_true hsecond ⟨nofun, fun p hp => ⟨firstStep, mem_cons_self, ?_⟩⟩
    cases mem_singleton.mp hp
    exact ⟨rfl, hfirst⟩

/-- The dry run blocks `b`, which production starts after `a`. -/
theorem not_predicts_planOf : ∃ booted result, bootstrap (planOf [secondStep, firstStep]) = .ok booted ∧
    dryRun (Env.bare.evalExpression {}) true (planOf [secondStep, firstStep]) = .ok result ∧
      Runs.Meets (Scheduler.step (Env.bare.config booted))
        (PassingMove (Env.bare.config booted) (planOf [secondStep, firstStep]).steps)
        (bootedState booted {}) passingMoves ∧
      (Env.bare.config booted).getReadySteps
        (Scheduler.run (Env.bare.config booted) (bootedState booted {}) passingMoves) = some [] ∧
      ¬ Predicts [secondStep, firstStep] result.decisions
        (Scheduler.run (Env.bare.config booted) (bootedState booted {}) passingMoves).log := by
  refine ⟨_, _, rfl, rfl, ⟨trivial, fun _ => rfl, ⟨rfl, ?_⟩, fun _ => rfl, ⟨rfl, ?_⟩, trivial⟩, ?_, fun h => ?_⟩
  · decide +kernel
  · decide +kernel
  · decide +kernel
  · obtain ⟨d, hd, hid, hpass⟩ := (h.1 "b").mpr (by decide +kernel)
    revert d
    decide +kernel

/-! ## Two runs of one plan -/

/-- Every result is PASSED, until nothing is ready. -/
structure PassesThrough (env : Env) (plan : YamlPlan) (booted : Booted) (vars : VariableSpace)
    (moves : List (Scheduler.Move VariableSpace)) : Prop where
  passing : Runs.Meets (Scheduler.step (env.config booted)) (PassingMove (env.config booted) (flatItems plan.steps))
    (bootedState booted vars) moves
  done : (env.config booted).getReadySteps (Scheduler.run (env.config booted) (bootedState booted vars) moves) = some []

/-- What has started and how it ended is settled by the plan, whatever the order of scans, events and results. -/
theorem passing_runs_agree (env : Env) {plan : YamlPlan} {booted : Booted} (hboot : bootstrap plan = .ok booted)
    (hids : ((flatItems plan.steps).map Item.id).Nodup) (vars : VariableSpace)
    {moves moves' : List (Scheduler.Move VariableSpace)} (hmoves : PassesThrough env plan booted vars moves)
    (hmoves' : PassesThrough env plan booted vars moves') {item : Item} (hitem : item ∈ flatItems plan.steps) :
    let s := Scheduler.run (env.config booted) (bootedState booted vars) moves
    let s' := Scheduler.run (env.config booted) (bootedState booted vars) moves'
    (HasStarted s.log item.id ↔ HasStarted s'.log item.id) ∧ s.steps.get? item.id = s'.steps.get? item.id := by
  have hcfg := boots_config env hboot hids
  have hplan := onPlan_bootedState env hboot hids vars
  have hsettled {moves : List (Scheduler.Move VariableSpace)} (h : PassesThrough env plan booted vars moves) :=
    And.intro (hasStarted_iff hcfg hids hplan h.passing h.done item.id)
      ((Runs.run_invariant (fun _ m hs hm => hs.step hcfg hids m hm) hplan h.passing).status_done hcfg hids h.done hitem)
  obtain ⟨hstarted, hstatus⟩ := hsettled hmoves
  obtain ⟨hstarted', hstatus'⟩ := hsettled hmoves'
  exact ⟨hstarted.trans hstarted'.symm, hstatus.trans hstatus'.symm⟩

def reactiveMoves : List (Scheduler.Move VariableSpace) := [
  .start,
  .scan false .silent,
  .updateStatus "a" .passed,
  .deliver,
  .runDispatch 0 .silent,
  .updateStatus "b" .passed]

theorem passing_runs_agree_reactive : ∃ booted, bootstrap (planOf [firstStep, secondStep]) = .ok booted ∧
    (Scheduler.run (Env.bare.config booted) (bootedState booted {}) passingMoves).steps.get? "b" =
      (Scheduler.run (Env.bare.config booted) (bootedState booted {}) reactiveMoves).steps.get? "b" :=
  ⟨_, rfl, (@passing_runs_agree Env.bare (planOf [firstStep, secondStep]) _ rfl (by decide) {} passingMoves reactiveMoves
    ⟨⟨trivial, fun _ => rfl, ⟨rfl, by decide +kernel⟩, fun _ => rfl, ⟨rfl, by decide +kernel⟩, trivial⟩, by decide +kernel⟩
    ⟨⟨trivial, fun _ => rfl, ⟨rfl, by decide +kernel⟩, trivial, fun _ => rfl, ⟨rfl, by decide +kernel⟩, trivial⟩,
      by decide +kernel⟩ (.leaf secondStep) (.tail _ (.head _))).2⟩

end AteStudio.DryRun
