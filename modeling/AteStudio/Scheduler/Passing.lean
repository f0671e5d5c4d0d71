import AteStudio.Scheduler.History

/-!
# Runs in which every step passes

What is started is settled by the plan, whatever the order of scans, events and results.
-/

namespace AteStudio.Scheduler

open List

open Bootstrap (preconditions skipIf itemCondition Satisfied)

variable {V : Type}

/-! ## What is started -/

def Skips (eval : String → Option Bool) (item : Item) : Prop :=
  ∃ expr, skipIf item = some expr ∧ isBlank expr = false ∧ eval expr = some true

inductive Starts (eval : String → Option Bool) (items : List Item) : String → Prop
  | free {item : Item} : item ∈ items → skipIf item = none → preconditions item = [] → Starts eval items item.id
  | after {item : Item} {p : String} : item ∈ items → skipIf item = none → (preconditions item).head? = some p →
      Starts eval items p → Starts eval items item.id
  | afterSkipped {item skipped : Item} : item ∈ items → skipIf item = none →
      (preconditions item).head? = some skipped.id → skipped ∈ items → Skips eval skipped → Starts eval items item.id
  -- A blank text is no skip condition. `simpleeval` raises on it, so it is not true either.
  | blank {item : Item} {expr : String} : item ∈ items → skipIf item = some expr → isBlank expr = true →
      eval expr = some true → Starts eval items item.id

variable {eval : String → Option Bool}

theorem Starts.not_skips {items : List Item} {item : Item}
    (hids : (items.map Item.id).Nodup) (hitem : item ∈ items) (h : Starts eval items item.id) : ¬ Skips eval item := by
  rintro ⟨expr, hskip, hblank, -⟩
  have hsame {other : Item} (hother : other ∈ items) (hid : other.id = item.id) : skipIf other = some expr := by
    rw [inj_on_of_nodup_map hids hother hitem hid, hskip]
  generalize hid : item.id = id at h
  cases h with
  | free hother hnone => simp [hsame hother hid.symm] at hnone
  | after hother hnone => simp [hsame hother hid.symm] at hnone
  | afterSkipped hother hnone => simp [hsame hother hid.symm] at hnone
  | blank hother hsome hblank' =>
    obtain rfl : expr = _ := Option.some.inj ((hsame hother hid.symm).symm.trans hsome)
    simp [hblank] at hblank'

/-! ## The scheduler of a booted plan -/

/-- What the bootstrapper registers for the items, and nothing else. -/
structure Boots (cfg : Config V) (items : List Item) : Prop where
  conditions : ∀ item ∈ items, cfg.conditions.get? item.id = itemCondition item
  skipConditions : ∀ item ∈ items, (cfg.skipConditions.get? item.id).map Prod.fst = skipIf item
  configs : ∀ id, (cfg.getConfig id).skipIf = none
  adaptiveSkipConditions : cfg.adaptiveSkipConditions = []
  barrierSteps : ∀ id, cfg.barrierSteps.contains id = false
  uutIds : cfg.uutIds = none

def HasStarted (log : List Obs) (id : String) : Prop := ∃ status paused down, .started id status paused down ∈ log

def Obs.starts (id : String) : Obs → Bool
  | .started stepId _ _ _ => stepId = id
  | _ => false

instance (log : List Obs) (id : String) : Decidable (HasStarted log id) :=
  decidable_of_iff (log.any (Obs.starts id) = true) (by
    rw [any_eq_true]
    constructor
    · rintro ⟨o, ho, hstarts⟩
      cases o with
      | started stepId status paused down =>
        obtain rfl : stepId = id := of_decide_eq_true hstarts
        exact ⟨status, paused, down, ho⟩
      | _ => cases hstarts
    · rintro ⟨status, paused, down, hmem⟩
      exact ⟨_, hmem, decide_eq_true rfl⟩)

/-- Results are PASSED and of started steps, no faults, no debugger, and `skip_if` texts keep their values. -/
def PassingMove (cfg : Config V) (items : List Item) (s : State V) : Move V → Prop
  | .scan _ ans | .runDispatch _ ans => ∀ id, ans.fault id = none
  | .updateStatus id status => status = .passed ∧ HasStarted s.log id
  | .handleStepResult _ status => status = .passed
  | .setVariable _ variableSpace => ∀ item ∈ items, ∀ expr, skipIf item = some expr →
      cfg.evalExpression variableSpace expr = cfg.evalExpression s.variableSpace expr
  | .start | .forceScan | .deliver | .setAvailable _ | .releaseResource _ | .setUut .. | .pause | .resume => True
  | _ => False

/-- What was started is to be started, and every status has its reason. -/
structure OnPlan (cfg : Config V) (items : List Item) (eval : String → Option Bool) (s : State V) : Prop where
  started : ∀ id, HasStarted s.log id → Starts eval items id
  statuses : ∀ id status, s.steps.get? id = some status → ∃ item ∈ items, item.id = id ∧
    (status = .pending ∨ (status = .passed ∧ HasStarted s.log id) ∨ (status = .skipped ∧ Skips eval item))
  registered : ∀ item ∈ items, s.steps.get? item.id ≠ none
  eval : ∀ item ∈ items, ∀ expr, skipIf item = some expr → cfg.evalExpression s.variableSpace expr = eval expr
  forceNextPending : s.forceNextPending = false
  stepMode : s.stepMode = none
  breakpointEngine : s.breakpointEngine = none

variable {id : String}

theorem hasStarted_cons {o : Obs} {log : List Obs} (h : ∀ status paused down, o ≠ .started id status paused down) :
    HasStarted (o :: log) id ↔ HasStarted log id := by
  constructor
  · rintro ⟨status, paused, down, hmem⟩
    rcases mem_cons.mp hmem with heq | hmem
    · exact absurd heq.symm (h status paused down)
    · exact ⟨status, paused, down, hmem⟩
  · rintro ⟨status, paused, down, hmem⟩
    exact ⟨status, paused, down, mem_cons_of_mem _ hmem⟩

theorem HasStarted.cons {log : List Obs} (h : HasStarted log id) (o : Obs) : HasStarted (o :: log) id := by
  obtain ⟨status, paused, down, hmem⟩ := h
  exact ⟨status, paused, down, mem_cons_of_mem _ hmem⟩

section OnPlan

def planView (s : State V) := (s.steps, s.variableSpace, s.forceNextPending, s.stepMode, s.breakpointEngine)

variable {cfg : Config V} {items : List Item} {eval : String → Option Bool} {s s' : State V}
  (hcfg : Boots cfg items) (h : OnPlan cfg items eval s)

include h

theorem OnPlan.of_started_iff (hview : planView s' = planView s)
    (hlog : ∀ id, HasStarted s'.log id ↔ HasStarted s.log id) : OnPlan cfg items eval s' := by
  simp only [planView, Prod.mk.injEq] at hview
  obtain ⟨hsteps, hvars, hforce, hmode, hengine⟩ := hview
  refine ⟨fun id hid => h.started id ((hlog id).mp hid), fun id status hstatus => ?_, hsteps ▸ h.registered,
    hvars ▸ h.eval, hforce.trans h.forceNextPending, hmode.trans h.stepMode, hengine.trans h.breakpointEngine⟩
  simp only [hlog]
  exact h.statuses id status (hsteps ▸ hstatus)

theorem OnPlan.same (hview : planView s' = planView s) (hlog : s'.log = s.log) : OnPlan cfg items eval s' :=
  h.of_started_iff hview fun _ => by rw [hlog]

theorem OnPlan.updateStatus (id : String) (status : StepStatus) (hwhy : ∀ item ∈ items, item.id = id →
      (status = .passed ∧ HasStarted s.log id) ∨ (status = .skipped ∧ Skips eval item)) :
    OnPlan cfg items eval (s.updateStatus id status) := by
  rcases updateStatus_cases s id status with ⟨heq, -⟩ | ⟨old, hold, -, heq⟩
  · rwa [heq]
  rw [heq]
  have hlog (x : String) : HasStarted (.status id old status :: s.log) x ↔ HasStarted s.log x :=
    hasStarted_cons fun _ _ _ => by simp
  refine ⟨fun x hx => h.started x ((hlog x).mp hx), fun x st hst => ?_, fun item hitem => ?_, h.eval,
    h.forceNextPending, h.stepMode, h.breakpointEngine⟩
  · rw [hlog]
    rw [Dict.get?_set] at hst
    split at hst
    · next hx =>
      obtain rfl := Option.some.inj hst
      subst hx
      obtain ⟨item, hitem, hid, -⟩ := h.statuses x old hold
      exact ⟨item, hitem, hid, .inr (hwhy item hitem hid)⟩
    · exact h.statuses x st hst
  · rw [Dict.get?_set]
    split
    · simp
    · exact h.registered item hitem

include hcfg in
theorem OnPlan.startStep (hid : Starts eval items id) : OnPlan cfg items eval (startStep cfg s id) := by
  have hclaims : claimUut cfg s id = s := by
    unfold claimUut
    rw [hcfg.uutIds]
    split
    · next heq => cases heq
    · rfl
  unfold Scheduler.startStep
  rw [hclaims]
  refine ⟨?_, fun x st hst => ?_, h.registered, h.eval, h.forceNextPending, h.stepMode, h.breakpointEngine⟩
  · rintro x ⟨status, paused, down, hmem⟩
    rcases mem_cons.mp hmem with heq | hmem
    · obtain ⟨rfl, -⟩ := Obs.started.inj heq
      exact hid
    · exact h.started x ⟨status, paused, down, hmem⟩
  · obtain ⟨item, hitem, hx, hwhy⟩ := h.statuses x st hst
    refine ⟨item, hitem, hx, ?_⟩
    rcases hwhy with hpending | ⟨hpassed, hstarted⟩ | hskipped
    · exact .inl hpending
    · exact .inr (.inl ⟨hpassed, hstarted.cons _⟩)
    · exact .inr (.inr hskipped)

theorem OnPlan.scheduleDispatchForKey (key : String) : OnPlan cfg items eval (scheduleDispatchForKey cfg s key) := by
  unfold Scheduler.scheduleDispatchForKey
  generalize cfg.dependencyIndex.getD key [] = dependents
  induction dependents generalizing s with
  | nil => exact h
  | cons id dependents ih =>
    refine ih ?_
    unfold scheduleDispatch
    split
    · exact h
    · exact h.same rfl rfl

theorem OnPlan.handleStepSkipped {item : Item} (hids : (items.map Item.id).Nodup)
    (hitem : item ∈ items) (hskips : Skips eval item) (reason : String) :
    OnPlan cfg items eval (handleStepSkipped cfg s item.id reason) := by
  have hskipped := h.updateStatus item.id .skipped fun other hother hid =>
    .inr ⟨rfl, inj_on_of_nodup_map hids hother hitem hid ▸ hskips⟩
  have hmarked : OnPlan cfg items eval (markSkipped cfg s item.id reason) :=
    hskipped.of_started_iff rfl fun _ => hasStarted_cons fun _ _ _ => by simp
  exact hmarked.scheduleDispatchForKey item.id

include hcfg in
theorem OnPlan.evaluateStepSkip_iff {item : Item}
    (hitem : item ∈ items) (ans : Answers) : evaluateStepSkip cfg ans s item.id = true ↔ Skips eval item := by
  have hregistered := hcfg.skipConditions item hitem
  unfold evaluateStepSkip Skips
  rw [if_neg (by simp [hcfg.adaptiveSkipConditions])]
  cases hget : cfg.skipConditions.get? item.id with
  | none =>
    rw [hget] at hregistered
    simp [hcfg.configs, ← hregistered]
  | some entry =>
    rw [hget] at hregistered
    have heval := h.eval item hitem entry.1 hregistered.symm
    simp only [← hregistered, Option.map_some, Option.some.injEq, exists_eq_left', Evaluator.evaluateSkipCondition,
      Config.evaluator, heval]
    cases eval entry.1 <;> simp

include hcfg in
theorem OnPlan.ready {ready : List String} (hready : cfg.getReadySteps s = some ready) :
    ∀ id ∈ ready, ∃ item ∈ items, item.id = id ∧ (Skips eval item ∨ Starts eval items item.id) := by
  intro id hid
  obtain ⟨hpending, hisReady⟩ := (StepRegistry.mem_getReadySteps hready).mp hid
  obtain ⟨item, hitem, rfl, -⟩ := h.statuses id .pending hpending
  refine ⟨item, hitem, rfl, ?_⟩
  simp only [StepRegistry.isReady, Config.registry, ne_eq, not_true_eq_false, if_false,
    hcfg.conditions item hitem] at hisReady
  cases hc : itemCondition item with
  | none =>
    obtain ⟨hskip, hpre⟩ := Bootstrap.itemCondition_eq_none hc
    exact .inr (.free hitem hskip hpre)
  | some c =>
    rw [hc] at hisReady
    rcases Bootstrap.evaluate_itemCondition (cfg.evaluator s) hc (cfg.registry s) with
      ⟨expr, hskip, heval⟩ | ⟨p, hskip, hpre, heval⟩
    · have htrue : eval expr = some true := by
        rw [← h.eval item hitem expr hskip]
        exact of_decide_eq_true (Option.some.inj (heval.symm.trans hisReady))
      cases hblank : isBlank expr with
      | false => exact .inl ⟨expr, hskip, hblank, htrue⟩
      | true => exact .inr (.blank hitem hskip hblank htrue)
    · have hsatisfied : Satisfied (cfg.registry s) p :=
        of_decide_eq_true (Option.some.inj (heval.symm.trans hisReady))
      rcases hsatisfied with hpassed | hskipped
      · obtain ⟨_, _, _, hwhy⟩ := h.statuses p .passed hpassed
        have hstarted : HasStarted s.log p := by simpa using hwhy
        exact .inr (.after hitem hskip hpre (h.started p hstarted))
      · obtain ⟨skipped, hmem, rfl, hwhy⟩ := h.statuses p .skipped hskipped
        exact .inr (.afterSkipped hitem hskip hpre hmem (by simpa using hwhy))

end OnPlan

/-! ## Scans and dispatches -/

section Moves

variable {cfg : Config V} {items : List Item} {eval : String → Option Bool} {s : State V}
  (hcfg : Boots cfg items) (hids : (items.map Item.id).Nodup)

theorem OnPlan.gate (h : OnPlan cfg items eval s) (id : String) :
    gateBeforeDispatch cfg s id = (s, if s.paused then .paused else .dispatch) ∧ spends? cfg s id = none := by
  simp only [gateBeforeDispatch, gateBreakpoint, spends?, h.stepMode, h.breakpointEngine]
  split <;> simp

variable {ans : Answers} (hans : ∀ id, ans.fault id = none) (h : OnPlan cfg items eval s) (id : String)

include hans in
theorem checkSchedulerFault_none : checkSchedulerFault cfg ans s id = (s, .value false) := by
  unfold checkSchedulerFault
  rw [hans]
  split
  · next heq => cases heq
  · rfl

include hcfg in
theorem canSchedule_booted : canSchedule cfg s id = true := by
  unfold canSchedule
  rw [hcfg.uutIds]
  split
  · next heq => cases heq
  · rfl

include h

include hcfg hids hans in
theorem OnPlan.scanFrom {l : List String}
    (hl : ∀ id ∈ l, ∃ item ∈ items, item.id = id ∧ (Skips eval item ∨ Starts eval items item.id)) :
    OnPlan cfg items eval (scanFrom cfg ans l s).1 ∧ (scanFrom cfg ans l s).2 = none := by
  induction l generalizing s with
  | nil => exact ⟨h, rfl⟩
  | cons id rest ih =>
    obtain ⟨⟨item, hitem, rfl, hwhy⟩, hrest⟩ := forall_mem_cons.mp hl
    have hskip := h.evaluateStepSkip_iff hcfg hitem ans
    have hgate := (h.gate item.id).1
    unfold Scheduler.scanFrom
    simp only [checkSchedulerFault_none hans, canSchedule_booted hcfg, hgate, hcfg.barrierSteps, Bool.not_true,
      Bool.not_false, Bool.false_eq_true, if_false, if_true]
    split
    · exact ih h hrest
    split
    · next hskips => exact ih (h.handleStepSkipped hids hitem (hskip.mp hskips) _) hrest
    · next hskips =>
      have hstarts := hwhy.resolve_left fun hs => hskips (hskip.mpr hs)
      cases hpaused : s.paused with
      | true => exact ⟨by simpa [(h.gate item.id).2, State.noteSpent] using h, rfl⟩
      | false => exact ih ((h.startStep hcfg hstarts).same rfl rfl) hrest

include hcfg hids hans in
theorem OnPlan.emergencyScan (forced : Bool) : OnPlan cfg items eval (emergencyScan cfg ans s forced) := by
  unfold Scheduler.emergencyScan
  split
  · exact h
  split
  · exact h
  · next ready hready =>
    obtain ⟨hplan, hnone⟩ := h.scanFrom hcfg hids hans (h.ready hcfg hready)
    generalize Scheduler.scanFrom cfg ans ready s = r at hplan hnone
    obtain ⟨s', barrier⟩ := r
    subst hnone
    exact hplan

include hcfg hids hans in
theorem OnPlan.dispatchChecked : OnPlan cfg items eval (dispatchChecked cfg ans s id).1 := by
  unfold Scheduler.dispatchChecked
  split
  · exact h
  next hpending =>
  obtain ⟨item, hitem, rfl, -⟩ := h.statuses id .pending (not_not.mp hpending)
  have hskip := h.evaluateStepSkip_iff hcfg hitem ans
  simp only [useForceNext, h.forceNextPending, checkSchedulerFault_none hans, canSchedule_booted hcfg,
    hcfg.barrierSteps, Bool.not_true, Bool.not_false, Bool.false_eq_true, if_false, if_true, Bool.true_and]
  split
  · next hskips => exact h.handleStepSkipped hids hitem (hskip.mp hskips) _
  next hskips =>
  split
  · exact h
  split
  · exact h
  · next hready =>
    obtain ⟨ready, hready, hmem⟩ := (Option.any_eq_true _ _).mp (by simpa using hready)
    obtain ⟨other, hother, hid, hwhy⟩ := h.ready hcfg hready item.id (of_decide_eq_true hmem)
    obtain rfl := inj_on_of_nodup_map hids hother hitem hid
    have hstarts := hwhy.resolve_left fun hs => hskips (hskip.mpr hs)
    exact (h.startStep hcfg hstarts).same rfl rfl

include hcfg hids hans in
theorem OnPlan.dispatchStep : OnPlan cfg items eval (dispatchStep cfg ans s id).1 := by
  unfold Scheduler.dispatchStep
  rw [(h.gate id).1, (h.gate id).2]
  cases hpaused : s.paused with
  | true => exact h.same rfl rfl
  | false =>
    have hchecked := h.dispatchChecked hcfg hids hans id
    simp only [Bool.false_eq_true, if_false]
    split
    · next heq =>
      rw [heq] at hchecked
      exact hchecked
    · next heq =>
      rw [heq] at hchecked
      exact hchecked.same rfl rfl

include hcfg hids hans in
theorem OnPlan.runDispatch (task : Task) : OnPlan cfg items eval (runDispatch cfg ans s task).1 := by
  unfold Scheduler.runDispatch
  split
  · split
    · exact h
    · exact h.dispatchStep hcfg hids hans task.stepId
  · exact h.dispatchStep hcfg hids hans task.stepId
  · exact h.same rfl rfl
  · exact h

theorem OnPlan.runTask (index : Nat) {f : State V → Task → State V × Option TaskPoint}
    (hf : ∀ s task, OnPlan cfg items eval s → OnPlan cfg items eval (f s task).1) :
    OnPlan cfg items eval (s.runTask index f) := by
  unfold State.runTask
  split
  · exact h
  next task _ =>
  have htaken : OnPlan cfg items eval { s with tasks := s.tasks.eraseIdx index } :=
    h.same rfl rfl
  have hrun := hf _ task htaken
  split
  · next heq =>
    rw [heq] at hrun
    exact hrun.same rfl rfl
  · next heq =>
    rw [heq] at hrun
    exact hrun

theorem OnPlan.handleEvent (event : Event) : OnPlan cfg items eval (handleEvent cfg event s) := by
  cases event with
  | statusChanged id old new =>
    refine OnPlan.scheduleDispatchForKey ?_ id
    split
    · rw [stepEnded_eq]
      exact h.same rfl rfl
    · exact h
  | measurementRecorded name => exact h.scheduleDispatchForKey name
  | resourceReleased resourceId => exact h.scheduleDispatchForKey resourceId

theorem OnPlan.iterate_handleEvent (event : Event) (n : Nat) :
    OnPlan cfg items eval ((Scheduler.handleEvent cfg event)^[n] s) := by
  induction n generalizing s with
  | zero => exact h
  | succ n ih => exact ih (h.handleEvent event)

theorem OnPlan.deliver : OnPlan cfg items eval (deliver cfg s) := by
  unfold Scheduler.deliver
  split
  · exact h
  · next event queue _ =>
    have hqueue : OnPlan cfg items eval { s with queue := queue } := h.same rfl rfl
    exact hqueue.iterate_handleEvent event s.subscriptions

include hcfg hids in
theorem OnPlan.step (m : Move V) (hm : PassingMove cfg items s m) : OnPlan cfg items eval (step cfg s m) := by
  cases m with
  | scan forced ans =>
    cases forced with
    | false =>
      dsimp only [Scheduler.step]
      split
      · exact h.emergencyScan hcfg hids hm false
      · exact h
    | true =>
      dsimp only [Scheduler.step]
      split
      · refine OnPlan.emergencyScan hcfg hids hm ?_ true
        exact h.same rfl rfl
      · exact h
  | runDispatch index ans => exact h.runTask index fun _ task h => h.runDispatch hcfg hids hm task
  | deliver => exact h.deliver
  | updateStatus id status => exact h.updateStatus id status fun _ _ _ => .inl hm
  | handleStepResult id status =>
    obtain rfl := hm
    dsimp only [Scheduler.step, handleStepResult]
    split
    · exact h
    · exact h.same rfl rfl
  | setVariable name variableSpace =>
    exact ⟨h.started, h.statuses, h.registered,
      fun item hitem expr hskip => (hm item hitem expr hskip).trans (h.eval item hitem expr hskip),
      h.forceNextPending, h.stepMode, h.breakpointEngine⟩
  | resume => exact ⟨h.started, h.statuses, h.registered, h.eval, h.forceNextPending, rfl, h.breakpointEngine⟩
  | setAvailable | releaseResource | setUut | pause | forceScan => exact h.same rfl rfl
  | start =>
    dsimp only [Scheduler.step]
    split
    · exact h
    · exact h.of_started_iff rfl fun _ => hasStarted_cons fun _ _ _ => by simp
  | _ => exact hm.elim

end Moves

/-! ## Nothing is ready -/

section Done

variable {cfg : Config V} {items : List Item} {eval : String → Option Bool} {s : State V} (hcfg : Boots cfg items)
  (hids : (items.map Item.id).Nodup) (h : OnPlan cfg items eval s) (hdone : cfg.getReadySteps s = some []) {item : Item}

include h in
theorem OnPlan.evaluate_expression {expr : String} (hitem : item ∈ items)
    (hskip : skipIf item = some expr) (htrue : eval expr = some true) (c : Condition) (hc : itemCondition item = some c) :
    (cfg.evaluator s).evaluate (cfg.registry s).steps c = some true := by
  have htrue' : (cfg.evaluator s).evalExpression expr = some true := (h.eval item hitem expr hskip).trans htrue
  rcases Bootstrap.evaluate_itemCondition (cfg.evaluator s) hc (cfg.registry s) with
    ⟨expr', hskip', heval⟩ | ⟨_, hnone, -⟩
  · obtain rfl := Option.some.inj (hskip.symm.trans hskip')
    simpa [htrue'] using heval
  · simp [hskip] at hnone

theorem evaluate_first (hskip : skipIf item = none)
    (hpre : ∀ p, (preconditions item).head? = some p → Satisfied (cfg.registry s) p) (c : Condition)
    (hc : itemCondition item = some c) : (cfg.evaluator s).evaluate (cfg.registry s).steps c = some true := by
  rcases Bootstrap.evaluate_itemCondition (cfg.evaluator s) hc (cfg.registry s) with ⟨_, hsome, -⟩ | ⟨p, -, hp, heval⟩
  · simp [hskip] at hsome
  · simpa [hpre p hp] using heval

include hcfg h hdone in
theorem OnPlan.ended (hitem : item ∈ items)
    (hready : ∀ c, itemCondition item = some c → (cfg.evaluator s).evaluate (cfg.registry s).steps c = some true) :
    (s.steps.get? item.id = some .passed ∧ HasStarted s.log item.id) ∨ s.steps.get? item.id = some .skipped := by
  obtain ⟨status, hstatus⟩ := Option.ne_none_iff_exists'.mp (h.registered item hitem)
  obtain ⟨-, -, -, hpending | ⟨rfl, hstarted⟩ | ⟨rfl, -⟩⟩ := h.statuses item.id status hstatus
  · subst hpending
    have hmem : item.id ∈ ([] : List String) := by
      refine (StepRegistry.mem_getReadySteps hdone).mpr ⟨hstatus, ?_⟩
      simp only [StepRegistry.isReady, Config.registry, hcfg.conditions item hitem, ne_eq, not_true_eq_false, if_false]
      cases hc : itemCondition item with
      | none => rfl
      | some c => exact hready c hc
    cases hmem
  · exact .inl ⟨hstatus, hstarted⟩
  · exact .inr hstatus

include hcfg hids h hdone in
theorem OnPlan.skipped_of_skips (hitem : item ∈ items) (hskips : Skips eval item) :
    s.steps.get? item.id = some .skipped := by
  obtain ⟨expr, hskip, -, htrue⟩ := id hskips
  rcases h.ended hcfg hdone hitem (h.evaluate_expression hitem hskip htrue) with ⟨-, hstarted⟩ | hskipped
  · exact absurd hskips ((h.started _ hstarted).not_skips hids hitem)
  · exact hskipped

include hcfg hids h hdone in
theorem OnPlan.passed_of_starts (hid : Starts eval items id) :
    s.steps.get? id = some .passed ∧ HasStarted s.log id := by
  have hnotSkipped {item : Item} (hitem : item ∈ items) (hstarts : Starts eval items item.id)
      (hended : (s.steps.get? item.id = some .passed ∧ HasStarted s.log item.id) ∨
        s.steps.get? item.id = some .skipped) : s.steps.get? item.id = some .passed ∧ HasStarted s.log item.id := by
    rcases hended with hpassed | hskipped
    · exact hpassed
    · obtain ⟨other, hother, hid, hwhy⟩ := h.statuses item.id .skipped hskipped
      obtain rfl := inj_on_of_nodup_map hids hother hitem hid
      exact absurd (by simpa using hwhy) (hstarts.not_skips hids hitem)
  induction hid with
  | free hitem hskip hpre =>
    refine hnotSkipped hitem (.free hitem hskip hpre) (h.ended hcfg hdone hitem (evaluate_first hskip fun p hp => ?_))
    simp [hpre] at hp
  | after hitem hskip hpre hp ih =>
    refine hnotSkipped hitem (.after hitem hskip hpre hp)
      (h.ended hcfg hdone hitem (evaluate_first hskip fun p' hp' => ?_))
    obtain rfl := Option.some.inj (hpre.symm.trans hp')
    exact .inl ih.1
  | afterSkipped hitem hskip hpre hskipped hskips =>
    refine hnotSkipped hitem (.afterSkipped hitem hskip hpre hskipped hskips)
      (h.ended hcfg hdone hitem (evaluate_first hskip fun p' hp' => ?_))
    obtain rfl := Option.some.inj (hpre.symm.trans hp')
    exact .inr (h.skipped_of_skips hcfg hids hdone hskipped hskips)
  | blank hitem hskip hblank htrue =>
    exact hnotSkipped hitem (.blank hitem hskip hblank htrue)
      (h.ended hcfg hdone hitem (h.evaluate_expression hitem hskip htrue))

include hcfg hids h hdone in
open Classical in
theorem OnPlan.status_done (hitem : item ∈ items) : s.steps.get? item.id =
    some (if Starts eval items item.id then .passed else if Skips eval item then .skipped else .pending) := by
  split
  · next hstarts => exact (h.passed_of_starts hcfg hids hdone hstarts).1
  split
  · next hskips => exact h.skipped_of_skips hcfg hids hdone hitem hskips
  next hstarts hskips =>
  obtain ⟨status, hstatus⟩ := Option.ne_none_iff_exists'.mp (h.registered item hitem)
  obtain ⟨other, hother, hid, rfl | ⟨-, hstarted⟩ | ⟨-, hskipped⟩⟩ := h.statuses item.id status hstatus
  · exact hstatus
  · exact absurd (h.started _ hstarted) hstarts
  · exact absurd (inj_on_of_nodup_map hids hother hitem hid ▸ hskipped) hskips

end Done

theorem hasStarted_iff {cfg : Config V} {items : List Item} {s : State V}
    (hcfg : Boots cfg items) (hids : (items.map Item.id).Nodup) (hs : OnPlan cfg items eval s) {moves : List (Move V)}
    (hmoves : Runs.Meets (step cfg) (PassingMove cfg items) s moves)
    (hdone : cfg.getReadySteps (run cfg s moves) = some []) (id : String) :
    HasStarted (run cfg s moves).log id ↔ Starts eval items id := by
  have hplan : OnPlan cfg items eval (run cfg s moves) :=
    Runs.run_invariant (fun _ m h hm => h.step hcfg hids m hm) hs hmoves
  exact ⟨hplan.started id, fun hstarts => (hplan.passed_of_starts hcfg hids hdone hstarts).2⟩

end AteStudio.Scheduler
