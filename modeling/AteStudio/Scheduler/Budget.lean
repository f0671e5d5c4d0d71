import AteStudio.Scheduler.Moves

/-!
# The retry and repeat budget of a step
-/

namespace AteStudio.Scheduler

variable {V : Type}

/-- How often `handle_step_result` may send a step back after such a result. -/
def budget (config : StepExecutionConfig) : StepStatus → ℕ
  | .error => config.maxRetries.toNat
  | .failed => if config.repeatOnMeasurementFail then config.repeatLimit.toNat else 0
  | _ => 0

def State.charged (s : State V) (stepId : String) : StepStatus → ℕ
  | .error => s.retryCounts.getD stepId 0
  | .failed => s.repeatCounts.getD stepId 0
  | _ => 0

def settledStatus (config : StepExecutionConfig) (failedStatus : StepStatus) : StepStatus :=
  if config.onFailure = .skip then .skipped else failedStatus

structure Call (V : Type) where
  before : State V
  status : StepStatus

section

variable (cfg : Config V) (id : String)

def Call.returned (c : Call V) : Returned Bool := (handleStepResult cfg c.before id c.status).2

def Call.after (c : Call V) : State V := (handleStepResult cfg c.before id c.status).1

def Call.Fails (c : Call V) : Prop := c.status = .failed ∨ c.status = .error

/-- Calls for one step, the newest first. Between them its counters are left alone. -/
inductive Fed : List (Call V) → State V → Prop
  | start {s : State V} (h : ∀ status, s.charged id status = 0) : Fed [] s
  | call {earlier : List (Call V)} {s : State V} {c : Call V} (h : Fed earlier s)
      (hkept : ∀ status, c.before.charged id status = s.charged id status)
      (hregistered : c.before.steps.contains id) (hfails : c.Fails) : Fed (c :: earlier) (c.after cfg id)

def sentBack (calls : List (Call V)) (status : StepStatus) : ℕ :=
  calls.countP fun c => c.status = status ∧ c.returned cfg id = .value true

end

/-! ## One call -/

section

variable {cfg : Config V} {id : String} {s : State V}

theorem updateStatus_get? (h : s.steps.contains id) (status : StepStatus) :
    (s.updateStatus id status).steps.get? id = some status := by
  obtain ⟨old, hold⟩ := Option.isSome_iff_exists.mp h
  simp only [State.updateStatus, hold]
  split
  · next heq => rw [hold, heq]
  · simp

@[simp] theorem updateStatus_charged (s : State V) (id : String) (new : StepStatus) :
    (s.updateStatus id new).charged = s.charged := by
  unfold State.updateStatus
  split
  · rfl
  · split <;> rfl

structure SendsBack (cfg : Config V) (id : String) (c : Call V) : Prop where
  returned : c.returned cfg id = .value true
  pending : (c.after cfg id).steps.get? id = some .pending
  charged status :
    (c.after cfg id).charged id status = c.before.charged id status + if c.status = status then 1 else 0

structure Settles (cfg : Config V) (id : String) (c : Call V) : Prop where
  returned : c.returned cfg id = if (cfg.getConfig id).onFailure = .abort then .aborted else .value false
  settled : (c.after cfg id).steps.get? id = some (settledStatus (cfg.getConfig id) c.status)
  charged status : (c.after cfg id).charged id status = c.before.charged id status

theorem settles_of_eq {c : Call V} (h : c.before.steps.contains id) (heq : handleStepResult cfg c.before id c.status =
      settleTerminalFailure c.before id (cfg.getConfig id) c.status) : Settles cfg id c := by
  unfold settleTerminalFailure at heq
  constructor
  · unfold Call.returned
    rw [heq]
    split <;> simp_all
  · unfold Call.after settledStatus
    rw [heq]
    split <;> simp_all [updateStatus_get?]
  · intro status
    unfold Call.after
    rw [heq]
    split <;> simp

theorem sendsBack_of_eq {c : Call V} (s' : State V) (h : s'.steps.contains id)
    (hcharged : ∀ status, s'.charged id status = c.before.charged id status + if c.status = status then 1 else 0)
    (heq : handleStepResult cfg c.before id c.status = (s'.updateStatus id .pending, .value true)) :
    SendsBack cfg id c := by
  constructor
  · simp [Call.returned, heq]
  · simp [Call.after, heq, updateStatus_get? h]
  · simpa [Call.after, heq] using hcharged

theorem call_spec {c : Call V} (hforce : (cfg.getConfig id).forceRepeat = false)
    (hlimit : 0 < (cfg.getConfig id).repeatLimit) (h : c.before.steps.contains id) (hfails : c.Fails) :
    if c.before.charged id c.status < budget (cfg.getConfig id) c.status then SendsBack cfg id c
    else Settles cfg id c := by
  obtain ⟨s, status⟩ := c
  rcases hfails with rfl | rfl
  · split
    · next hlt =>
      have hrepeat : (cfg.getConfig id).repeatOnMeasurementFail = true := by
        by_contra hnot
        simp [budget, hnot] at hlt
      have hbelow : (s.repeatCounts.getD id 0 : ℤ) < (cfg.getConfig id).repeatLimit := by
        simp only [budget, hrepeat, if_true, State.charged] at hlt
        omega
      refine sendsBack_of_eq { s with repeatCounts := s.repeatCounts.set id (s.repeatCounts.getD id 0 + 1) }
        h (fun status => ?_) ?_
      · cases status <;> simp [State.charged, Dict.getD]
      · simp [handleStepResult, show s.steps.contains id = true from h, hrepeat, hbelow]
    · next hnot =>
      refine settles_of_eq h ?_
      simp only [budget, State.charged] at hnot
      cases hrepeat : (cfg.getConfig id).repeatOnMeasurementFail
      · simp [handleStepResult, show s.steps.contains id = true from h, hrepeat]
      · have hspent : ¬ (s.repeatCounts.getD id 0 : ℤ) < (cfg.getConfig id).repeatLimit := by
          rw [hrepeat, if_pos rfl] at hnot
          omega
        have hunbounded : (cfg.getConfig id).repeatLimit ≠ 0 := by omega
        simp [handleStepResult, show s.steps.contains id = true from h, hrepeat, hforce, hunbounded, hspent]
  · split
    · next hlt =>
      have hbelow : 0 < (cfg.getConfig id).maxRetries ∧ (s.retryCounts.getD id 0 : ℤ) < (cfg.getConfig id).maxRetries := by
        simp only [budget, State.charged] at hlt
        omega
      refine sendsBack_of_eq { s with retryCounts := s.retryCounts.set id (s.retryCounts.getD id 0 + 1) }
        h (fun status => ?_) ?_
      · cases status <;> simp [State.charged, Dict.getD]
      · simp [handleStepResult, show s.steps.contains id = true from h, hbelow]
    · next hnot =>
      have hspent : ¬ (0 < (cfg.getConfig id).maxRetries ∧
          (s.retryCounts.getD id 0 : ℤ) < (cfg.getConfig id).maxRetries) := by
        simp only [budget, State.charged] at hnot
        omega
      refine settles_of_eq h ?_
      simp only [handleStepResult, show s.steps.contains id = true from h, hspent, Bool.not_true, Bool.false_eq_true,
        if_false]

/-! ## Whole sequences -/

theorem sentBack_cons (c : Call V) (calls : List (Call V)) (status : StepStatus) :
    sentBack cfg id (c :: calls) status =
      sentBack cfg id calls status + if c.status = status ∧ c.returned cfg id = .value true then 1 else 0 := by
  simp [sentBack, List.countP_cons]

variable {calls : List (Call V)}

/-- The counters say how often the step was sent back, and no budget is overdrawn. -/
theorem charged_eq_sentBack (hforce : (cfg.getConfig id).forceRepeat = false)
    (hlimit : 0 < (cfg.getConfig id).repeatLimit) (h : Fed cfg id calls s) (status : StepStatus) :
    s.charged id status = sentBack cfg id calls status ∧
      sentBack cfg id calls status ≤ budget (cfg.getConfig id) status := by
  induction h with
  | start h => exact ⟨h status, Nat.zero_le _⟩
  | @call earlier s c _ hkept hregistered hfails ih =>
    have hspec := call_spec hforce hlimit hregistered hfails
    rw [sentBack_cons]
    split at hspec
    · next hlt =>
      rw [hkept] at hlt
      rw [hspec.charged, hkept, hspec.returned, ih.1]
      by_cases heq : c.status = status
      · subst heq
        rw [if_pos rfl, if_pos ⟨rfl, rfl⟩]
        exact ⟨rfl, ih.1 ▸ hlt⟩
      · simpa [heq] using ih.2
    · have hnot : c.returned cfg id ≠ .value true := by
        rw [hspec.returned]
        split <;> simp
      simpa [hspec.charged, hkept, hnot] using ih

theorem countP_sentBack (h : Fed cfg id calls s) :
    (calls.countP fun c => c.returned cfg id = .value true) =
      sentBack cfg id calls .error + sentBack cfg id calls .failed := by
  induction h with
  | start => rfl
  | @call earlier s c _ _ _ hfails ih =>
    simp only [List.countP_cons, ih, sentBack_cons]
    rcases hfails with hstatus | hstatus <;> simp [hstatus] <;> omega

theorem Fed.suffix {calls rest : List (Call V)} (h : Fed cfg id calls s) (hrest : rest <:+ calls) :
    ∃ s', Fed cfg id rest s' := by
  induction h with
  | start h =>
    rw [List.suffix_nil.mp hrest]
    exact ⟨_, .start h⟩
  | call h hkept hregistered hfails ih =>
    rcases List.suffix_cons_iff.mp hrest with rfl | hrest
    · exact ⟨_, .call h hkept hregistered hfails⟩
    · exact ih hrest

theorem handleStepResult_budget (hforce : (cfg.getConfig id).forceRepeat = false)
    (hlimit : 0 < (cfg.getConfig id).repeatLimit) {calls : List (Call V)} (h : Fed cfg id calls s) :
    ((calls.countP fun c => c.returned cfg id = .value true : ℕ) : ℤ) ≤
        max (cfg.getConfig id).maxRetries 0 + (cfg.getConfig id).repeatLimit ∧
      ∀ c earlier, c :: earlier <:+ calls →
        (c.returned cfg id = .value true → (c.after cfg id).steps.get? id = some .pending) ∧
        (c.returned cfg id = .value false →
          (c.after cfg id).steps.get? id = some (settledStatus (cfg.getConfig id) c.status)) ∧
        (c.returned cfg id = .aborted ↔ (cfg.getConfig id).onFailure = .abort ∧
          budget (cfg.getConfig id) c.status ≤ sentBack cfg id earlier c.status) := by
  constructor
  · have herror := (charged_eq_sentBack hforce hlimit h .error).2
    have hfailed := (charged_eq_sentBack hforce hlimit h .failed).2
    have hrepeats : budget (cfg.getConfig id) .failed ≤ (cfg.getConfig id).repeatLimit.toNat := by
      simp only [budget]
      split <;> omega
    rw [countP_sentBack h]
    simp only [budget] at herror
    omega
  · intro c earlier hsuffix
    obtain ⟨_, hfed⟩ := h.suffix hsuffix
    cases hfed with
    | call hearlier hkept hregistered hfails =>
      have hspec := call_spec hforce hlimit hregistered hfails
      have hcharged := (charged_eq_sentBack hforce hlimit hearlier c.status).1
      rw [hkept, hcharged] at hspec
      split at hspec
      · next hlt =>
        have hnot := hlt.not_ge
        simp [hspec.returned, hspec.pending, hnot]
      · next hnot =>
        have hle := not_lt.mp hnot
        by_cases habort : (cfg.getConfig id).onFailure = .abort <;> simp [hspec.returned, hspec.settled, habort, hle]

end

def onePolicy (config : StepExecutionConfig) : Config Unit := { Config.bare with configs := .ofList [("a", config)] }

def oneRunning : State Unit := { steps := .ofList [("a", .running)], variableSpace := () }

theorem fed_oneRunning (config : StepExecutionConfig) : Fed (onePolicy config) "a" [] oneRunning :=
  .start fun status => by cases status <;> rfl

theorem Fed.again {cfg : Config Unit} {calls : List (Call Unit)} {s : State Unit} (h : Fed cfg "a" calls s)
    (hregistered : s.steps.contains "a") {status : StepStatus} (hfails : status = .failed ∨ status = .error) :
    Fed cfg "a" (⟨s, status⟩ :: calls) (Call.after cfg "a" ⟨s, status⟩) :=
  .call h (fun _ => rfl) hregistered hfails

/-- A repeat, a retry, and the second failed measurement is the end of the plan. -/
theorem handleStepResult_budget_abort :
    let config : StepExecutionConfig :=
      { maxRetries := 1, repeatOnMeasurementFail := true, repeatLimit := 1, onFailure := .abort }
    let cfg := onePolicy config
    let first : Call Unit := ⟨oneRunning, .failed⟩
    let second : Call Unit := ⟨first.after cfg "a", .error⟩
    let third : Call Unit := ⟨second.after cfg "a", .failed⟩
    first.returned cfg "a" = .value true ∧ second.returned cfg "a" = .value true ∧
      third.returned cfg "a" = .aborted := by
  intro config cfg first second third
  have hfed := (((fed_oneRunning config).again (by decide) (.inl rfl)).again (by decide +kernel) (.inr rfl)).again
    (by decide +kernel) (.inl rfl)
  refine ⟨by decide +kernel, by decide +kernel, ?_⟩
  exact (((handleStepResult_budget (by decide) (by decide) hfed).2 third [second, first] (List.suffix_refl _)).2.2).mpr
    ⟨by decide, by decide +kernel⟩

/-- A negative number of retries is no retry, but it does not take a repeat away. -/
theorem not_budget_negative :
    let config : StepExecutionConfig := { maxRetries := -1, repeatOnMeasurementFail := true, repeatLimit := 1 }
    Call.returned (onePolicy config) "a" ⟨oneRunning, .failed⟩ = .value true ∧
      ¬ ((1 : ℤ) ≤ config.maxRetries + config.repeatLimit) ∧
      Fed (onePolicy config) "a" [⟨oneRunning, .failed⟩] (Call.after (onePolicy config) "a" ⟨oneRunning, .failed⟩) :=
  ⟨by decide +kernel, by decide, (fed_oneRunning _).again (by decide) (.inl rfl)⟩

end AteStudio.Scheduler
