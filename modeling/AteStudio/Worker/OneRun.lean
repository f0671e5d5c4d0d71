import AteStudio.Worker.Attempts

/-!
# One run at a time

`pull_and_process_one` returns when the scheduler has started.
-/

namespace AteStudio

open Scheduler (step_frame)

namespace Worker

variable {env : Env} {w : Worker} {m : WorkerMove}

def OneRun (w : Worker) : Prop :=
  ∀ i a, w.attempts[i]? = some a → a.alive = true → a.scheduler.running = true →
    w.currentScheduler = some i ∧ w.currentExecutionId = some a.executionId

def idle (w : Worker) : Bool := w.attempts.all fun a => !(a.alive && a.scheduler.running)

/-- Pulled when nothing runs and no abort is under way, and no failure once it runs. -/
def Alone (w : Worker) : WorkerMove → Prop
  | .pull _ => w.idle = true ∧ w.aborting = none
  | .nak true => w.idle = true
  | _ => True

instance decidableAlone (w : Worker) : ∀ m, Decidable (Alone w m)
  | .pull _ => inferInstanceAs (Decidable (_ ∧ _))
  | .nak true => inferInstanceAs (Decidable (_ = _))
  | .nak false | .reset | .ack _ | .disconnect | .stopped | .control .. | .aborted | .attempt .. | .crash =>
    isTrue trivial

structure OneRunInv (w : Worker) : Prop where
  oneRun : OneRun w
  aborting : w.aborting ≠ none → w.idle = true
  stopping : ∀ i, w.pull = .stopping i → w.idle = true

theorem idle_iff : w.idle = true ↔ ∀ (i : Nat) (a : Attempt), w.attempts[i]? = some a → a.alive = true →
    a.scheduler.running = false := by
  constructor
  · intro h i a ha halive
    have hall := List.all_eq_true.mp h a (List.mem_of_getElem? ha)
    simpa [halive] using hall
  · intro h
    refine List.all_eq_true.mpr fun a ha => ?_
    obtain ⟨i, hi⟩ := List.mem_iff_getElem?.mp ha
    cases halive : a.alive with
    | false => rfl
    | true => simp [h i a hi halive]

theorem OneRunInv.of_idle (h : w.idle = true) : OneRunInv w := by
  refine ⟨fun i a ha halive hrunning => ?_, fun _ => h, fun _ _ => h⟩
  rw [idle_iff.mp h i a ha halive] at hrunning
  cases hrunning

theorem idle_step (hm : m.pulls = false) (h : w.idle = true) : (w.step env m).idle = true := by
  rw [idle_iff] at h ⊢
  intro i a' ha' halive'
  obtain ⟨a, ha, hevolves⟩ := step_evolves hm ha'
  have hfollows := hevolves.follows
  have hstill := h i a ha (hfollows.alive halive')
  exact Bool.eq_false_iff.mpr fun hrunning => by simp [hfollows.running hrunning] at hstill

theorem OneRun.step (h : OneRun w) (hm : m.pulls = false)
    (hscheduler : (w.step env m).currentScheduler = w.currentScheduler)
    (hexecution : (w.step env m).currentExecutionId = w.currentExecutionId) : OneRun (w.step env m) := by
  intro i a' ha' halive' hrunning'
  obtain ⟨a, ha, hevolves⟩ := step_evolves hm ha'
  have hfollows := hevolves.follows
  rw [hscheduler, hexecution, hfollows.executionId]
  exact h i a ha (hfollows.alive halive') (hfollows.running hrunning')

/-! ## Stopping the current scheduler -/

theorem stop_running (a : Attempt) : (a.command .stop).scheduler.running = false := by
  cases hrunning : a.scheduler.running <;> simp [Attempt.command, Scheduler.step, hrunning]

theorem OneRun.idle_update (h : OneRun w) {index : Nat} {f : Attempt → Attempt}
    (hcurrent : w.currentScheduler = some index) (hf : ∀ a, (f a).scheduler.running = false) :
    (w.update index f).idle = true := by
  rw [idle_iff]
  intro i a' ha' halive'
  obtain ⟨a, ha, rfl | ⟨_, rfl⟩⟩ := update_getElem? index f ha'
  · refine Bool.eq_false_iff.mpr fun hrunning => ?_
    -- What runs is the current one, and that one has changed.
    obtain rfl : index = i := Option.some.inj (hcurrent.symm.trans (h i a' ha halive' hrunning).1)
    rw [update, List.getElem?_modify, ha] at ha'
    have hsame : f a' = a' := by simpa using ha'
    rw [← hsame, hf] at hrunning
    cases hrunning
  · exact hf a

theorem OneRun.idle_of_none (h : OneRun w) (hcurrent : w.currentScheduler = none) : w.idle = true := by
  rw [idle_iff]
  intro i a ha halive
  refine Bool.eq_false_iff.mpr fun hrunning => ?_
  rw [(h i a ha halive hrunning).1] at hcurrent
  cases hcurrent

theorem OneRun.idle_stop (h : OneRun w) : w.stop.idle = true := by
  unfold stop
  split
  · next hnone => exact h.idle_of_none hnone
  · next index hcurrent =>
    have hidle := h.idle_update hcurrent stop_running
    dsimp only
    split <;> exact hidle

theorem OneRun.idle_abortCurrent (h : OneRun w) : w.abortCurrent.idle = true := by
  unfold abortCurrent
  split
  · next hnone => exact h.idle_of_none hnone
  · next index hcurrent =>
    have hidle := h.idle_update hcurrent fun a => stop_running a.errorPending
    dsimp only
    split <;> exact hidle

/-! ## Moves -/

theorem control_cases (h : OneRun w) (runId : String) (action : Action) : (w.control env runId action).idle = true ∨
    (w.control env runId action).currentScheduler = w.currentScheduler ∧
      (w.control env runId action).currentExecutionId = w.currentExecutionId ∧
      (w.control env runId action).aborting = w.aborting ∧ (w.control env runId action).pull = w.pull := by
  have hcommand (move : Scheduler.Move VariableSpace) : (w.command move).currentScheduler = w.currentScheduler ∧
      (w.command move).currentExecutionId = w.currentExecutionId ∧ (w.command move).aborting = w.aborting ∧
      (w.command move).pull = w.pull := by
    unfold command
    split <;> exact ⟨rfl, rfl, rfl, rfl⟩
  unfold control
  split
  · exact .inr ⟨rfl, rfl, rfl, rfl⟩
  split
  · refine .inr ?_
    unfold syncBreakpoints
    dsimp only
    split
    · exact ⟨rfl, rfl, rfl, rfl⟩
    · split <;> exact ⟨rfl, rfl, rfl, rfl⟩
  · split
    · exact .inr ⟨rfl, rfl, rfl, rfl⟩
    split
    · exact .inl h.idle_abortCurrent
    · exact .inr (hcommand _)
    · exact .inr (hcommand _)
    · exact .inr (hcommand _)
    · unfold stepControl
      dsimp only
      split
      · exact .inr ⟨rfl, rfl, rfl, rfl⟩
      · exact .inr (hcommand _)
    · exact .inr ⟨rfl, rfl, rfl, rfl⟩

theorem runAttempt_references (index : Nat) (move : Scheduler.DurableMove) :
    (w.runAttempt env index move).currentScheduler = w.currentScheduler ∧
      (w.runAttempt env index move).currentExecutionId = w.currentExecutionId ∧
      (w.runAttempt env index move).aborting = w.aborting ∧ (w.runAttempt env index move).pull = w.pull := by
  unfold runAttempt
  split
  · exact ⟨rfl, rfl, rfl, rfl⟩
  · split <;> exact ⟨rfl, rfl, rfl, rfl⟩

theorem OneRunInv.boot (h : w.idle = true) (habort : w.aborting = none) {executionId : String}
    (hexecution : w.currentExecutionId = some executionId) (booted : Bootstrap.Booted)
    (breakpoints : List Scheduler.EdgeBreakpoint) : OneRunInv (w.boot env executionId booted breakpoints) := by
  refine ⟨fun i a ha halive hrunning => ?_, fun hsome => absurd habort hsome, fun i hi => ?_⟩
  · rcases boot_getElem? ha with hold | ⟨rfl, rfl | rfl⟩
    · rw [idle_iff.mp h i a hold halive] at hrunning
      cases hrunning
    · exact ⟨rfl, hexecution⟩
    · exact ⟨rfl, hexecution⟩
  · unfold Worker.boot at hi
    dsimp only at hi
    split at hi
    · cases hi
    · split at hi <;> cases hi

theorem OneRunInv.process (h : w.idle = true) (habort : w.aborting = none) (message : Message) :
    OneRunInv (w.process env message) := by
  unfold Worker.process
  dsimp only
  split
  · exact .of_idle h
  split
  · exact .of_idle h
  · apply OneRunInv.boot
    · exact h
    · exact habort
    · rfl

open Worker

theorem OneRunInv.step (h : OneRunInv w) (hm : Alone w m) : OneRunInv (w.step env m) := by
  -- A move that leaves the references alone, and does not begin to stop a scheduler.
  have hsame (hpulls : m.pulls = false) (hscheduler : (w.step env m).currentScheduler = w.currentScheduler)
      (hexecution : (w.step env m).currentExecutionId = w.currentExecutionId)
      (haborting : (w.step env m).aborting = w.aborting)
      (hpull : ∀ i, (w.step env m).pull = .stopping i → w.pull = .stopping i) : OneRunInv (w.step env m) :=
    ⟨h.oneRun.step hpulls hscheduler hexecution, fun hsome => idle_step hpulls (h.aborting (haborting ▸ hsome)),
      fun i hi => idle_step hpulls (h.stopping i (hpull i hi))⟩
  have hidle (hpulls : m.pulls = false) (hidle : w.idle = true) : OneRunInv (w.step env m) :=
    .of_idle (idle_step hpulls hidle)
  cases m with
  | pull message =>
    dsimp only [step]
    split
    · exact .process hm.1 hm.2 message
    · exact h
  | reset =>
    refine hsame rfl ?_ ?_ ?_ ?_ <;> dsimp only [step] <;> split <;> simp [update]
  | ack ok =>
    refine hsame rfl ?_ ?_ ?_ ?_ <;> dsimp only [step] <;> split <;> cases ok <;> simp
  | nak ok =>
    cases ok with
    | true => exact hidle rfl hm
    | false =>
      dsimp only [step]
      split
      · exact .of_idle h.oneRun.idle_stop
      · exact h
  | disconnect =>
    dsimp only [step]
    split
    · exact .of_idle h.oneRun.idle_stop
    · exact h
  | stopped =>
    cases hpull : w.pull with
    | stopping index => exact hidle rfl (h.stopping index hpull)
    | _ => refine hsame rfl ?_ ?_ ?_ ?_ <;> simp [step, hpull]
  | control runId action =>
    rcases control_cases h.oneRun runId action with hcontrol | ⟨hscheduler, hexecution, haborting, hpull⟩
    · exact .of_idle hcontrol
    · exact hsame rfl hscheduler hexecution haborting fun i hi => hpull ▸ hi
  | aborted =>
    cases habort : w.aborting with
    | some index => exact hidle rfl (h.aborting (by simp [habort]))
    | none => refine hsame rfl ?_ ?_ ?_ ?_ <;> simp [step, habort]
  | attempt index move =>
    obtain ⟨hscheduler, hexecution, haborting, hpull⟩ := @runAttempt_references env w index move
    exact hsame rfl hscheduler hexecution haborting fun i hi => hpull ▸ hi
  | crash => exact .of_idle (by simp [idle, step])

theorem one_run {moves : List WorkerMove} {file : Scheduler.SnapshotFile}
    (hmoves : Runs.Meets (Worker.step env) Alone { file } moves) : OneRun (Worker.run env { file } moves) := by
  have hstart : OneRunInv { file := file } := .of_idle rfl
  exact (Runs.run_invariant (fun _ _ h hm => h.step hm) hstart hmoves).oneRun

def abortedFirst : List WorkerMove := [
  .pull (oneStepTask "e1"),
  .ack true,
  .control "e1" .abort,
  .attempt 0 (.scheduler .continueStop 0),
  .attempt 0 (.scheduler .continueStop 0),
  .aborted,
  .pull (oneStepTask "e2"),
  .ack true]

theorem one_run_abortedFirst : Runs.Meets (Worker.step Env.bare) Alone {} abortedFirst ∧
    OneRun (Worker.run Env.bare {} abortedFirst) ∧
    (Worker.run Env.bare {} abortedFirst).attempts.map (·.scheduler.running) = [false, true] :=
  ⟨by decide +kernel, one_run (by decide +kernel), by decide +kernel⟩

/-- Two tasks are pulled, and the first is to be aborted. -/
def pulledTwice : Worker := Worker.run Env.bare {} [
  .pull (oneStepTask "e1"),
  .ack true,
  .pull (oneStepTask "e2"),
  .ack true,
  .control "e1" .abort]

/-- Both schedulers run, and the first cannot be reached. -/
theorem two_runs :
    pulledTwice.attempts.map (fun a => (a.executionId, a.scheduler.running)) = [("e1", true), ("e2", true)] ∧
    pulledTwice.currentScheduler = some 1 ∧ pulledTwice.currentExecutionId = some "e2" ∧ ¬ OneRun pulledTwice := by
  have hcurrent : pulledTwice.currentScheduler = some 1 := by decide +kernel
  refine ⟨by decide +kernel, hcurrent, by decide +kernel, fun h => ?_⟩
  have hfirst : (pulledTwice.attempts[0]?.any fun a => a.alive && a.scheduler.running) = true := by decide +kernel
  cases ha : pulledTwice.attempts[0]? with
  | none =>
    rw [ha] at hfirst
    cases hfirst
  | some a =>
    rw [ha, Option.any_some, Bool.and_eq_true] at hfirst
    rw [(h 0 a ha hfirst.1 hfirst.2).1] at hcurrent
    exact absurd hcurrent (by decide)

end Worker

end AteStudio
