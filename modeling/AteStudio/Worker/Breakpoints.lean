import AteStudio.Worker.Attempts

/-! # Breakpoints and the run they were sent for -/

namespace AteStudio

open List Option

open Json (Obj)
open Scheduler (EdgeBreakpoint beginStart maybeResume_eq)

def Message.ownDefs? (message : Message) : Option (List Obj) :=
  message.data.bind fun data => defs? ((Json.loads data).get? "breakpoints")

def Message.boots (message : Message) : Bool :=
  (Worker.decode message.data).any fun task => (Bootstrap.bootstrap task.1).toOption.isSome

namespace Worker

variable {env : Env} {w : Worker} {m : WorkerMove}

def SentFor (w : Worker) : Prop :=
  ∀ (i : Nat) (a : Attempt), w.attempts[i]? = some a → ∀ bp ∈ a.scheduler.breakpoints, (a.executionId, bp) ∈ w.sent

/-- Breakpoints pending for a task that boots are of its run, and definitions arrive for the current execution. -/
def OwnDefs (env : Env) (w : Worker) : WorkerMove → Prop
  | .pull message => message.boots = true → message.ownDefs?.isSome = true ∨
      parseBreakpointDefs env (w.pendingBreakpointDefs.getD []) = [] ∨ w.pendingFor = some message.executionId
  | .control runId (.syncBreakpoints _) => w.currentExecutionId = some runId →
      (w.currentScheduler.bind (w.attempts[·]?)).all (·.executionId = runId) = true
  | _ => True

instance decidableOwnDefs (env : Env) (w : Worker) : ∀ m, Decidable (OwnDefs env w m)
  | .pull _ => inferInstanceAs (Decidable (_ → _ ∨ _))
  | .control _ (.syncBreakpoints _) => inferInstanceAs (Decidable (_ → _))
  | .control _ .abort | .control _ .pause | .control _ .resume | .control _ .forceNext | .control _ (.stepControl ..)
  | .reset | .ack _ | .nak _ | .disconnect | .stopped | .aborted | .attempt .. | .crash => isTrue trivial

def PendingSent (env : Env) (w : Worker) : Prop :=
  ∀ raw, w.pendingBreakpointDefs = some raw → ∃ runId, w.pendingFor = some runId ∧
    ∀ bp ∈ parseBreakpointDefs env raw, (runId, bp) ∈ w.sent

/-! ## Arming -/

theorem bootScheduler_breakpoints (booted : Bootstrap.Booted) (breakpoints : List EdgeBreakpoint) :
    (bootScheduler booted breakpoints).breakpoints = breakpoints := by
  cases breakpoints <;> rfl

theorem bootAttempt_breakpoints (file : Scheduler.SnapshotFile) (executionId : String) (booted : Bootstrap.Booted)
    (breakpoints : List EdgeBreakpoint) :
    (bootAttempt env file executionId booted breakpoints).1.scheduler.breakpoints = breakpoints := by
  obtain ⟨steps, queue, log, variableSpace, heq⟩ := maybeResume_eq file
    { bootScheduler booted breakpoints with running := true, down := false, log := .began :: [] }
  have hbegin : (bootAttempt env file executionId booted breakpoints).1.scheduler =
      (Scheduler.maybeResume file { bootScheduler booted breakpoints with
        running := true, down := false, log := .began :: [] }).1 := rfl
  rw [hbegin, heq]
  exact bootScheduler_breakpoints booted breakpoints

theorem finishStart_breakpoints (a : Attempt) : a.finishStart.scheduler.breakpoints = a.scheduler.breakpoints := rfl

end Worker

theorem Evolves.breakpoints {env : Env} {w : Worker} {m : WorkerMove} {i : Nat} {a a' : Attempt}
    (h : Evolves env w m i a a') : a'.scheduler.breakpoints = a.scheduler.breakpoints ∨
      ∃ runId breakpoints, m = .control runId (.syncBreakpoints breakpoints) ∧ w.aborting = none ∧
        w.currentScheduler = some i ∧ w.currentExecutionId = some runId ∧
        a'.scheduler.breakpoints = parseBreakpointDefs env ((defs? breakpoints).getD []) := by
  cases h with
  | same | crashed | started => exact .inl rfl
  | commanded move hedits hstart => exact .inl (Scheduler.step_frame a.config a.scheduler hedits hstart).breakpoints
  | aborted => exact .inl (aborted_frame a).breakpoints
  | armed hm haborting hscheduler hexecution => exact .inr ⟨_, _, hm, haborting, hscheduler, hexecution, rfl⟩
  | worked _ _ hown => exact .inl (own_frame a.config hown).1

namespace Worker

variable {env : Env} {w : Worker} {m : WorkerMove}

/-! ## What was sent -/

theorem sync_sent (runId : String) (breakpoints : Option Obj) : (w.syncBreakpoints env runId breakpoints).sent =
    (parseBreakpointDefs env ((defs? breakpoints).getD [])).map (runId, ·) ++ w.sent := by
  unfold syncBreakpoints
  dsimp only
  split
  · rfl
  · split <;> rfl

theorem step_defs (hm : m.pulls = false) :
    ((w.step env m).sent = w.sent ∧ (w.step env m).pendingBreakpointDefs = w.pendingBreakpointDefs ∧
      (w.step env m).pendingFor = w.pendingFor) ∨
    m = .crash ∨ ∃ runId breakpoints, w.step env m = w.syncBreakpoints env runId breakpoints := by
  cases hstores : m.stores with
  | false =>
    obtain ⟨_, _, hsent, hpending, hfor⟩ := @step_store env w m hstores
    exact .inl ⟨hsent, hpending, hfor⟩
  | true =>
    cases m with
    | pull => cases hm
    | crash => exact .inr (.inl rfl)
    | attempt index move =>
      dsimp only [Worker.step, runAttempt]
      split
      · exact .inl ⟨rfl, rfl, rfl⟩
      · split <;> exact .inl ⟨rfl, rfl, rfl⟩
    | control runId action =>
      cases action with
      | syncBreakpoints breakpoints =>
        dsimp only [Worker.step, control]
        split
        · exact .inl ⟨rfl, rfl, rfl⟩
        · exact .inr (.inr ⟨runId, breakpoints, rfl⟩)
      | _ => cases hstores
    | _ => cases hstores

theorem sent_step (hm : m.pulls = false) : w.sent ⊆ (w.step env m).sent := by
  rcases @step_defs env w m hm with ⟨hsent, _⟩ | rfl | ⟨runId, breakpoints, heq⟩
  · rw [hsent]
    exact List.Subset.refl _
  · exact List.Subset.refl _
  · rw [heq, sync_sent]
    exact subset_append_right _ _

theorem PendingSent.sync (h : PendingSent env w) (runId : String) (breakpoints : Option Obj) :
    PendingSent env (w.syncBreakpoints env runId breakpoints) := by
  intro raw hraw
  rw [sync_sent]
  unfold syncBreakpoints at hraw ⊢
  dsimp only at hraw ⊢
  split at hraw
  · cases hraw
    exact ⟨runId, rfl, fun bp hbp => mem_append_left _ (mem_map_of_mem hbp)⟩
  · have hold : w.pendingBreakpointDefs = some raw := by
      split at hraw <;> exact hraw
    obtain ⟨runId', hfor, hsent⟩ := h raw hold
    refine ⟨runId', ?_, fun bp hbp => mem_append_right _ (hsent bp hbp)⟩
    split <;> exact hfor

theorem PendingSent.step (h : PendingSent env w) (hm : m.pulls = false) : PendingSent env (w.step env m) := by
  rcases @step_defs env w m hm with ⟨hsent, hpending, hfor⟩ | rfl | ⟨runId, breakpoints, heq⟩
  · unfold PendingSent
    rw [hsent, hpending, hfor]
    exact h
  · intro raw hraw
    cases hraw
  · rw [heq]
    exact h.sync runId breakpoints

theorem SentFor.step (h : SentFor w) (hm : m.pulls = false) (hown : OwnDefs env w m) : SentFor (w.step env m) := by
  intro i a' ha' bp hbp
  obtain ⟨a, ha, hevolves⟩ := step_evolves hm ha'
  rw [hevolves.follows.executionId]
  rcases hevolves.breakpoints with hsame | ⟨runId, breakpoints, rfl, haborting, hscheduler, hexecution, harmed⟩
  · rw [hsame] at hbp
    exact sent_step hm (h i a ha bp hbp)
  · have hrun : a.executionId = runId := by
      have hall := hown hexecution
      rw [hscheduler, bind_some, ha] at hall
      simpa using hall
    have hstep : (w.step env (.control runId (.syncBreakpoints breakpoints))).sent =
        (parseBreakpointDefs env ((defs? breakpoints).getD [])).map (runId, ·) ++ w.sent := by
      simp [Worker.step, control, haborting, sync_sent]
    rw [harmed] at hbp
    rw [hstep, hrun]
    exact mem_append_left _ (mem_map_of_mem hbp)

/-! ## Pulling -/

variable {message : Message}

theorem decode_ownDefs {plan : YamlPlan} {own : Option (List Obj)}
    (h : decode message.data = some (plan, own)) : message.ownDefs? = own := by
  cases hdata : message.data with
  | none => simp [decode, hdata] at h
  | some data =>
    simp only [decode, hdata, bind_eq_bind, bind_some, bind_eq_some_iff, pure, some.injEq, Prod.mk.injEq] at h
    obtain ⟨_, _, _, _, _, rfl⟩ := h
    simp [Message.ownDefs?, hdata]

theorem taken_sent (hpending : PendingSent env w) (hown : OwnDefs env w (.pull message))
    (hboots : message.boots = true) :
    ∀ bp ∈ parseBreakpointDefs env ((message.ownDefs?.or w.pendingBreakpointDefs).getD []),
      (message.executionId, bp) ∈ (w.takeDefs env message.executionId message.ownDefs?).sent := by
  intro bp hbp
  cases hdefs : message.ownDefs? with
  | some raw =>
    rw [hdefs] at hbp
    exact mem_append_left _ (mem_map_of_mem hbp)
  | none =>
    rw [hdefs, none_or] at hbp
    refine mem_append_right _ ?_
    cases hraw : w.pendingBreakpointDefs with
    | none =>
      rw [hraw] at hbp
      cases hbp
    | some raw =>
      obtain ⟨runId, hfor, hsent⟩ := hpending raw hraw
      have hrun : w.pendingFor = some message.executionId := by
        rcases hown hboots with hsome | hnone | hrun
        · simp [hdefs] at hsome
        · rw [hnone] at hbp
          cases hbp
        · exact hrun
      rw [hraw] at hbp
      obtain rfl : runId = message.executionId := some.inj (hfor.symm.trans hrun)
      exact hsent bp hbp

theorem SentFor.process (h : SentFor w) (hpending : PendingSent env w)
    (hown : OwnDefs env w (.pull message)) :
    SentFor (w.process env message) ∧ PendingSent env (w.process env message) := by
  unfold Worker.process
  dsimp only
  split
  · exact ⟨h, hpending⟩
  next plan own hdecode =>
  have hgrows : w.sent ⊆ (w.takeDefs env message.executionId own).sent := subset_append_right _ _
  split
  · exact ⟨fun i a ha bp hbp => hgrows (h i a ha bp hbp), fun raw hraw => by cases hraw⟩
  · next booted hboot =>
    have htaken := taken_sent hpending hown (by simp [Message.boots, hdecode, hboot, Except.toOption])
    rw [decode_ownDefs hdecode] at htaken
    refine ⟨fun i a ha bp hbp => ?_, fun raw hraw => by cases hraw⟩
    rcases boot_getElem? ha with hold | ⟨_, rfl | rfl⟩
    · exact hgrows (h i a hold bp hbp)
    · rw [bootAttempt_breakpoints] at hbp
      exact htaken bp hbp
    · rw [finishStart_breakpoints, bootAttempt_breakpoints] at hbp
      exact htaken bp hbp

/-- Where definitions come in time, every armed breakpoint was sent for the execution it is armed on. -/
theorem sent_for {moves : List WorkerMove} {file : Scheduler.SnapshotFile}
    (hmoves : Runs.Meets (Worker.step env) (OwnDefs env) { file } moves) : SentFor (Worker.run env { file } moves) := by
  have hstep := @step_invariant env (fun w => SentFor w ∧ PendingSent env w) (OwnDefs env)
    (fun _ _ h hown => h.1.process h.2 hown) (fun _ _ hm h hown => ⟨h.1.step hm hown, h.2.step hm⟩)
  have hstart : SentFor { file := file } ∧ PendingSent env { file := file } := by
    refine ⟨fun i a ha => ?_, fun raw hraw => ?_⟩
    · cases ha
    · cases hraw
  exact (Runs.run_invariant hstep hstart hmoves).1

def breakOnA : EdgeBreakpoint := { id := "b1", kind := .step, target := "a" }

def breakOnADef : Obj :=
  .dict [(.str "id", .str "b1"), (.str "kind", .str "step"), (.str "target", .str "a")]

/-- The definitions for `e1` come before its task, and again while it runs. -/
def syncedFirst : List WorkerMove := [
  .control "e1" (.syncBreakpoints (some (.list [breakOnADef]))),
  .pull (oneStepTask "e1"),
  .ack true,
  .control "e1" (.syncBreakpoints (some (.list [breakOnADef])))]

theorem sent_for_syncedFirst : Runs.Meets (Worker.step Env.bare) (OwnDefs Env.bare) {} syncedFirst ∧
    SentFor (Worker.run Env.bare {} syncedFirst) ∧
    (Worker.run Env.bare {} syncedFirst).attempts.map (·.scheduler.breakpoints) = [[breakOnA]] :=
  ⟨by decide +kernel, sent_for (by decide +kernel), by decide +kernel⟩

/-- The definitions for `e1` are pending when the task of `e2` comes. -/
def pulledOther : Worker := Worker.run Env.bare {} [
  .control "e1" (.syncBreakpoints (some (.list [breakOnADef]))),
  .pull (oneStepTask "e2")]

/-- The breakpoint was sent for `e1` alone, and is armed on `e2`. -/
theorem armed_on_other : pulledOther.attempts.map (fun a => (a.executionId, a.scheduler.breakpoints)) =
      [("e2", [breakOnA])] ∧ pulledOther.sent = [("e1", breakOnA)] ∧ ¬ SentFor pulledOther := by
  have hsent : pulledOther.sent = [("e1", breakOnA)] := by decide +kernel
  have harmed : (pulledOther.attempts[0]?.any fun a =>
      a.executionId = "e2" && a.scheduler.breakpoints = [breakOnA]) = true := by
    decide +kernel
  refine ⟨by decide +kernel, hsent, fun h => ?_⟩
  cases ha : pulledOther.attempts[0]? with
  | none =>
    rw [ha] at harmed
    cases harmed
  | some a =>
    rw [ha, any_some, Bool.and_eq_true, decide_eq_true_eq, decide_eq_true_eq] at harmed
    have hmem := h 0 a ha breakOnA (by rw [harmed.2]; exact List.mem_singleton_self _)
    rw [hsent, harmed.1] at hmem
    exact absurd hmem (by decide)

end Worker

end AteStudio
