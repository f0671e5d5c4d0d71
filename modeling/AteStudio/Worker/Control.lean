import AteStudio.Relay.Status
import AteStudio.Worker.Attempts

/-!
# Control from the cloud (`api/v1/executions.py`)

Status and scheduler are connected only by control messages, and `abort_execution` publishes none.
-/

namespace AteStudio.CloudControl

open Relay (Control)
open Runs Relay

structure World where
  row : Relay.Execution
  worker : Worker
  channel : List Control := []

def World.Aborted (w : World) : Prop := w.row.status = "ABORTED"

inductive Move where
  | call (control : Control)
  | deliver
  -- The worker, the scheduler or what it runs does something else.
  | other (move : WorkerMove)

/-- `abort_execution` publishes only an event for the frontend. -/
def published : Control → List Control
  | .abort => []
  | control => [control]

def actionOf : Control → Action
  | .abort => .abort
  | .pause => .pause
  | .resume => .resume
  | .forceNext => .forceNext

section

variable (env : Env) (runId : String)

def step (w : World) : Move → World
  | .call control =>
    match Relay.openCall w.row control with
    | none => w
    | some session => { w with row := session.commit w.row, channel := w.channel ++ published control }
  | .deliver =>
    match w.channel with
    | [] => w
    | control :: rest => { w with worker := w.worker.step env (.control runId (actionOf control)), channel := rest }
  | .other move => { w with worker := w.worker.step env move }

end

def flags (worker : Worker) (index : Nat) : Option (Bool × Bool) :=
  (worker.attempts[index]?).map fun a => (a.scheduler.running, a.scheduler.paused)

def Agrees (index : Nat) (w : World) : Prop :=
  ∀ running paused, flags w.worker index = some (running, paused) →
    (w.row.status = "ABORTED" → running = false) ∧ (w.row.status = "PAUSING" → paused = true) ∧
      (w.row.status = "RESUMING" → running = true ∧ paused = false)

structure Holds (runId : String) (index : Nat) (worker : Worker) : Prop where
  scheduler : worker.currentScheduler = some index
  executionId : worker.currentExecutionId = some runId
  aborting : worker.aborting = none
  running : ∃ paused, flags worker index = some (true, paused)

/-- The worker lives and takes no other task, only the cloud steers the run, and nothing armed can pause it. -/
def Undisturbed (runId : String) (index : Nat) (w : World) : Move → Prop
  | .other (.pull _) | .other .disconnect => w.worker.pull ≠ .idle
  | .other (.nak _) => w.worker.pull ≠ .naking
  | .other .stopped => ∀ i, w.worker.pull ≠ .stopping i
  | .other (.control id action) => id ≠ runId ∨ ∃ breakpoints, action = .syncBreakpoints breakpoints
  | .other (.attempt i move) =>
    i = index → move.steers = false ∧ ∀ a, w.worker.attempts[index]? = some a → a.scheduler.Calm
  | .other .crash => False
  | _ => True

def NoAbort (w : World) : Move → Prop
  | .call .abort => Relay.openCall w.row .abort = none
  | _ => True

/-! ## Calls -/

section Calls

variable {env : Env} {runId : String} {w : World}

theorem openCall_commit {row : Execution} {control : Control} {session : Session}
    (h : openCall row control = some session) : (session.commit row).status = control.targetStatus := by
  unfold openCall at h
  split at h
  · cases h
  · obtain rfl := Option.some.inj h
    simp only [Session.commit]
    split
    · next heq => exact heq.symm
    · rfl

theorem openCall_aborted {row : Execution} (h : row.status = "ABORTED") (control : Control) :
    openCall row control = none := by
  rw [openCall, if_pos (by rw [h]; decide)]

theorem step_deliver_row : (step env runId w .deliver).row = w.row := by
  rw [step]
  split <;> rfl

theorem aborted_step (m : Move) (h : w.Aborted) : (step env runId w m).Aborted := by
  cases m with
  | call control =>
    rw [step, openCall_aborted h]
    exact h
  | deliver =>
    rw [World.Aborted, step_deliver_row]
    exact h
  | other move => exact h

theorem noAbort_iff (m : Move) (h : ¬ w.Aborted) : NoAbort w m ↔ ¬ (step env runId w m).Aborted := by
  cases m with
  | call control =>
    rw [step]
    cases hcall : openCall w.row control with
    | none => cases control <;> simp [NoAbort, hcall, h]
    | some session =>
      have hstatus := openCall_commit hcall
      cases control <;> simp [NoAbort, World.Aborted, hcall, hstatus, Control.targetStatus]
  | deliver =>
    rw [World.Aborted, step_deliver_row]
    exact iff_of_true trivial h
  | other move => exact iff_of_true trivial h

theorem meets_noAbort_iff {moves : List Move} (h : ¬ w.Aborted) :
    Meets (step env runId) NoAbort w moves ↔ ¬ (run (step env runId) w moves).Aborted :=
  meets_iff_not_spoiled (fun _ m => aborted_step m) (fun _ m => noAbort_iff m) h

end Calls

/-! ## Messages -/

def pausedBy (paused : Bool) : Control → Bool
  | .pause => true
  | .resume => false
  | _ => paused

section Messages

variable {env : Env} {runId : String} {index : Nat} {worker : Worker} {running paused : Bool}

theorem flags_command {move : Scheduler.Move VariableSpace} {running' paused' : Bool}
    (hflags : flags worker index = some (running, paused))
    (h : ∀ cfg (s : Scheduler.State VariableSpace), s.running = running → s.paused = paused →
      (Scheduler.step cfg s move).running = running' ∧ (Scheduler.step cfg s move).paused = paused') :
    flags (worker.update index (·.command move)) index = some (running', paused') := by
  obtain ⟨a, ha, hpair⟩ := Option.map_eq_some_iff.mp hflags
  obtain ⟨hrunning, hpaused⟩ := Prod.mk.inj hpair
  obtain ⟨hrunning', hpaused'⟩ := h a.config a.scheduler hrunning hpaused
  simp [flags, Worker.update, ha, Attempt.command, hrunning', hpaused']

theorem Holds.command (h : Holds runId index worker) (move : Scheduler.Move VariableSpace) :
    worker.command move = worker.update index (·.command move) := by
  rw [Worker.command, h.scheduler]

theorem Holds.deliver (h : Holds runId index worker) (hflags : flags worker index = some (true, paused))
    {control : Control} (hcontrol : control ≠ .abort) :
    Holds runId index (worker.step env (.control runId (actionOf control))) ∧
      flags (worker.step env (.control runId (actionOf control))) index = some (true, pausedBy paused control) := by
  have hstep : ∃ move, worker.step env (.control runId (actionOf control)) = worker.update index (·.command move) ∧
      ∀ cfg (s : Scheduler.State VariableSpace), s.running = true → s.paused = paused →
        (Scheduler.step cfg s move).running = true ∧ (Scheduler.step cfg s move).paused = pausedBy paused control := by
    simp only [Worker.step, Worker.control, h.aborting, h.executionId, Option.isSome_none, Bool.false_eq_true, if_false]
    cases control with
    | abort => exact absurd rfl hcontrol
    | pause => exact ⟨.pause, by simp [actionOf, h.command], fun _ _ hrunning _ => ⟨hrunning, rfl⟩⟩
    | resume => exact ⟨.resume, by simp [actionOf, h.command], fun _ _ hrunning _ => ⟨hrunning, rfl⟩⟩
    | forceNext =>
      exact ⟨.forceNext, by simp [actionOf, h.command], fun _ _ hrunning hpaused => ⟨hrunning, hpaused⟩⟩
  obtain ⟨move, heq, hmove⟩ := hstep
  have hflags' := flags_command hflags hmove
  rw [heq]
  exact ⟨⟨h.scheduler, h.executionId, h.aborting, _, hflags'⟩, hflags'⟩

end Messages

/-! ## Other moves -/

section Others

variable {env : Env} {runId : String} {index : Nat} {worker : Worker}

theorem flags_update {i : Nat} {f : Attempt → Attempt} (h : i = index → ∀ a, worker.attempts[index]? = some a →
    (f a).scheduler.running = a.scheduler.running ∧ (f a).scheduler.paused = a.scheduler.paused) :
    flags (worker.update i f) index = flags worker index := by
  rw [flags, flags, Worker.update, List.getElem?_modify]
  cases ha : worker.attempts[index]? with
  | none => rfl
  | some a =>
    dsimp only [Option.map_eq_map, Option.map_some]
    split
    · next hi => rw [(h hi a ha).1, (h hi a ha).2]
    · rfl

section

variable (h : Holds runId index worker)

include h

theorem Holds.same {w' : Worker} (hscheduler : w'.currentScheduler = worker.currentScheduler)
    (hexecution : w'.currentExecutionId = worker.currentExecutionId) (haborting : w'.aborting = worker.aborting)
    (hflags : flags w' index = flags worker index) : Holds runId index w' ∧ flags w' index = flags worker index :=
  ⟨⟨hscheduler.trans h.scheduler, hexecution.trans h.executionId, haborting.trans h.aborting, hflags ▸ h.running⟩,
    hflags⟩

theorem Holds.sync (id : String) (breakpoints : Option Json.Obj) :
    Holds runId index (worker.syncBreakpoints env id breakpoints) ∧
      flags (worker.syncBreakpoints env id breakpoints) index = flags worker index := by
  unfold Worker.syncBreakpoints
  dsimp only
  split
  · next hnone => cases h.scheduler.symm.trans hnone
  split
  · exact h.same rfl rfl rfl (flags_update fun _ _ _ => ⟨rfl, rfl⟩)
  · exact h.same rfl rfl rfl rfl

theorem Holds.other {row : Execution} {channel : List Control} {move : WorkerMove}
    (hm : Undisturbed runId index ⟨row, worker, channel⟩ (.other move)) :
    Holds runId index (worker.step env move) ∧ flags (worker.step env move) index = flags worker index := by
  cases move with
  | pull message =>
    rw [Worker.step, if_neg hm]
    exact h.same rfl rfl rfl rfl
  | disconnect =>
    rw [Worker.step, if_neg hm]
    exact h.same rfl rfl rfl rfl
  | nak ok =>
    rw [Worker.step, if_neg hm]
    exact h.same rfl rfl rfl rfl
  | stopped =>
    dsimp only [Worker.step]
    split
    · next i hi => exact absurd hi (hm i)
    · exact h.same rfl rfl rfl rfl
  | reset =>
    dsimp only [Worker.step]
    split
    · exact h.same rfl rfl rfl (flags_update fun _ _ _ => ⟨rfl, rfl⟩)
    · exact h.same rfl rfl rfl rfl
  | ack ok =>
    dsimp only [Worker.step]
    split <;> exact h.same rfl rfl rfl rfl
  | aborted =>
    dsimp only [Worker.step]
    rw [h.aborting]
    exact h.same rfl rfl rfl rfl
  | control id action =>
    dsimp only [Worker.step]
    unfold Worker.control
    rw [if_neg (by simp [h.aborting])]
    rcases hm with hid | ⟨breakpoints, rfl⟩
    · have hother : worker.currentExecutionId ≠ some id := by simpa [h.executionId] using Ne.symm hid
      cases action with
      | syncBreakpoints breakpoints => exact h.sync id breakpoints
      | _ =>
        dsimp only
        rw [if_pos hother]
        exact h.same rfl rfl rfl rfl
    · exact h.sync id breakpoints
  | attempt i move =>
    dsimp only [Worker.step, Worker.runAttempt]
    split
    · exact h.same rfl rfl rfl rfl
    next a ha =>
    split
    · next hown =>
      refine h.same rfl rfl rfl (flags_update fun hi b hb => ?_)
      obtain ⟨hsteers, hcalm⟩ := hm hi
      subst hi
      cases ha.symm.trans hb
      have hflow := own_flow a.config (d := ⟨a.scheduler, worker.file⟩) (Bool.and_eq_true_iff.mp hown).2 hsteers
      exact ⟨hflow.runs, (hflow.paused (hcalm a ha)).2⟩
    · exact h.same rfl rfl rfl rfl
  | crash => exact hm.elim

end

end Others

/-! ## Runs -/

/-- The scheduler will be as the status says when the messages that are under way have come. -/
structure Follows (runId : String) (index : Nat) (w : World) : Prop where
  holds : Holds runId index w.worker
  channel : .abort ∉ w.channel
  pausing : ∀ paused, flags w.worker index = some (true, paused) → w.row.status = "PAUSING" →
    w.channel.foldl pausedBy paused = true
  resuming : ∀ paused, flags w.worker index = some (true, paused) → w.row.status = "RESUMING" →
    w.channel.foldl pausedBy paused = false

section Runs

variable {env : Env} {runId : String} {index : Nat} {w : World}

theorem Follows.call (h : Follows runId index w) (control : Control) :
    Follows runId index (step env runId w (.call control)) := by
  rw [step]
  cases hcall : openCall w.row control with
  | none => exact h
  | some session =>
    have hstatus := openCall_commit hcall
    refine ⟨h.holds, ?_, fun paused _ hpausing => ?_, fun paused _ hresuming => ?_⟩
    · rw [List.mem_append, not_or]
      exact ⟨h.channel, by cases control <;> simp [published]⟩
    -- The status is the one of this call, whose message comes last.
    · rw [hstatus] at hpausing
      cases control <;> simp_all [Control.targetStatus, published, pausedBy]
    · rw [hstatus] at hresuming
      cases control <;> simp_all [Control.targetStatus, published, pausedBy]

theorem Follows.deliver (h : Follows runId index w) : Follows runId index (step env runId w .deliver) := by
  rw [step]
  split
  · exact h
  · next control rest hchannel =>
    obtain ⟨paused, hflags⟩ := h.holds.running
    have hnot := h.channel
    rw [hchannel, List.mem_cons, not_or] at hnot
    obtain ⟨hholds, hflags'⟩ := h.holds.deliver hflags (Ne.symm hnot.1)
    have hpausing := h.pausing paused hflags
    have hresuming := h.resuming paused hflags
    rw [hchannel, List.foldl_cons] at hpausing hresuming
    refine ⟨hholds, hnot.2, fun paused' heq hstatus => ?_, fun paused' heq hstatus => ?_⟩
    · obtain rfl : pausedBy paused control = paused' := by simpa [hflags'] using heq
      exact hpausing hstatus
    · obtain rfl : pausedBy paused control = paused' := by simpa [hflags'] using heq
      exact hresuming hstatus

theorem Follows.step (m : Move) (h : Follows runId index w) (hm : Undisturbed runId index w m) :
    Follows runId index (step env runId w m) := by
  cases m with
  | call control => exact h.call control
  | deliver => exact h.deliver
  | other move =>
    obtain ⟨hholds, hflags⟩ := @Holds.other env _ _ _ h.holds _ _ _ hm
    refine ⟨hholds, h.channel, fun paused heq => h.pausing paused ?_, fun paused heq => h.resuming paused ?_⟩
    · exact hflags ▸ heq
    · exact hflags ▸ heq

theorem Follows.start (hw : Holds runId index w.worker) (hempty : w.channel = []) (hagrees : Agrees index w) :
    Follows runId index w where
  holds := hw
  channel := by simp [hempty]
  pausing paused hflags hstatus := by
    rw [hempty]
    exact (hagrees true paused hflags).2.1 hstatus
  resuming paused hflags hstatus := by
    rw [hempty]
    exact ((hagrees true paused hflags).2.2 hstatus).2

theorem Follows.agrees_iff (h : Follows runId index w) (hempty : w.channel = []) : Agrees index w ↔ ¬ w.Aborted := by
  obtain ⟨paused, hflags⟩ := h.holds.running
  have hpausing := h.pausing paused hflags
  have hresuming := h.resuming paused hflags
  rw [hempty] at hpausing hresuming
  constructor
  · intro hagrees haborted
    exact Bool.noConfusion ((hagrees true paused hflags).1 haborted)
  · intro hnot running paused' heq
    obtain ⟨rfl, rfl⟩ : true = running ∧ paused = paused' := by simpa [hflags] using heq
    exact ⟨fun haborted => absurd haborted hnot, hpausing, fun hstatus => ⟨rfl, hresuming hstatus⟩⟩

/-- In the end the scheduler is as recorded exactly if no abort was accepted. -/
theorem agrees_iff_noAbort (hw : Holds runId index w.worker) (hempty : w.channel = []) (hagrees : Agrees index w)
    (moves : List Move) (hmoves : Meets (step env runId) (Undisturbed runId index) w moves)
    (hdelivered : (run (step env runId) w moves).channel = []) :
    Agrees index (run (step env runId) w moves) ↔ Meets (step env runId) NoAbort w moves := by
  have hstart := Follows.start hw hempty hagrees
  have hfollows : Follows runId index (run (step env runId) w moves) :=
    run_invariant (fun _ m h hm => h.step m hm) hstart hmoves
  rw [hfollows.agrees_iff hdelivered, meets_noAbort_iff ((hstart.agrees_iff hempty).mp hagrees)]

end Runs

/-! ## A run with one step -/

def bootedWorld : World where
  row := { status := "RUNNING", stepResults := none }
  worker := Worker.run Env.bare {} [.pull (oneStepTask "run"), .ack true]

theorem holds_bootedWorld : Holds "run" 0 bootedWorld.worker :=
  ⟨by decide +kernel, by decide +kernel, by decide +kernel, false, by decide +kernel⟩

theorem agrees_bootedWorld : Agrees 0 bootedWorld := by
  intro running paused _
  simp [bootedWorld]

def resumedMoves : List Move :=
  [.call .pause, .deliver, .other (.attempt 0 (.scheduler (.scan false .silent) 0)), .call .resume, .deliver]

theorem agrees_resumedMoves :
    (run (step Env.bare "run") bootedWorld resumedMoves).row.status = "RESUMING" ∧
      Agrees 0 (run (step Env.bare "run") bootedWorld resumedMoves) := by
  have hundisturbed : Meets (step Env.bare "run") (Undisturbed "run" 0) bootedWorld resumedMoves := by
    refine ⟨trivial, trivial, fun _ => ⟨rfl, fun a ha => .inl ?_⟩, trivial, trivial, trivial⟩
    have hflags : flags (run (step Env.bare "run") bootedWorld [.call .pause, .deliver]).worker 0 = some (true, true) := by
      decide +kernel
    obtain ⟨b, hb, hpair⟩ := Option.map_eq_some_iff.mp hflags
    cases ha.symm.trans hb
    exact (Prod.mk.inj hpair).2
  refine ⟨by decide +kernel, ?_⟩
  rw [agrees_iff_noAbort holds_bootedWorld rfl agrees_bootedWorld resumedMoves hundisturbed (by decide +kernel)]
  exact ⟨trivial, trivial, trivial, trivial, trivial, trivial⟩

/-- The abort is recorded, no message is published, and the scheduler goes on. -/
theorem not_agrees_abortCall :
    Holds "run" 0 bootedWorld.worker ∧ Agrees 0 bootedWorld ∧
      (run (step Env.bare "run") bootedWorld [.call .abort]).channel = [] ∧
      ¬ Agrees 0 (run (step Env.bare "run") bootedWorld [.call .abort]) := by
  refine ⟨holds_bootedWorld, agrees_bootedWorld, by decide +kernel, fun h => ?_⟩
  have hstopped := (h true false (by decide +kernel)).1 (by decide +kernel)
  exact Bool.noConfusion hstopped

end AteStudio.CloudControl
