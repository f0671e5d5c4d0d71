import AteStudio.Worker.Code

/-!
# What a move does to an attempt

A pull adds at most one attempt. Every other move leaves the attempts in their places, and does one thing to each.
-/

namespace AteStudio

open List Option Scheduler

open Json (Obj Text)
open Scheduler (EdgeBreakpoint Durable DurableMove Frame Flow step_frame step_still updateStatus_still)

def WorkerMove.pulls : WorkerMove → Bool
  | .pull _ => true
  | _ => false

inductive Evolves (env : Env) (w : Worker) (m : WorkerMove) (index : Nat) (a : Attempt) : Attempt → Prop
  | same : Evolves env w m index a a
  | crashed : Evolves env w m index a { a with alive := false }
  | started : Evolves env w m index a a.finishStart
  | commanded (move : Scheduler.Move VariableSpace) : move.edits = false → move ≠ .start →
      Evolves env w m index a (a.command move)
  | aborted : Evolves env w m index a (a.errorPending.command .stop)
  | armed {runId : String} {breakpoints : Option Obj} : m = .control runId (.syncBreakpoints breakpoints) →
      w.aborting = none → w.currentScheduler = some index → w.currentExecutionId = some runId →
      Evolves env w m index a (a.arm (parseBreakpointDefs env ((defs? breakpoints).getD [])))
  | worked {move : DurableMove} : m = .attempt index move → a.alive = true → move.own = true →
      Evolves env w m index a (a.step w.file move)

namespace Worker

structure Evolved (env : Env) (w : Worker) (m : WorkerMove) (w' : Worker) : Prop where
  length : w'.attempts.length = w.attempts.length
  evolves : ∀ (i : Nat) (a' : Attempt), w'.attempts[i]? = some a' →
    ∃ a, w.attempts[i]? = some a ∧ Evolves env w m i a a'

variable {env : Env} {w w' : Worker} {m : WorkerMove} {i : Nat} {a a' : Attempt}

theorem Evolved.same (h : w'.attempts = w.attempts) : Evolved env w m w' :=
  ⟨by rw [h], fun _ a' ha' => ⟨a', h ▸ ha', .same⟩⟩

theorem update_getElem? (index : Nat) (f : Attempt → Attempt) (h : (w.update index f).attempts[i]? = some a') :
    ∃ a, w.attempts[i]? = some a ∧ (a' = a ∨ i = index ∧ a' = f a) := by
  rw [update, getElem?_modify] at h
  obtain ⟨a, ha, rfl⟩ := map_eq_some_iff.mp h
  refine ⟨a, ha, ?_⟩
  split
  · next heq => exact .inr ⟨heq.symm, rfl⟩
  · exact .inl rfl

theorem Evolved.update {index : Nat} {f : Attempt → Attempt}
    (hf : ∀ a, w.attempts[index]? = some a → Evolves env w m index a (f a))
    (h : w'.attempts = (w.update index f).attempts) : Evolved env w m w' := by
  refine ⟨?_, fun i a' ha' => ?_⟩
  · rw [h]
    exact length_modify ..
  · rw [h] at ha'
    obtain ⟨a, ha, rfl | ⟨rfl, rfl⟩⟩ := update_getElem? index f ha'
    · exact ⟨a', ha, .same⟩
    · exact ⟨a, ha, hf a ha⟩

theorem command_evolved {move : Move VariableSpace} (hedits : move.edits = false) (hstart : move ≠ .start) :
    Evolved env w m (w.command move) := by
  unfold command
  split
  · exact .same rfl
  · exact .update (fun _ _ => .commanded move hedits hstart) rfl

theorem stop_evolved : Evolved env w m w.stop := by
  unfold stop
  split
  · exact .same rfl
  · dsimp only
    split <;> exact .update (fun _ _ => .commanded .stop rfl (by simp)) rfl

theorem abortCurrent_evolved : Evolved env w m w.abortCurrent := by
  unfold abortCurrent
  split
  · exact .same rfl
  · dsimp only
    split <;> exact .update (fun _ _ => .aborted) rfl

theorem control_evolved {runId : String} {action : Action} (hm : m = .control runId action) :
    Evolved env w m (w.control env runId action) := by
  unfold control
  split
  · exact .same rfl
  next haborting =>
  rw [Bool.not_eq_true, isSome_eq_false_iff, isNone_iff_eq_none] at haborting
  split
  · unfold syncBreakpoints
    dsimp only
    split
    · exact .same rfl
    next hcurrent =>
    split
    · next hrun => exact .update (fun _ _ => .armed hm haborting hcurrent hrun) rfl
    · exact .same rfl
  · split
    · exact .same rfl
    split
    · exact abortCurrent_evolved
    · exact command_evolved rfl (by simp)
    · exact command_evolved rfl (by simp)
    · exact command_evolved rfl (by simp)
    · unfold stepControl
      dsimp only
      split
      · exact .same rfl
      · exact command_evolved rfl (by simp)
    · exact .same rfl

theorem runAttempt_evolved {index : Nat} {move : DurableMove} (hm : m = .attempt index move) :
    Evolved env w m (w.runAttempt env index move) := by
  unfold runAttempt
  split
  · exact .same rfl
  next a₀ ha₀ =>
  split
  · next hown =>
    obtain ⟨halive, hown⟩ := Bool.and_eq_true_iff.mp hown
    refine .update (fun a ha => ?_) rfl
    obtain rfl : a₀ = a := some.inj (ha₀.symm.trans ha)
    exact .worked hm halive hown
  · exact .same rfl

theorem step_evolved (hm : m.pulls = false) : Evolved env w m (w.step env m) := by
  cases m with
  | pull => cases hm
  | reset =>
    dsimp only [step]
    split
    · exact .update (fun _ _ => .started) rfl
    · exact .same rfl
  | ack ok =>
    dsimp only [step]
    split <;> exact .same rfl
  | nak ok =>
    dsimp only [step]
    split
    · cases ok with
      | true => exact .same rfl
      | false => exact stop_evolved
    · exact .same rfl
  | disconnect =>
    dsimp only [step]
    split
    · exact stop_evolved
    · exact .same rfl
  | stopped | aborted =>
    dsimp only [step]
    split
    · split <;> exact .same rfl
    · exact .same rfl
  | control runId action => exact control_evolved rfl
  | attempt index move => exact runAttempt_evolved rfl
  | crash =>
    refine ⟨length_map .., fun i a' ha' => ?_⟩
    dsimp only [step] at ha'
    rw [getElem?_map, map_eq_some_iff] at ha'
    obtain ⟨a, ha, rfl⟩ := ha'
    exact ⟨a, ha, .crashed⟩

theorem step_evolves (hm : m.pulls = false) (h : (w.step env m).attempts[i]? = some a') :
    ∃ a, w.attempts[i]? = some a ∧ Evolves env w m i a a' := (step_evolved hm).evolves i a' h

theorem evolves_step (hm : m.pulls = false) (h : w.attempts[i]? = some a) :
    ∃ a', (w.step env m).attempts[i]? = some a' ∧ Evolves env w m i a a' := by
  obtain ⟨hi, _⟩ := List.getElem?_eq_some_iff.mp h
  have hlength := (@step_evolved env w m hm).length
  have ha' := getElem?_eq_getElem (hlength ▸ hi)
  obtain ⟨b, hb, hevolves⟩ := step_evolves hm ha'
  obtain rfl : a = b := some.inj (h.symm.trans hb)
  exact ⟨_, ha', hevolves⟩

theorem step_invariant {inv : Worker → Prop} {good : Worker → WorkerMove → Prop}
    (hprocess : ∀ w message, inv w → good w (.pull message) → inv (w.process env message))
    (hother : ∀ w m, m.pulls = false → inv w → good w m → inv (w.step env m)) (w : Worker) (m : WorkerMove) (h : inv w)
    (hm : good w m) : inv (w.step env m) := by
  cases m with
  | pull message =>
    dsimp only [step]
    split
    · exact hprocess w message h hm
    · exact h
  | _ => exact hother w _ rfl h hm

/-! ### What is stored -/

structure SameStore (w w' : Worker) : Prop where
  file : w'.file = w.file
  savedBy : w'.savedBy = w.savedBy
  sent : w'.sent = w.sent
  pendingBreakpointDefs : w'.pendingBreakpointDefs = w.pendingBreakpointDefs
  pendingFor : w'.pendingFor = w.pendingFor

theorem SameStore.refl (w : Worker) : SameStore w w := ⟨rfl, rfl, rfl, rfl, rfl⟩

theorem command_store (move : Move VariableSpace) : SameStore w (w.command move) := by
  unfold command
  split <;> exact ⟨rfl, rfl, rfl, rfl, rfl⟩

theorem stop_store : SameStore w w.stop := by
  unfold stop
  split
  · exact ⟨rfl, rfl, rfl, rfl, rfl⟩
  · dsimp only
    split <;> exact ⟨rfl, rfl, rfl, rfl, rfl⟩

theorem abortCurrent_store : SameStore w w.abortCurrent := by
  unfold abortCurrent
  split
  · exact .refl w
  · dsimp only
    split <;> exact ⟨rfl, rfl, rfl, rfl, rfl⟩

end Worker

def WorkerMove.stores : WorkerMove → Bool
  | .pull _ | .attempt .. | .crash | .control _ (.syncBreakpoints _) => true
  | _ => false

namespace Worker

variable {env : Env} {w : Worker} {m : WorkerMove} {i : Nat} {a' : Attempt}

theorem control_store {runId : String} {action : Action} (h : (WorkerMove.control runId action).stores = false) :
    SameStore w (w.control env runId action) := by
  unfold control
  split
  · exact .refl w
  cases action with
  | syncBreakpoints => cases h
  | abort =>
    dsimp only
    split
    · exact .refl w
    · exact abortCurrent_store
  | stepControl mode target =>
    dsimp only
    split
    · exact .refl w
    · unfold stepControl
      dsimp only
      split
      · exact .refl w
      · exact command_store _
  | _ =>
    dsimp only
    split
    · exact .refl w
    · exact command_store _

theorem step_store (hm : m.stores = false) : SameStore w (w.step env m) := by
  cases m with
  | pull | attempt | crash => cases hm
  | reset =>
    dsimp only [step]
    split
    · exact ⟨rfl, rfl, rfl, rfl, rfl⟩
    · exact .refl w
  | ack ok =>
    dsimp only [step]
    split <;> exact ⟨rfl, rfl, rfl, rfl, rfl⟩
  | nak ok =>
    dsimp only [step]
    split
    · cases ok with
      | true => exact ⟨rfl, rfl, rfl, rfl, rfl⟩
      | false => exact stop_store
    · exact .refl w
  | disconnect =>
    dsimp only [step]
    split
    · exact stop_store
    · exact .refl w
  | stopped | aborted =>
    dsimp only [step]
    split
    · split <;> exact ⟨rfl, rfl, rfl, rfl, rfl⟩
    · exact .refl w
  | control runId action => exact control_store hm

/-! ### Pulling -/

theorem boot_attempts (executionId : String) (booted : Bootstrap.Booted) (breakpoints : List EdgeBreakpoint) :
    ∃ new, (w.boot env executionId booted breakpoints).attempts = w.attempts ++ [new] ∧
      (new = (bootAttempt env w.file executionId booted breakpoints).1 ∨
        new = (bootAttempt env w.file executionId booted breakpoints).1.finishStart) := by
  unfold boot
  dsimp only
  split
  · exact ⟨_, rfl, .inl rfl⟩
  split
  · exact ⟨_, rfl, .inl rfl⟩
  · exact ⟨_, rfl, .inr rfl⟩

theorem boot_getElem? {executionId : String} {booted : Bootstrap.Booted} {breakpoints : List EdgeBreakpoint}
    (h : (w.boot env executionId booted breakpoints).attempts[i]? = some a') : w.attempts[i]? = some a' ∨
      i = w.attempts.length ∧ (a' = (bootAttempt env w.file executionId booted breakpoints).1 ∨
        a' = (bootAttempt env w.file executionId booted breakpoints).1.finishStart) := by
  obtain ⟨new, hattempts, hnew⟩ := @boot_attempts env w executionId booted breakpoints
  rw [hattempts, getElem?_append] at h
  split at h
  · exact .inl h
  · rw [getElem?_singleton] at h
    split at h
    · cases h
      exact .inr ⟨by omega, hnew⟩
    · cases h

end Worker

/-! ## What stays -/

structure Follows (a a' : Attempt) : Prop where
  executionId : a'.executionId = a.executionId
  alive : a'.alive = true → a.alive = true
  running : a'.scheduler.running = true → a.scheduler.running = true
  log : a.scheduler.log ⊆ a'.scheduler.log
  writes : a.writes ⊆ a'.writes
  restoredSteps : a'.restoredSteps = a.restoredSteps
  restoredVariables : a'.restoredVariables = a.restoredVariables

/-! ### A scheduler at work -/

section Own

variable (cfg : Scheduler.Config VariableSpace) {d : Durable} {move : DurableMove}

theorem own_edits {move : Move VariableSpace} {now : Rat}
    (h : (DurableMove.scheduler move now).own = true) : move.edits = false ∧ move ≠ .start := by
  cases move with
  | start | stop | replaceBreakpoints | setVariable => cases h
  | _ => exact ⟨rfl, by simp⟩

theorem setVariable_edits (s : State VariableSpace) (name : String) (value : Obj) :
    (setVariable cfg s name value).breakpoints = s.breakpoints ∧ Flow s (setVariable cfg s name value) := by
  unfold setVariable
  split
  · exact ⟨rfl, rfl, fun h => ⟨h, rfl⟩⟩
  · exact ⟨rfl, .refl s⟩

theorem setVariable_lookup {s : State VariableSpace} {name : String} {value v : Obj} {path : VariablePath}
    (h : (setVariable cfg s name value).variableSpace.lookup path = some v) :
    s.variableSpace.lookup path = some v ∨ (path, v) ∈ (VariablePath.parse? name).toList.map (·, value) := by
  unfold setVariable VariableSpace.set? at h
  cases hname : VariablePath.parse? name with
  | none =>
    rw [hname] at h
    exact .inl h
  | some written =>
    rw [hname] at h
    dsimp only [map_some, step] at h
    rw [VariableSpace.lookup_write] at h
    split at h
    · next hpath =>
      cases h
      exact .inr (by simp [hpath])
    · exact .inl h

theorem own_frame (h : move.own = true) : (d.schedulerAfter cfg move).breakpoints = d.scheduler.breakpoints ∧
    ((d.schedulerAfter cfg move).running = true → d.scheduler.running = true) ∧
    ∀ path v, (d.schedulerAfter cfg move).variableSpace.lookup path = some v →
      d.scheduler.variableSpace.lookup path = some v ∨ (path, v) ∈ move.written := by
  have hsame {s : State VariableSpace} (hframe : Frame d.scheduler s) :
      s.breakpoints = d.scheduler.breakpoints ∧ (s.running = true → d.scheduler.running = true) ∧
      ∀ path v, s.variableSpace.lookup path = some v →
        d.scheduler.variableSpace.lookup path = some v ∨ (path, v) ∈ move.written :=
    ⟨hframe.breakpoints, hframe.running, fun _ _ hv => .inl (hframe.variableSpace ▸ hv)⟩
  cases move with
  | scheduler move now =>
    obtain ⟨hedits, hstart⟩ := own_edits h
    have hframe := step_frame cfg d.scheduler hedits hstart
    cases move with
    | start => exact absurd rfl hstart
    | _ => exact hsame hframe
  | set name value =>
    obtain ⟨hbreakpoints, hflow⟩ := setVariable_edits cfg d.scheduler name value
    exact ⟨hbreakpoints, fun hr => hflow.runs ▸ hr, fun _ _ => setVariable_lookup cfg⟩
  | beginLoop loopId =>
    have hregister : Frame d.scheduler (registerLoop d.scheduler loopId) := by
      unfold registerLoop
      split <;> exact ⟨rfl, rfl, fun h => h⟩
    exact hsame (hregister.trans (updateStatus_still _ loopId .running).toFrame)
  | endLoop loopId status =>
    have hframe := updateStatus_still
      (setVariable cfg d.scheduler ("loop." ++ loopId ++ ".result") loopResult) loopId status
    obtain ⟨hbreakpoints, hflow⟩ := setVariable_edits cfg d.scheduler ("loop." ++ loopId ++ ".result")
      loopResult
    exact ⟨hframe.breakpoints.trans hbreakpoints, fun hr => hflow.runs ▸ hframe.running hr, fun _ _ hv =>
      setVariable_lookup cfg (hframe.variableSpace ▸ hv)⟩

/-- The run is paused, let go or stopped. -/
def Scheduler.DurableMove.steers : DurableMove → Bool
  | .scheduler move _ => move.control
  | _ => false

theorem own_flow (h : move.own = true) (hsteers : move.steers = false) : Flow d.scheduler (d.schedulerAfter cfg move) := by
  cases move with
  | scheduler move now =>
    have hstill := step_still cfg d.scheduler hsteers (own_edits h).1
    cases move with
    | start => cases hsteers
    | _ => exact hstill.toFlow
  | set name value => exact (setVariable_edits cfg d.scheduler name value).2
  | beginLoop loopId =>
    have hregister : Flow d.scheduler (registerLoop d.scheduler loopId) := by
      unfold registerLoop
      split
      · exact .refl _
      · exact ⟨rfl, fun h => ⟨h, rfl⟩⟩
    exact hregister.trans (updateStatus_still _ loopId .running).toFlow
  | endLoop loopId status =>
    exact (setVariable_edits cfg d.scheduler _ loopResult).2.trans (updateStatus_still _ loopId status).toFlow

end Own

theorem errorPending_invariant {inv : State VariableSpace → Prop}
    (h : ∀ s id status, inv s → inv (s.updateStatus id status)) {s : State VariableSpace} (hs : inv s) :
    inv (errorPending s) := by
  unfold errorPending
  generalize s.steps.entries = entries
  induction entries generalizing s with
  | nil => exact hs
  | cons entry entries ih =>
    rw [foldl_cons]
    split
    · exact ih (h _ _ _ hs)
    · exact ih hs

theorem errorPending_frame (s : State VariableSpace) : Frame s (errorPending s) :=
  @errorPending_invariant (fun s' => Frame s s') (fun _ id status hs => hs.trans (updateStatus_still _ id status).toFrame) s
    (.refl s)

theorem aborted_frame (a : Attempt) : Frame a.scheduler (a.errorPending.command .stop).scheduler := by
  have hstop : Frame (errorPending a.scheduler) (step a.config (errorPending a.scheduler) .stop) :=
    step_frame a.config (errorPending a.scheduler) rfl (by simp)
  exact (errorPending_frame a.scheduler).trans hstop

theorem Evolves.follows {env : Env} {w : Worker} {m : WorkerMove} {i : Nat} {a a' : Attempt}
    (h : Evolves env w m i a a') : Follows a a' := by
  cases h with
  | same => exact ⟨rfl, fun h => h, fun h => h, Subset.refl _, Subset.refl _, rfl, rfl⟩
  | crashed => exact ⟨rfl, (nomatch ·), fun h => h, Subset.refl _, Subset.refl _, rfl, rfl⟩
  | started => exact ⟨rfl, fun h => h, fun h => h, Subset.refl _, Subset.refl _, rfl, rfl⟩
  | commanded move hedits hstart =>
    exact ⟨rfl, fun h => h, (step_frame a.config a.scheduler hedits hstart).running,
      step_log a.config a.scheduler move, Subset.refl _, rfl, rfl⟩
  | aborted =>
    have hlog : a.scheduler.log ⊆ (errorPending a.scheduler).log :=
      @errorPending_invariant (fun s => a.scheduler.log ⊆ s.log)
        (fun s id status hs => Subset.trans hs (updateStatus_log s id status)) _ (Subset.refl _)
    exact ⟨rfl, fun h => h, (aborted_frame a).running,
      Subset.trans hlog (step_log a.config (errorPending a.scheduler) .stop), Subset.refl _, rfl, rfl⟩
  | armed => exact ⟨rfl, fun h => h, fun h => h, subset_cons_self _ _, Subset.refl _, rfl, rfl⟩
  | worked hm halive hown =>
    have hlog := @schedulerAfter_always a.config (fun s => a.scheduler.log ⊆ s.log)
      (fun hc h => Subset.trans h hc.log_subset) (fun hk h => Subset.trans h hk.log_subset)
      (fun _ _ _ h => h) ⟨a.scheduler, w.file⟩
    exact ⟨rfl, fun h => h, (own_frame a.config hown).2.1, hlog _ (Subset.refl _), subset_append_right _ _, rfl, rfl⟩

end AteStudio
