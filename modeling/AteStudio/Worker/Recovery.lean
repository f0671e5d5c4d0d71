import AteStudio.Worker.Attempts

/-!
# Recovery and the run that it recovers

A file does not say which execution it is from.
-/

namespace AteStudio

open Json List Option

namespace Scheduler

/-! ## What a snapshot brings back -/

inductive Part where
  | status (stepId : String) (status : StepStatus)
  | value (path : VariablePath) (value : Obj)

def Holds (steps : Dict String StepStatus) (vs : VariableSpace) : Part → Prop
  | .status stepId status => steps.get? stepId = some status ∧ status.terminal = true
  | .value path value => vs.lookup path = some value

structure State.Blank (s : State VariableSpace) : Prop where
  steps : ∀ id status, s.steps.get? id = some status → status = .pending
  variableSpace : s.variableSpace = {}

theorem State.Blank.not_holds {s : State VariableSpace} (h : s.Blank) (part : Part) :
    ¬ Holds s.steps s.variableSpace part := by
  cases part with
  | status stepId status =>
    rintro ⟨hstatus, hterminal⟩
    rw [h.steps stepId status hstatus] at hterminal
    cases hterminal
  | value path value =>
    rw [h.variableSpace]
    cases path <;> exact (nomatch ·)

def Recovers (file : SnapshotFile) (part : Part) : Prop :=
  ∃ s : State VariableSpace, s.Blank ∧ Holds (maybeResume file s).1.steps (maybeResume file s).1.variableSpace part

theorem not_recovers {file : SnapshotFile} (h : resumable? file = none) (part : Part) : ¬ Recovers file part := by
  rintro ⟨s, hs, hpart⟩
  unfold maybeResume at hpart
  rw [h] at hpart
  exact hs.not_holds part hpart

theorem Recovers.resumable {file : SnapshotFile} {part : Part} (h : Recovers file part) :
    ∃ data entries, resumable? file = some (data, entries) := by
  cases hfile : resumable? file with
  | none => exact absurd h (not_recovers hfile part)
  | some found => exact ⟨found.1, found.2, rfl⟩

section Resume

variable {text : Text} {file : SnapshotFile} {data : Obj} {entries : List (Obj × Obj)} {s : State VariableSpace}

theorem resumable?_some (h : resumable? (.json text) = some (data, entries)) :
    data = loads text ∧ (loads text).get? "step_states" = some (.dict entries) := by
  unfold resumable? at h
  dsimp only at h
  split at h
  · next hstates =>
    cases h
    exact ⟨rfl, hstates⟩
  · cases h

theorem maybeResume_steps (h : resumable? file = some (data, entries)) :
    (maybeResume file s).1.steps = (restoreStates entries s).1.steps := by
  unfold maybeResume
  rw [h]
  dsimp only
  split
  · next heq => rw [heq]
  · next heq =>
    rw [heq]
    unfold restoreVariables
    split <;> rfl

theorem maybeResume_lookup (h : resumable? file = some (data, entries)) (hs : s.variableSpace = {})
    {path : VariablePath} {v : Obj} (hv : (maybeResume file s).1.variableSpace.lookup path = some v) :
    ∃ state, data.get? "variables" = some state ∧ (VariableSpace.restore {} state).lookup path = some v := by
  have hempty : (restoreStates entries s).1.variableSpace = {} := by
    obtain ⟨steps, queue, log, heq⟩ := restoreStates_eq entries s
    rw [heq]
    exact hs
  have hnone : ¬ (({} : VariableSpace).lookup path = some v) := by
    cases path <;> exact (nomatch ·)
  unfold maybeResume at hv
  rw [h] at hv
  dsimp only at hv
  split at hv
  · next heq =>
    rw [heq] at hempty
    rw [hempty] at hv
    exact absurd hv hnone
  · next heq =>
    rw [heq] at hempty
    unfold restoreVariables at hv
    split at hv
    · next hstate =>
      dsimp only at hempty hv
      rw [hempty] at hv
      exact ⟨_, hstate, hv⟩
    · rw [hempty] at hv
      exact absurd hv hnone

end Resume

/-! ### What was saved -/

section Saved

variable {reprFloat : Rat → String} {s : State VariableSpace} {now : Rat} {text : Text}

section

variable (h : dumps? reprFloat (s.getState now) = some text)

include h

theorem saved_get? {key : String} {v' : Obj} (hv' : (loads text).get? key = some v') :
    ∃ v, (s.getState now).get? key = some v ∧ image reprFloat v = some v' := by
  have himage : image reprFloat (s.getState now) = some (loads text) := by rw [image, h, map_some]
  obtain ⟨d, hd, hvalues⟩ := image_ofDict himage
  rw [hd, get?_ofDict] at hv'
  obtain ⟨v, hv, hvalue⟩ := hvalues key v' hv'
  exact ⟨v, by rw [State.getState, get?_ofDict, hv], hvalue⟩

theorem recovers_status {id : String} {status : StepStatus}
    (hpart : Recovers (.json text) (.status id status)) : Holds s.steps s.variableSpace (.status id status) := by
  obtain ⟨data, entries, hresumable⟩ := hpart.resumable
  obtain ⟨fresh, hfresh, hstatus, hterminal⟩ := hpart
  rw [maybeResume_steps hresumable] at hstatus
  rcases restoreStates_get? entries hstatus with hbefore | ⟨e, he, hid, raw, hraw, hrestored⟩
  · rw [hfresh.steps id status hbefore] at hterminal
    cases hterminal
  · obtain ⟨states, hstates, himage⟩ := saved_get? h (resumable?_some hresumable).2
    obtain rfl : statesOf s.steps = states := some.inj ((getState_states s now).symm.trans hstates)
    rw [image_eq_self (plain_statesOf s.steps), statesOf_eq] at himage
    cases himage
    obtain ⟨⟨id', saved⟩, hsaved, rfl⟩ := mem_map.mp he
    cases hid
    cases hraw
    rw [restoredStatus_value, restarted] at hrestored
    split at hrestored
    · subst hrestored
      exact ⟨(Dict.get?_eq_some_iff _ _ _).mpr hsaved, hterminal⟩
    · subst hrestored
      cases hterminal

theorem recovers_value {path : VariablePath} {v' : Obj} (hpart : Recovers (.json text) (.value path v')) :
    ∃ v, Holds s.steps s.variableSpace (.value path v) ∧ image reprFloat v = some v' := by
  obtain ⟨data, entries, hresumable⟩ := hpart.resumable
  obtain ⟨fresh, hfresh, hvalue⟩ := hpart
  obtain ⟨state, hstate, hlookup⟩ := maybeResume_lookup hresumable hfresh.variableSpace hvalue
  rw [(resumable?_some hresumable).1] at hstate
  obtain ⟨snapshot, hsnapshot, himage⟩ := saved_get? h hstate
  obtain rfl : s.variableSpace.snapshot = snapshot :=
    some.inj ((getState_variables s now).symm.trans hsnapshot)
  exact VariableSpace.lookup_restore_image himage hlookup

end

end Saved

end Scheduler

open Scheduler (Part Holds Recovers Durable DurableMove Logs resumable?)

/-! ## What an attempt has done -/

namespace Attempt

def Holds (a : Attempt) : Part → Prop := Scheduler.Holds a.scheduler.steps a.scheduler.variableSpace

def Restored (a : Attempt) : Part → Prop := Scheduler.Holds a.restoredSteps a.restoredVariables

/-- It has set the status or written the value, up to JSON, or restored the status. -/
def Made (reprFloat : Rat → String) (a : Attempt) : Part → Prop
  | .status stepId status => ∃ old, .status stepId old status ∈ a.scheduler.log
  | .value path value => ∃ written, (path, written) ∈ a.writes ∧
      (written = value ∨ image reprFloat written = some value)

end Attempt

variable {part : Part}

theorem Follows.made {reprFloat : Rat → String} {a a' : Attempt} (h : Follows a a')
    (hmade : a.Made reprFloat part) : a'.Made reprFloat part := by
  cases part with
  | status =>
    obtain ⟨old, hmem⟩ := hmade
    exact ⟨old, h.log hmem⟩
  | value =>
    obtain ⟨written, hmem, hvalue⟩ := hmade
    exact ⟨written, h.writes hmem, hvalue⟩

open Scheduler

theorem made_recovered {reprFloat : Rat → String} {s : State VariableSpace} {now : Rat} {text : Text}
    (h : dumps? reprFloat (s.getState now) = some text) (hpart : Recovers (.json text) part) :
    ∃ saved, Holds s.steps s.variableSpace saved ∧
      ∀ a : Attempt, a.Made reprFloat saved → a.Made reprFloat part := by
  cases part with
  | status stepId status => exact ⟨_, recovers_status h hpart, fun _ hmade => hmade⟩
  | value path v' =>
    obtain ⟨v, hv, himage⟩ := recovers_value h hpart
    refine ⟨_, hv, fun a hmade => ?_⟩
    obtain ⟨written, hmem, rfl | hwritten⟩ := hmade
    · exact ⟨written, hmem, .inr himage⟩
    · -- The value went through the file before, and JSON keeps it from then on.
      rw [image_eq_self (plain_of_image hwritten)] at himage
      cases himage
      exact ⟨written, hmem, .inr hwritten⟩

section Evolves

variable {env : Env} {w : Worker} {m : WorkerMove} {i : Nat} {a a' : Attempt}

theorem Evolves.logs (h : Evolves env w m i a a') : Logs a.scheduler a'.scheduler := by
  have hrefl : Logs a.scheduler a.scheduler := .of_steps rfl
  cases h with
  | same | crashed => exact hrefl
  | started | armed => exact .of_steps rfl
  | commanded move => exact step_always Logs.change Logs.kept a.scheduler move hrefl
  | aborted =>
    have herror := @errorPending_invariant (Logs a.scheduler) (fun _ id status hs => hs.updateStatus id status) _ hrefl
    exact @step_always _ a.config (Logs a.scheduler) Logs.change Logs.kept _ .stop herror
  | @worked move =>
    exact @schedulerAfter_always a.config (Logs a.scheduler) Logs.change Logs.kept
      (fun _ id _ hs => hs.register id) ⟨a.scheduler, w.file⟩ move hrefl

theorem Evolves.lookup (h : Evolves env w m i a a') {path : VariablePath} {v : Obj}
    (hv : a'.scheduler.variableSpace.lookup path = some v) :
    a.scheduler.variableSpace.lookup path = some v ∨ (path, v) ∈ a'.writes := by
  cases h with
  | same | crashed | started | armed => exact .inl hv
  | commanded move hedits hstart =>
    exact .inl ((step_frame a.config a.scheduler hedits hstart).variableSpace ▸ hv)
  | aborted => exact .inl ((aborted_frame a).variableSpace ▸ hv)
  | worked _ _ hown =>
    rcases (own_frame a.config hown).2.2 path v hv with hbefore | hwritten
    · exact .inl hbefore
    · exact .inr (mem_append_left _ hwritten)

theorem Evolves.holds (h : Evolves env w m i a a') (hpart : a'.Holds part) :
    a.Holds part ∨ a'.Made env.reprFloat part := by
  cases part with
  | status stepId status =>
    rcases h.logs stepId status hpart.1 hpart.2 with hbefore | hmade
    · exact .inl ⟨hbefore, hpart.2⟩
    · exact .inr hmade
  | value path v =>
    rcases h.lookup hpart with hbefore | hwritten
    · exact .inl hbefore
    · exact .inr ⟨v, hwritten, .inl rfl⟩

end Evolves

namespace Worker

variable {env : Env} {w : Worker} {m : WorkerMove}

def Earlier (w : Worker) (n : Nat) (executionId : String) (did : Attempt → Prop) : Prop :=
  ∃ (j : Nat) (b : Attempt), j < n ∧ w.attempts[j]? = some b ∧ b.executionId = executionId ∧ did b

/-- What an attempt has restored was made by an earlier attempt of its execution. -/
def OwnRecovery (env : Env) (w : Worker) : Prop :=
  ∀ (i : Nat) (a : Attempt), w.attempts[i]? = some a → ∀ part, a.Restored part →
    w.Earlier i a.executionId (·.Made env.reprFloat part)

/-- A task finds no file to resume from, or one that its own execution has saved. -/
def OwnFile (w : Worker) : WorkerMove → Prop
  | .pull message => (resumable? w.file).isNone = true ∨ w.savedBy = some message.executionId
  | _ => True

instance decidableOwnFile (w : Worker) : ∀ m, Decidable (OwnFile w m)
  | .pull _ => inferInstanceAs (Decidable (_ ∨ _))
  | .reset | .ack _ | .nak _ | .disconnect | .stopped | .control .. | .aborted | .attempt .. | .crash => isTrue trivial

/-! ## Who has made it -/

variable {executionId : String}

theorem Earlier.mono {n n' : Nat} {did : Attempt → Prop} (h : w.Earlier n executionId did)
    (hn : n ≤ n') : w.Earlier n' executionId did := by
  obtain ⟨j, b, hj, hrest⟩ := h
  exact ⟨j, b, by omega, hrest⟩

theorem Earlier.step {n : Nat} (h : w.Earlier n executionId (·.Made env.reprFloat part)) (hm : m.pulls = false) :
    (w.step env m).Earlier n executionId (·.Made env.reprFloat part) := by
  obtain ⟨j, b, hj, hb, hexecution, hmade⟩ := h
  obtain ⟨b', hb', hevolves⟩ := @evolves_step env w m j b hm hb
  exact ⟨j, b', hj, hb', hevolves.follows.executionId.trans hexecution, hevolves.follows.made hmade⟩

structure RecoveryInv (env : Env) (w : Worker) : Prop where
  restored : OwnRecovery env w
  held : ∀ (i : Nat) (a : Attempt), w.attempts[i]? = some a → ∀ part, a.Holds part →
    w.Earlier (i + 1) a.executionId (·.Made env.reprFloat part)
  file : ∀ executionId, w.savedBy = some executionId → ∀ part, Recovers w.file part →
    w.Earlier w.attempts.length executionId (·.Made env.reprFloat part)

/-! ### The file -/

theorem fileAfter_cases (py : Scheduler.Interpreter) (d : Durable) (move : DurableMove) :
    (d.saves py move = true ∧ ∃ now text, dumps? py.reprFloat (d.scheduler.getState now) = some text ∧
      (d.fileAfter py move = .json text ∨ d.fileAfter py move = .unreadable)) ∨
    d.saves py move = false ∧ (d.fileAfter py move = d.file ∨ d.fileAfter py move = .missing) := by
  cases move with
  | scheduler move now =>
    cases move with
    | deliver =>
      dsimp only [Durable.saves, Durable.fileAfter]
      cases d.scheduler.savesNext with
      | false => exact .inr ⟨rfl, .inl rfl⟩
      | true =>
        rw [if_pos rfl, maybeSnapshot]
        cases hsave : py.save? (d.scheduler.getState now) with
        | none => exact .inr ⟨rfl, .inl rfl⟩
        | some file =>
          obtain ⟨text, hwritten, rfl⟩ := map_eq_some_iff.mp hsave
          refine .inl ⟨rfl, now, text, (filter_eq_some_iff.mp hwritten).1, ?_⟩
          dsimp only [Option.getD_some]
          split
          · exact .inl rfl
          · exact .inr rfl
    | continueStop =>
      dsimp only [Durable.saves, Durable.fileAfter]
      split
      · exact .inr ⟨rfl, .inr rfl⟩
      · exact .inr ⟨rfl, .inl rfl⟩
    | _ => exact .inr ⟨rfl, .inl rfl⟩
  | _ => exact .inr ⟨rfl, .inl rfl⟩

theorem step_file (hpulls : m.pulls = false) (hm : ∀ index move, m ≠ .attempt index move) :
    (w.step env m).file = w.file ∧ (w.step env m).savedBy = w.savedBy := by
  cases hstores : m.stores with
  | false => exact ⟨(step_store hstores).file, (step_store hstores).savedBy⟩
  | true =>
    cases m with
    | pull => cases hpulls
    | attempt index move => exact absurd rfl (hm index move)
    | crash => exact ⟨rfl, rfl⟩
    | control runId action =>
      cases action with
      | syncBreakpoints breakpoints =>
        dsimp only [Worker.step, control, syncBreakpoints]
        split
        · exact ⟨rfl, rfl⟩
        split
        · exact ⟨rfl, rfl⟩
        split <;> exact ⟨rfl, rfl⟩
      | _ => cases hstores
    | _ => cases hstores

theorem recovers_step (hpulls : m.pulls = false) (h : Recovers (w.step env m).file part) :
    (w.step env m).savedBy = w.savedBy ∧ Recovers w.file part ∨
      ∃ (i : Nat) (a : Attempt) (saved : Part), (w.step env m).savedBy = some a.executionId ∧
        w.attempts[i]? = some a ∧ a.Holds saved ∧
        ∀ b : Attempt, b.Made env.reprFloat saved → b.Made env.reprFloat part := by
  by_cases hm : ∀ index move, m ≠ .attempt index move
  · obtain ⟨hfile, hsavedBy⟩ := @step_file env w m hpulls hm
    exact .inl ⟨hsavedBy, hfile ▸ h⟩
  · simp only [not_forall, not_not] at hm
    obtain ⟨index, move, rfl⟩ := hm
    dsimp only [Worker.step, runAttempt] at h ⊢
    cases ha : w.attempts[index]? with
    | none =>
      rw [ha] at h
      exact .inl ⟨rfl, h⟩
    | some a =>
      rw [ha] at h
      dsimp only at h ⊢
      split at h
      · next hown =>
        rw [if_pos hown]
        dsimp only at h ⊢
        rcases fileAfter_cases env.toInterpreter ⟨a.scheduler, w.file⟩ move with
          ⟨hsaves, now, text, hdumps, hfile | hfile⟩ | ⟨hsaves, hfile | hfile⟩
        · rw [hfile] at h
          rw [hsaves, if_pos rfl]
          obtain ⟨saved, hsaved, hmade⟩ := made_recovered hdumps h
          exact .inr ⟨index, a, saved, rfl, ha, hsaved, hmade⟩
        · rw [hfile] at h
          exact absurd h (not_recovers rfl part)
        · rw [hfile] at h
          rw [hsaves]
          exact .inl ⟨rfl, h⟩
        · rw [hfile] at h
          exact absurd h (not_recovers rfl part)
      · next hown =>
        rw [if_neg hown]
        exact .inl ⟨rfl, h⟩

theorem RecoveryInv.step (h : RecoveryInv env w) (hm : m.pulls = false) : RecoveryInv env (w.step env m) := by
  refine ⟨fun i a' ha' part hpart => ?_, fun i a' ha' part hpart => ?_, fun executionId hsavedBy part hpart => ?_⟩
  · obtain ⟨a, ha, hevolves⟩ := step_evolves hm ha'
    have hfollows := hevolves.follows
    rw [Attempt.Restored, hfollows.restoredSteps, hfollows.restoredVariables] at hpart
    rw [hfollows.executionId]
    exact (h.restored i a ha part hpart).step hm
  · obtain ⟨a, ha, hevolves⟩ := step_evolves hm ha'
    rcases hevolves.holds hpart with hbefore | hmade
    · rw [hevolves.follows.executionId]
      exact (h.held i a ha part hbefore).step hm
    · exact ⟨i, a', by omega, ha', rfl, hmade⟩
  · rw [(step_evolved hm).length]
    rcases recovers_step hm hpart with ⟨hsame, hbefore⟩ | ⟨i, a, saved, hsaved, ha, hheld, hmade⟩
    · exact (h.file executionId (hsame ▸ hsavedBy) part hbefore).step hm
    · obtain rfl : a.executionId = executionId := some.inj (hsaved.symm.trans hsavedBy)
      obtain ⟨hi, _⟩ := List.getElem?_eq_some_iff.mp ha
      obtain ⟨j, b, hj, hb, hexecution, hb'⟩ := h.held i a ha saved hheld
      have hearlier : w.Earlier (i + 1) a.executionId (·.Made env.reprFloat part) :=
        ⟨j, b, hj, hb, hexecution, hmade b hb'⟩
      exact (hearlier.mono hi).step hm

/-! ### Pulling -/

theorem process_file (message : Message) :
    (w.process env message).file = w.file ∧ (w.process env message).savedBy = w.savedBy := by
  unfold Worker.process
  dsimp only
  split
  · exact ⟨rfl, rfl⟩
  · split <;> exact ⟨rfl, rfl⟩

theorem bootAttempt_recovers {plan : YamlPlan} {booted : Bootstrap.Booted} (hboot : Bootstrap.bootstrap plan = .ok booted)
    {file : SnapshotFile} {breakpoints : List EdgeBreakpoint}
    (h : (bootAttempt env file executionId booted breakpoints).1.Holds part) : Recovers file part :=
  ⟨{ bootScheduler booted breakpoints with running := true, down := false, log := .began :: [] },
    ⟨Bootstrap.bootstrap_pending hboot, rfl⟩, h⟩

theorem process_attempts (message : Message) : ∃ news, (w.process env message).attempts = w.attempts ++ news ∧
    ∀ a ∈ news, a.executionId = message.executionId ∧
      ∀ part, a.Holds part ∨ a.Restored part → Recovers w.file part := by
  unfold Worker.process
  dsimp only
  split
  · exact ⟨[], (append_nil _).symm, by simp⟩
  split
  · exact ⟨[], (append_nil _).symm, by simp⟩
  next hboot =>
  obtain ⟨new, hattempts, hnew⟩ := boot_attempts message.executionId _ _
  refine ⟨[new], hattempts, fun a ha => ?_⟩
  rw [mem_singleton.mp ha]
  -- `start()` goes on without another look at the file.
  rcases hnew with rfl | rfl
  · exact ⟨rfl, fun part hpart => bootAttempt_recovers hboot (hpart.elim (fun h => h) (fun h => h))⟩
  · exact ⟨rfl, fun part hpart => bootAttempt_recovers hboot (hpart.elim (fun h => h) (fun h => h))⟩

theorem RecoveryInv.process (h : RecoveryInv env w) {message : Message} (hown : OwnFile w (.pull message)) :
    RecoveryInv env (w.process env message) := by
  obtain ⟨hfile, hsavedBy⟩ := @process_file env w message
  obtain ⟨news, hattempts, hnews⟩ := @process_attempts env w message
  have hold {n : Nat} {executionId : String} {did : Attempt → Prop} (hearlier : w.Earlier n executionId did) :
      (w.process env message).Earlier n executionId did := by
    obtain ⟨j, b, hj, hb, hrest⟩ := hearlier
    obtain ⟨hlt, _⟩ := List.getElem?_eq_some_iff.mp hb
    exact ⟨j, b, hj, by rw [hattempts, getElem?_append_left hlt, hb], hrest⟩
  have hfound {part : Part} (hpart : Recovers w.file part) :
      w.Earlier w.attempts.length message.executionId (·.Made env.reprFloat part) := by
    rcases hown with hnone | hsaved
    · exact absurd hpart (not_recovers (isNone_iff_eq_none.mp hnone) part)
    · exact h.file message.executionId hsaved part hpart
  have hplace {i : Nat} {a : Attempt} (ha : (w.process env message).attempts[i]? = some a) :
      w.attempts[i]? = some a ∨ w.attempts.length ≤ i ∧ a ∈ news := by
    rw [hattempts, getElem?_append] at ha
    split at ha
    · exact .inl ha
    · exact .inr ⟨by omega, mem_of_getElem? ha⟩
  refine ⟨fun i a ha part hpart => ?_, fun i a ha part hpart => ?_, fun executionId hsaved part hpart => ?_⟩
  · rcases hplace ha with ha | ⟨hi, ha⟩
    · exact hold (h.restored i a ha part hpart)
    · obtain ⟨hexecution, hrecovers⟩ := hnews a ha
      rw [hexecution]
      exact hold ((hfound (hrecovers part (.inr hpart))).mono hi)
  · rcases hplace ha with ha | ⟨hi, ha⟩
    · exact hold (h.held i a ha part hpart)
    · obtain ⟨hexecution, hrecovers⟩ := hnews a ha
      rw [hexecution]
      exact hold ((hfound (hrecovers part (.inl hpart))).mono (Nat.le_succ_of_le hi))
  · rw [hfile] at hpart
    rw [hsavedBy] at hsaved
    have hearlier := hold (h.file executionId hsaved part hpart)
    exact hearlier.mono (by simp [hattempts])

/-- Where files are a task's own, all that it starts with comes from an earlier attempt of its execution. -/
theorem own_recovery {moves : List WorkerMove} {file : SnapshotFile}
    (hmoves : Runs.Meets (Worker.step env) OwnFile { file } moves) : OwnRecovery env (Worker.run env { file } moves) := by
  have hstep := @step_invariant env (RecoveryInv env) OwnFile (fun _ _ h hown => h.process hown)
    (fun _ _ hm h _ => h.step hm)
  have hstart : RecoveryInv env { file := file } := by
    refine ⟨fun i a ha => ?_, fun i a ha => ?_, fun executionId hsaved => ?_⟩
    · cases ha
    · cases ha
    · cases hsaved
  exact (Runs.run_invariant hstep hstart hmoves).restored

def passedFirst : List WorkerMove := [
  .pull (oneStepTask "e1"),
  .ack true,
  .attempt 0 (.set "scope.voltage" (.float 3.3)),
  .attempt 0 (.scheduler .deliver 1),
  .attempt 0 (.scheduler (.updateStatus "a" .running) 0),
  .attempt 0 (.scheduler (.updateStatus "a" .passed) 0),
  .attempt 0 (.scheduler .deliver 2),
  .attempt 0 (.scheduler .deliver 3)]

def redelivered : List WorkerMove := passedFirst ++ [.crash, .pull (oneStepTask "e1")]

theorem own_recovery_redelivered : Runs.Meets (Worker.step Env.bare) OwnFile {} redelivered ∧
    OwnRecovery Env.bare (Worker.run Env.bare {} redelivered) ∧
    (Worker.run Env.bare {} redelivered).attempts.map (·.restoredSteps.get? "a") = [some .pending, some .passed] :=
  ⟨by decide +kernel, own_recovery (by decide +kernel), by decide +kernel⟩

/-- The task of another execution with the same step comes next. -/
def inherited : Worker := Worker.run Env.bare {} (passedFirst ++ [.pull (oneStepTask "e2")])

/-- `e2` starts with the status and the measurement of `e1`. -/
theorem recovered_other : inherited.attempts.map (fun a => (a.executionId, a.restoredSteps.get? "a")) =
      [("e1", some .pending), ("e2", some .passed)] ∧
    inherited.attempts.map (fun a => (a.restoredVariables.lookup (.scope "voltage")).isSome) = [false, true] ∧
    ¬ OwnRecovery Env.bare inherited := by
  have hattempts : inherited.attempts.map (fun a => (a.executionId, a.restoredSteps.get? "a")) =
      [("e1", some .pending), ("e2", some .passed)] := by decide +kernel
  refine ⟨hattempts, by decide +kernel, fun h => ?_⟩
  have hplace {i : Nat} {x : String × Option StepStatus}
      (hx : [("e1", some StepStatus.pending), ("e2", some .passed)][i]? = some x) :
      ∃ a, inherited.attempts[i]? = some a ∧ (a.executionId, a.restoredSteps.get? "a") = x := by
    rw [← map_eq_some_iff, ← List.getElem?_map, hattempts]
    exact hx
  obtain ⟨first, hfirst, hfirst'⟩ := @hplace 0 _ rfl
  obtain ⟨second, hsecond, hsecond'⟩ := @hplace 1 _ rfl
  obtain ⟨hexecution, hpassed⟩ := Prod.mk.inj hsecond'
  obtain ⟨j, b, hj, hb, hsame, _⟩ := h 1 second hsecond (.status "a" .passed) ⟨hpassed, rfl⟩
  obtain rfl : j = 0 := by omega
  obtain rfl : first = b := some.inj (hfirst.symm.trans hb)
  rw [(Prod.mk.inj hfirst').1, hexecution] at hsame
  exact absurd hsame (by decide)

end Worker

end AteStudio
