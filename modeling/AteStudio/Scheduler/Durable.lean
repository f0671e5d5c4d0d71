import AteStudio.Scheduler.Snapshot

/-!
# A scheduler and its snapshot file

A loop is executed by `execute_loop_step`, which keeps the `LoopResult` in the variable space.
-/

namespace AteStudio.Scheduler

open Json List Dict

variable {V : Type}

structure Durable where
  scheduler : State VariableSpace
  file : SnapshotFile := .missing

inductive DurableMove where
  -- `now` is the time in the snapshot that the move saves.
  | scheduler (move : Move VariableSpace) (now : Rat)
  | set (name : String) (value : Obj)
  | beginLoop (loopId : String)
  | endLoop (loopId : String) (status : StepStatus)

/-! ## Moves -/

def registerLoop (s : State V) (loopId : String) : State V :=
  if s.steps.contains loopId || isBlank loopId then s else { s with steps := s.steps.set loopId .pending }

def setVariable (cfg : Config VariableSpace) (s : State VariableSpace) (name : String) (value : Obj) :
    State VariableSpace :=
  match s.variableSpace.set? name value with
  | some variableSpace => step cfg s (.setVariable name variableSpace)
  | none => s

def loopResult : Obj := .object "LoopResult"

def State.savesNext (s : State V) : Bool :=
  0 < s.subscriptions && match s.queue with
    | .statusChanged .. :: _ => true
    | _ => false

namespace Durable

variable (py : Interpreter) (cfg : Config VariableSpace) (d : Durable)

def schedulerAfter : DurableMove → State VariableSpace
  | .scheduler .start _ => if d.scheduler.stopping.isSome then d.scheduler else (startFrom d.file d.scheduler).1
  | .scheduler move _ => Scheduler.step cfg d.scheduler move
  | .set name value => setVariable cfg d.scheduler name value
  | .beginLoop loopId => (registerLoop d.scheduler loopId).updateStatus loopId .running
  | .endLoop loopId status =>
    (setVariable cfg d.scheduler ("loop." ++ loopId ++ ".result") loopResult).updateStatus loopId status

def fileAfter : DurableMove → SnapshotFile
  | .scheduler .deliver now =>
    if d.scheduler.savesNext then maybeSnapshot py d.scheduler now d.file else d.file
  | .scheduler .continueStop _ =>
    if d.scheduler.stopping = some .scanTask && allStepsTerminal d.scheduler then .missing else d.file
  | _ => d.file

def step (m : DurableMove) : Durable := ⟨d.schedulerAfter cfg m, d.fileAfter py m⟩

def run : Durable → List DurableMove → Durable := Runs.run (step py cfg)

end Durable

/-! ## An invariant of the scheduler with its file -/

section Always

variable {cfg : Config VariableSpace} {inv : State VariableSpace → Prop}
  (hchange : ∀ {s s'}, Change cfg (freeGuards VariableSpace True) s s' → inv s → inv s')
  (hkept : ∀ {s s'}, Kept s s' → inv s → inv s')
  (hregister : ∀ s id, s.steps.contains id = false → inv s → inv { s with steps := s.steps.set id .pending })

include hchange hkept

variable {s : State VariableSpace}

theorem beginStart_always (file : SnapshotFile) (hs : inv s) : inv (beginStart file s).1 := by
  have hbegun : Kept s { s with running := true, down := false, log := .began :: s.log } :=
    ⟨rfl, rfl, rfl, ⟨[.began], by simp [Obs.Silent], rfl⟩, List.Subset.refl _, fun _ h => h,
      fun _ h => ⟨h.breakpoints, h.fired⟩⟩
  unfold beginStart maybeResume
  split
  · exact hkept hbegun hs
  next entries _ =>
  have hstates := restoreStates_invariant (fun s id status => hchange (@Change.act _ cfg _ _ _ id (.status s status)))
    entries (hkept hbegun hs)
  split
  · next heq =>
    rw [heq] at hstates
    exact hstates
  · next heq =>
    rw [heq] at hstates
    unfold restoreVariables
    dsimp only at hstates ⊢
    split
    · refine hkept ?_ hstates
      exact .same rfl rfl rfl
    · exact hstates

theorem startFrom_always (file : SnapshotFile) (hs : inv s) : inv (startFrom file s).1 := by
  have hbegin := beginStart_always hchange hkept file hs
  unfold startFrom
  split
  · exact hs
  split
  · next heq =>
    rw [heq] at hbegin
    exact hbegin
  · next heq =>
    rw [heq] at hbegin
    dsimp only at hbegin ⊢
    refine hkept ?_ hbegin
    exact .same rfl rfl rfl

theorem setVariable_always (name : String) (value : Obj) (hs : inv s) : inv (setVariable cfg s name value) := by
  unfold setVariable
  split
  · exact step_always hchange hkept s _ hs
  · exact hs

include hregister

theorem schedulerAfter_always (d : Durable) (m : DurableMove) (hs : inv d.scheduler) : inv (d.schedulerAfter cfg m) := by
  have hstatus (s : State VariableSpace) (id : String) (status : StepStatus) (hs : inv s) :
      inv (s.updateStatus id status) := hchange (@Change.act _ cfg _ _ _ id (.status s status)) hs
  cases m with
  | scheduler move now =>
    cases move with
    | start =>
      dsimp only [Durable.schedulerAfter]
      split
      · exact hs
      · exact startFrom_always hchange hkept d.file hs
    | _ =>
      dsimp only [Durable.schedulerAfter]
      exact step_always hchange hkept d.scheduler _ hs
  | set name value => exact setVariable_always hchange hkept name value hs
  | beginLoop loopId =>
    dsimp only [Durable.schedulerAfter]
    refine hstatus _ _ _ ?_
    unfold registerLoop
    split
    · exact hs
    · next hnew =>
      rw [Bool.or_eq_true, not_or, Bool.not_eq_true] at hnew
      exact hregister d.scheduler loopId hnew.1 hs
  | endLoop loopId status => exact hstatus _ _ _ (setVariable_always hchange hkept _ _ hs)

end Always

/-! ## Events are about registered steps -/

def Reported (s : State V) : Prop := ∀ id, s.reports id → s.steps.contains id = true

theorem Reported.updateStatus {s : State V} (h : Reported s) (id : String) (status : StepStatus) :
    Reported (s.updateStatus id status) := by
  rintro x ⟨old, new, hmem⟩
  rw [contains_updateStatus]
  rcases updateStatus_cases s id status with ⟨heq, _⟩ | ⟨_, hold, _, heq⟩
  · rw [heq] at hmem
    exact h x ⟨old, new, hmem⟩
  · rw [heq] at hmem
    rcases mem_append.mp hmem with hmem | hmem
    · exact h x ⟨old, new, hmem⟩
    · cases mem_singleton.mp hmem
      exact Option.isSome_iff_exists.mpr ⟨_, hold⟩

theorem Reported.kept {s s' : State V} (hk : Kept s s') (h : Reported s) : Reported s' :=
  fun id hid => hk.steps ▸ h id (hk.reports id hid)

theorem Reported.change {cfg : Config V} {G : Guards V} {s s' : State V} (hc : Change cfg G s s') (h : Reported s) :
    Reported s' := by
  cases hc with
  | act hact =>
    cases hact with
    | quiet hq =>
      intro x hx
      rw [State.reports, hq.queue] at hx
      rw [hq.steps]
      exact h x hx
    | status status => exact h.updateStatus _ status
    | skip => exact h.updateStatus _ .skipped
    | start => rwa [startStep_eq]
    | spent => exact h
  | ended => rwa [stepEnded_eq]
  | suspend | arm => exact h
  | outside hk => exact h.kept hk

theorem Reported.register {s : State V} (h : Reported s) (id : String) :
    Reported { s with steps := s.steps.set id .pending } := by
  intro x hx
  rw [Dict.contains, Dict.get?_set]
  split
  · rfl
  · exact h x hx

theorem Reported.nonempty {s : State V} (h : Reported s) (hsaves : s.savesNext = true) : s.steps.entries ≠ [] := by
  intro hempty
  rw [State.savesNext, Bool.and_eq_true] at hsaves
  cases hqueue : s.queue with
  | nil => simp [hqueue] at hsaves
  | cons event queue =>
    cases event with
    | statusChanged id old new =>
      have hknown := h id ⟨old, new, hqueue ▸ mem_cons_self⟩
      rw [Dict.contains, Dict.get?, hempty] at hknown
      cases hknown
    | _ => simp [hqueue] at hsaves

theorem reported_run (py : Interpreter) (cfg : Config VariableSpace) {d : Durable} (hd : d.scheduler.Fresh)
    (moves : List DurableMove) : Reported (d.run py cfg moves).scheduler := by
  have hfresh : Reported d.scheduler := by
    rintro id ⟨old, new, hmem⟩
    rw [hd.queue] at hmem
    cases hmem
  exact @Runs.run_always _ _ (Durable.step py cfg) d (fun d => Reported d.scheduler) (fun d m h =>
    schedulerAfter_always Reported.change Reported.kept (fun _ id _ hs => hs.register id) d m h) hfresh moves

/-! ## What a snapshot holds -/

def restarted (status : StepStatus) : StepStatus := if status.terminal then status else .pending

structure State.FreshOver (steps : Dict String StepStatus) (s : State V) : Prop where
  running : s.running = false
  steps : ∀ id, s.steps.get? id = (steps.get? id).map fun _ => .pending

/-- The file holds statuses and variables, and a fresh scheduler restores them. -/
structure Captured (d : Durable) : Prop where
  holds : ∃ text, d.file = .json text ∧ (loads text).get? "step_states" = some (statesOf d.scheduler.steps) ∧
    (loads text).get? "variables" = some d.scheduler.variableSpace.snapshot
  restores : ∀ fresh : State VariableSpace, fresh.FreshOver d.scheduler.steps →
    (startFrom d.file fresh).2 = .completed ∧
    (∀ id, (startFrom d.file fresh).1.steps.get? id = (d.scheduler.steps.get? id).map restarted) ∧
    (startFrom d.file fresh).1.variableSpace = d.scheduler.variableSpace

theorem handleEvent_same (cfg : Config V) (event : Event) (s : State V) :
    (handleEvent cfg event s).steps = s.steps ∧ (handleEvent cfg event s).variableSpace = s.variableSpace := by
  have hschedule (s' : State V) (key : String) := scheduleDispatchForKey_quiet cfg s' key
  unfold handleEvent
  split
  · split
    · rw [(hschedule _ _).steps, (hschedule _ _).variableSpace, stepEnded_eq]
      exact ⟨rfl, rfl⟩
    · exact ⟨(hschedule _ _).steps, (hschedule _ _).variableSpace⟩
  · exact ⟨(hschedule _ _).steps, (hschedule _ _).variableSpace⟩
  · exact ⟨(hschedule _ _).steps, (hschedule _ _).variableSpace⟩

theorem deliver_same (cfg : Config V) (s : State V) :
    (deliver cfg s).steps = s.steps ∧ (deliver cfg s).variableSpace = s.variableSpace := by
  unfold deliver
  split
  · exact ⟨rfl, rfl⟩
  next event queue _ =>
  have hiterate (n : Nat) (s' : State V) : ((handleEvent cfg event)^[n] s').steps = s'.steps ∧
      ((handleEvent cfg event)^[n] s').variableSpace = s'.variableSpace := by
    induction n generalizing s' with
    | zero => exact ⟨rfl, rfl⟩
    | succ n ih =>
      have hsame := handleEvent_same cfg event s'
      rw [Function.iterate_succ_apply]
      exact ⟨(ih _).1.trans hsame.1, (ih _).2.trans hsame.2⟩
  exact hiterate s.subscriptions _

/-! ### The saved state -/

theorem statesOf_eq (steps : Dict String StepStatus) :
    statesOf steps = .dict (steps.entries.map fun e => (.str e.1, .str e.2.value)) := by
  rw [statesOf, ofDict, mapVals, map_map]
  rfl

theorem plain_statesOf (steps : Dict String StepStatus) : (statesOf steps).plain = true := by
  rw [statesOf, plain_ofDict, mapVals, forall_mem_map]
  exact fun _ _ => rfl

section GetState

variable (s : State VariableSpace) (now : Rat)

theorem getState_states : (s.getState now).get? "step_states" = some (statesOf s.steps) := by
  simp [State.getState, get?]

theorem getState_variables : (s.getState now).get? "variables" = some s.variableSpace.snapshot := by
  simp [State.getState, get?, List.lookup]

theorem plain_getState : (s.getState now).plain = true ↔ s.variableSpace.Plain := by
  have htime : (Obj.float now).plain = true := rfl
  rw [State.getState, plain_ofDict]
  simp [plain_statesOf, htime, VariableSpace.plain_snapshot]

end GetState

/-! ### Restoring the statuses -/

theorem restoredStatus_value (status : StepStatus) : restoredStatus status.value = restarted status := by
  cases status <;> decide

theorem get?_updateStatus_known {s : State V} {id : String} (h : s.steps.contains id = true) (status : StepStatus) :
    (s.updateStatus id status).steps.get? id = some status := by
  rcases updateStatus_cases s id status with ⟨heq, hsame⟩ | ⟨_, _, _, heq⟩
  · obtain ⟨old, hold⟩ := Option.isSome_iff_exists.mp h
    rw [heq, hold, hsame old hold]
  · rw [heq, get?_set_self]

theorem restoreStates_saved {es : List (String × StepStatus)} (hes : (es.map Prod.fst).Nodup) {s : State V}
    (hknown : ∀ e ∈ es, s.steps.contains e.1 = true) :
    (restoreStates (es.map fun e => (.str e.1, .str e.2.value)) s).2 = false ∧
      ∀ id, (restoreStates (es.map fun e => (.str e.1, .str e.2.value)) s).1.steps.get? id =
        ((es.lookup id).map restarted).or (s.steps.get? id) := by
  induction es generalizing s with
  | nil => simp [restoreStates]
  | cons e es ih =>
    obtain ⟨x, status⟩ := e
    rw [map_cons, nodup_cons] at hes
    obtain ⟨hx, hknown⟩ := forall_mem_cons.mp hknown
    obtain ⟨hraised, hget⟩ := @ih hes.2 (s.updateStatus x (restoredStatus status.value)) fun e he => by
      rw [contains_updateStatus]
      exact hknown e he
    rw [map_cons, restoreStates]
    simp only [Obj.str?, hx, if_true]
    refine ⟨hraised, fun id => ?_⟩
    rw [hget, lookup_cons_if]
    by_cases hid : id = x
    · subst hid
      have hnone : es.lookup id = none := by
        rw [lookup_eq_none_iff]
        rintro ⟨y, old⟩ he
        simpa using fun heq : id = y => hes.1 (mem_map.mpr ⟨(y, old), he, heq.symm⟩)
      rw [hnone, get?_updateStatus_known hx, restoredStatus_value]
      simp
    · rw [if_neg hid, (updateStatus_touch s x _).steps id hid]

theorem startFrom_saved {text : Text} {s : State VariableSpace} {now : Rat} (htext : loads text = s.getState now)
    (hsteps : s.steps.entries ≠ []) {fresh : State VariableSpace} (hfresh : fresh.FreshOver s.steps) :
    (startFrom (.json text) fresh).2 = .completed ∧
      (∀ id, (startFrom (.json text) fresh).1.steps.get? id = (s.steps.get? id).map restarted) ∧
      (startFrom (.json text) fresh).1.variableSpace = s.variableSpace := by
  have hstates := getState_states s now
  rw [statesOf_eq] at hstates
  have hresumable : resumable? (.json text) =
      some (s.getState now, s.steps.entries.map fun e => (.str e.1, .str e.2.value)) := by
    obtain ⟨e, es, hes⟩ := exists_cons_of_ne_nil hsteps
    rw [hes] at hstates ⊢
    rw [resumable?, htext, hstates]
    rfl
  have hknown : ∀ e ∈ s.steps.entries, fresh.steps.contains e.1 = true := by
    rintro ⟨id, status⟩ he
    rw [Dict.contains, hfresh.steps id, (Dict.get?_eq_some_iff _ _ _).mpr he]
    rfl
  obtain ⟨hraised, hget⟩ := @restoreStates_saved _ s.steps.entries s.steps.nodup
    { fresh with running := true, down := false, log := .began :: fresh.log } hknown
  rw [startFrom, if_neg (by simp [hfresh.running]), beginStart, maybeResume, hresumable]
  dsimp only
  generalize restoreStates (s.steps.entries.map fun e => (.str e.1, .str e.2.value)) _ = restored at hraised hget ⊢
  obtain ⟨s', raised⟩ := restored
  dsimp only at hraised hget
  subst hraised
  rw [getState_variables]
  refine ⟨rfl, fun id => ?_, VariableSpace.restore_snapshot _ _⟩
  refine (hget id).trans ?_
  rw [← Dict.get?, hfresh.steps]
  cases s.steps.get? id <;> rfl

theorem captured_iff {py : Interpreter} {cfg : Config VariableSpace} {d : Durable} (hd : d.scheduler.Fresh)
    (moves : List DurableMove) (hsaves : (d.run py cfg moves).scheduler.savesNext = true) (now : Rat)
    (hlimits : ∀ text, dumps? py.reprFloat ((d.run py cfg moves).scheduler.getState now) = some text →
      py.writes text = true ∧ py.reads text = true) :
    Captured ((d.run py cfg moves).step py cfg (.scheduler .deliver now)) ↔
      (d.run py cfg moves).scheduler.variableSpace.Plain := by
  have hreported := reported_run py cfg hd moves
  generalize d.run py cfg moves = d at hsaves hreported hlimits ⊢
  obtain ⟨hsteps, hvariables⟩ := deliver_same cfg d.scheduler
  have hnonempty := hreported.nonempty hsaves
  have hstep : d.step py cfg (.scheduler .deliver now) =
      ⟨deliver cfg d.scheduler, maybeSnapshot py d.scheduler now d.file⟩ := by
    simp [Durable.step, Durable.schedulerAfter, Durable.fileAfter, Scheduler.step, hsaves]
  rw [hstep]
  constructor
  · rintro ⟨⟨text, _, _, hholds⟩, _⟩
    rw [← VariableSpace.plain_snapshot, ← hvariables]
    exact plain_get? (plain_loads text) hholds
  · intro hplain
    obtain ⟨text, hdumps, hloads⟩ := image_plain py.reprFloat _ ((plain_getState d.scheduler now).mpr hplain)
    obtain ⟨hwrites, hreads⟩ := hlimits text hdumps
    have hfile : maybeSnapshot py d.scheduler now d.file = .json text := by
      simp [maybeSnapshot, Interpreter.save?, hdumps, Option.filter, hwrites, hreads]
    refine ⟨⟨text, hfile, ?_, ?_⟩, fun fresh hfresh => ?_⟩
    · rw [hloads, hsteps]
      exact getState_states d.scheduler now
    · rw [hloads, hvariables]
      exact getState_variables d.scheduler now
    · dsimp only at hfresh ⊢
      rw [hsteps] at hfresh ⊢
      rw [hfile, hvariables]
      exact startFrom_saved hloads hnonempty hfresh

/-! ### A variable, and a loop -/

def plainConfig : Config VariableSpace :=
  { Config.bare with
    evalExpression := fun _ expr => if expr = "True" then some true else none
    evalBreakpoint := fun _ _ => false }

def bareInterpreter : Interpreter := { reprFloat := fun _ => "" }

def measuredRun : Durable := Durable.run bareInterpreter plainConfig ⟨oneStep, .missing⟩ [
  .scheduler .start 0,
  .scheduler (.updateStatus "a" .running) 0,
  .scheduler .deliver 1,
  .set "scope.voltage" (.float 3.3),
  .scheduler .deliver 2,
  .scheduler (.updateStatus "a" .passed) 0]

theorem captured_measuredRun : measuredRun.scheduler.savesNext = true ∧
    Captured (measuredRun.step bareInterpreter plainConfig (.scheduler .deliver 3)) :=
  ⟨by decide +kernel, (captured_iff (.initial _ _) _ (by decide +kernel) 3 fun _ _ => ⟨rfl, rfl⟩).mpr
    ((VariableSpace.plain_snapshot _).mp (by decide +kernel))⟩

def loopRun : Durable := Durable.run bareInterpreter plainConfig ⟨oneStep, .missing⟩ [
  .scheduler .start 0,
  .beginLoop "a",
  .scheduler .deliver 1,
  .endLoop "a" .passed,
  .scheduler .deliver 2]

/-- The result of the loop cannot be saved, and a restart runs the loop again. -/
theorem loopRun_not_captured : loopRun.scheduler.savesNext = true ∧
    loopRun.scheduler.steps.get? "a" = some .passed ∧
    (startFrom (loopRun.step bareInterpreter plainConfig (.scheduler .deliver 3)).file oneStep).1.steps.get? "a" =
      some .pending ∧
    ¬ Captured (loopRun.step bareInterpreter plainConfig (.scheduler .deliver 3)) := by
  have hpending : (startFrom (loopRun.step bareInterpreter plainConfig (.scheduler .deliver 3)).file
      oneStep).1.steps.get? "a" = some .pending := by decide +kernel
  have hsteps : (loopRun.step bareInterpreter plainConfig (.scheduler .deliver 3)).scheduler.steps =
      ⟨[("a", .passed)], by decide⟩ := by decide +kernel
  refine ⟨by decide +kernel, by decide +kernel, hpending, fun hcaptured => ?_⟩
  have hfresh : oneStep.FreshOver (loopRun.step bareInterpreter plainConfig (.scheduler .deliver 3)).scheduler.steps := by
    refine ⟨rfl, fun id => ?_⟩
    rw [hsteps]
    by_cases hid : id = "a" <;> simp [oneStep, get?, lookup_cons_if, hid]
  obtain ⟨_, hstatus, _⟩ := hcaptured.restores oneStep hfresh
  rw [hstatus "a", hsteps] at hpending
  exact absurd hpending (by decide)

end AteStudio.Scheduler
