import AteStudio.Scheduler.History

/-!
# Nothing starts after a shutdown

Neither `stop()` nor `_emergency_shutdown` ends the dispatch tasks and the forced scans that are already there.
-/

namespace AteStudio.Scheduler

open List Scheduler

variable {V : Type}

def StartedUp : Obs → Prop
  | .started _ _ _ down => down = false
  | _ => True

def Task.spent (task : Task) : Bool := task.point ∈ [.held, .released, .atBarrier]

def State.Quiesced (s : State V) : Prop :=
  (∀ task ∈ s.tasks, task.spent = true) ∧ (∀ scan ∈ s.scans, scan.rest = []) ∧ s.scanTask = false ∧ s.forcedScans = 0

instance (s : State V) : Decidable s.Quiesced := inferInstanceAs (Decidable (_ ∧ _ ∧ _ ∧ _))

/-- A `stop()` that returns at once leaves everything behind. -/
def Move.halts? (s : State V) : Move V → Option (State V)
  | .emergencyShutdown => some s.endScanTask
  | .continueStop => if s.stopping = some .scanTask then some s.endScanTask else none
  | .stop => if s.running then none else some s
  | _ => none

def Event.key : Event → String
  | .statusChanged stepId _ _ => stepId
  | .measurementRecorded name => name
  | .resourceReleased resourceId => resourceId

def Event.wakes (cfg : Config V) (s : State V) (event : Event) : Bool :=
  (cfg.dependencyIndex.getD event.key []).any fun x => event.ended? = some x || s.idle x

def Move.asks (cfg : Config V) (s : State V) : Move V → Bool
  | .forceScan => true
  | .deliver => 0 < s.subscriptions && s.queue.head?.any (Event.wakes cfg s)
  | _ => false

/-- Nothing that can start a step is left, and nothing is asked for while the scheduler is down. -/
def CleanShutdown (cfg : Config V) (s : State V) (m : Move V) : Prop :=
  (∀ left ∈ m.halts? s, left.Quiesced) ∧ (s.down = true → m.asks cfg s = false)

instance (cfg : Config V) (s : State V) (m : Move V) : Decidable (CleanShutdown cfg s m) :=
  inferInstanceAs (Decidable (_ ∧ _))

/-! ## What is under way -/

structure SameWork (s s' : State V) : Prop where
  tasks : s'.tasks = s.tasks
  scans : s'.scans = s.scans
  scanTask : s'.scanTask = s.scanTask
  forcedScans : s'.forcedScans = s.forcedScans

theorem SameWork.refl (s : State V) : SameWork s s := ⟨rfl, rfl, rfl, rfl⟩

variable {s : State V}

theorem SameWork.trans {s' s'' : State V} (h : SameWork s s') (h' : SameWork s' s'') : SameWork s s'' :=
  ⟨h'.tasks.trans h.tasks, h'.scans.trans h.scans, h'.scanTask.trans h.scanTask, h'.forcedScans.trans h.forcedScans⟩

theorem State.Quiesced.sameWork {s' : State V} (h : s.Quiesced) (hw : SameWork s s') : s'.Quiesced := by
  unfold State.Quiesced
  rw [hw.tasks, hw.scans, hw.scanTask, hw.forcedScans]
  exact h

section SameWork

variable (cfg : Config V) (s : State V) (id : String)

theorem updateStatus_sameWork (status : StepStatus) : SameWork s (s.updateStatus id status) := by
  rcases updateStatus_cases s id status with ⟨heq, _⟩ | ⟨_, _, _, heq⟩ <;> rw [heq] <;> exact ⟨rfl, rfl, rfl, rfl⟩

theorem handleStepResult_sameWork (status : StepStatus) : SameWork s (handleStepResult cfg s id status).1 := by
  obtain ⟨retryCounts, repeatCounts, heq⟩ := handleStepResult_cases cfg s id status
  have hcounts : SameWork s { s with retryCounts, repeatCounts } := ⟨rfl, rfl, rfl, rfl⟩
  rcases heq with heq | ⟨new, heq⟩
  · rw [heq]
    exact hcounts
  · rw [heq]
    exact hcounts.trans (updateStatus_sameWork _ id new)

theorem finishBarrier_sameWork (missing : List String) : SameWork s (finishBarrier cfg s id missing).1 := by
  unfold finishBarrier
  split
  · exact (updateStatus_sameWork s id .passed).trans (handleStepResult_sameWork cfg _ id .passed)
  · have huuts : SameWork s { s with uuts := fun uut => if uut ∈ missing then .failed else s.uuts uut } :=
      ⟨rfl, rfl, rfl, rfl⟩
    have hfailed := huuts.trans (updateStatus_sameWork _ id .failed)
    have hpublish (s' : State V) (o : Obs) : SameWork s' (s'.publish o) := ⟨rfl, rfl, rfl, rfl⟩
    have habort (r : State V × Returned Bool) : SameWork r.1 (noteAbort id r).1 := by
      obtain ⟨s', _ | _⟩ := r <;> exact ⟨rfl, rfl, rfl, rfl⟩
    exact ((hfailed.trans (hpublish _ _)).trans (handleStepResult_sameWork cfg _ id .failed)).trans (habort _)

end SameWork

/-! ## Events that wake nobody -/

section Deliver

variable {cfg : Config V} {s : State V} {event : Event}

theorem scheduleDispatchForKey_busy {key : String} (h : ∀ x ∈ cfg.dependencyIndex.getD key [], ¬ s.idle x) :
    scheduleDispatchForKey cfg s key = s := by
  unfold scheduleDispatchForKey
  generalize cfg.dependencyIndex.getD key [] = dependents at h
  induction dependents with
  | nil => rfl
  | cons x dependents ih =>
    obtain ⟨hx, hrest⟩ := forall_mem_cons.mp h
    have hbusy : scheduleDispatch s x = s := if_pos (by simpa [State.idle, or_iff_not_imp_left] using hx)
    rw [foldl_cons, hbusy]
    exact ih hrest

def afterEnd (cfg : Config V) (s : State V) (event : Event) : State V := event.ended?.elim s (stepEnded cfg s)

theorem handleEvent_eq : handleEvent cfg event s = scheduleDispatchForKey cfg (afterEnd cfg s event) event.key := by
  cases event with
  | statusChanged id old new =>
    cases hterminal : new.terminal <;> simp [handleEvent, afterEnd, Event.ended?, Event.key, hterminal]
  | measurementRecorded | resourceReleased => rfl

theorem afterEnd_sameWork : SameWork s (afterEnd cfg s event) := by
  unfold afterEnd
  cases event.ended? with
  | none => exact .refl s
  | some id =>
    rw [Option.elim_some, stepEnded_eq]
    exact ⟨rfl, rfl, rfl, rfl⟩

theorem afterEnd_idle {x : String} (hx : event.ended? ≠ some x) : (afterEnd cfg s event).idle x → s.idle x := by
  unfold afterEnd
  cases hended : event.ended? with
  | none => exact fun h => h
  | some id =>
    rw [Option.elim_some, stepEnded_eq]
    have hne : x ≠ id := fun heq => hx (heq ▸ hended)
    exact fun ⟨hn, hp⟩ => ⟨fun h => hn (mem_discard.mpr ⟨h, hne⟩), fun h => hp (mem_discard.mpr ⟨h, hne⟩)⟩

theorem handleEvent_sameWork (h : event.wakes cfg s = false) :
    SameWork s (handleEvent cfg event s) ∧ event.wakes cfg (handleEvent cfg event s) = false := by
  have hdependents : ∀ x ∈ cfg.dependencyIndex.getD event.key [], event.ended? ≠ some x ∧ ¬ s.idle x := by
    simpa [Event.wakes] using h
  have hbusy : ∀ x ∈ cfg.dependencyIndex.getD event.key [], ¬ (afterEnd cfg s event).idle x := fun x hx hidle =>
    (hdependents x hx).2 (afterEnd_idle (hdependents x hx).1 hidle)
  rw [handleEvent_eq, scheduleDispatchForKey_busy hbusy]
  refine ⟨afterEnd_sameWork, ?_⟩
  simpa [Event.wakes] using fun x hx => ⟨(hdependents x hx).1, hbusy x hx⟩

theorem deliver_sameWork (h : Move.asks cfg s .deliver = false) : SameWork s (deliver cfg s) := by
  unfold deliver
  split
  · exact .refl s
  next event queue hqueue =>
  have hwakes (hn : 0 < s.subscriptions) : event.wakes cfg { s with queue := queue } = false := by
    have hasks : event.wakes cfg s = false := by simpa [Move.asks, hn, hqueue] using h
    exact hasks
  have hiterate (n : Nat) (s' : State V) (hs' : 0 < n → event.wakes cfg s' = false) :
      SameWork s' ((handleEvent cfg event)^[n] s') := by
    induction n generalizing s' with
    | zero => exact .refl s'
    | succ n ih =>
      obtain ⟨hsame, hnext⟩ := handleEvent_sameWork (hs' (by omega))
      rw [Function.iterate_succ_apply]
      exact hsame.trans (ih _ fun _ => hnext)
  have hpop : SameWork s { s with queue := queue } := ⟨rfl, rfl, rfl, rfl⟩
  exact hpop.trans (hiterate _ _ hwakes)

end Deliver

/-! ## Moves of a scheduler that is down -/

section Quiesced

variable {cfg : Config V} {s : State V}

theorem Task.spent_wake {task : Task} (h : task.spent = true) : task.wake.spent = true := by
  obtain ⟨id, point⟩ := task
  cases point with
  | start | waiting | woken => cases h
  | held | released | atBarrier => rfl

theorem Task.not_dispatches {task : Task} (h : task.spent = true) : task.dispatches s = false := by
  obtain ⟨id, point⟩ := task
  cases point with
  | start | waiting | woken => cases h
  | held | released | atBarrier => simp [Task.dispatches]

theorem runDispatch_spent {ans : Answers} {task : Task} (h : task.spent = true) :
    SameWork s (runDispatch cfg ans s task).1 ∧ ∀ point ∈ (runDispatch cfg ans s task).2, point = task.point := by
  obtain ⟨id, point⟩ := task
  cases point with
  | start | waiting | woken => cases h
  | held | atBarrier => exact ⟨.refl s, fun point hpoint => (Option.some.inj hpoint).symm⟩
  | released => exact ⟨⟨rfl, rfl, rfl, rfl⟩, fun point hpoint => by cases hpoint⟩

theorem State.Quiesced.runTask {index : Nat} {f : State V → Task → State V × Option TaskPoint} (h : s.Quiesced)
    (hf : ∀ s task, task.spent = true → SameWork s (f s task).1 ∧ ∀ point ∈ (f s task).2, point = task.point) :
    (s.runTask index f).Quiesced := by
  obtain ⟨htasks, hscans, hscanTask, hforced⟩ := h
  unfold State.runTask
  split
  · exact ⟨htasks, hscans, hscanTask, hforced⟩
  next task htask =>
  have hspent := htasks task (mem_of_getElem? htask)
  have herased : State.Quiesced { s with tasks := s.tasks.eraseIdx index } :=
    ⟨fun t ht => htasks t (eraseIdx_subset ht), hscans, hscanTask, hforced⟩
  obtain ⟨hsame, hpoint⟩ := hf { s with tasks := s.tasks.eraseIdx index } task hspent
  split
  · next point heq =>
    rw [heq] at hsame hpoint
    obtain ⟨htasks', hrest⟩ := herased.sameWork hsame
    refine ⟨fun t ht => ?_, hrest⟩
    rcases mem_append.mp ht with ht | ht
    · exact htasks' t ht
    · rw [mem_singleton] at ht
      obtain rfl := hpoint point rfl
      exact ht ▸ hspent
  · next heq =>
    rw [heq] at hsame
    exact herased.sameWork hsame

theorem State.Quiesced.unpause (h : s.Quiesced) : s.unpause.Quiesced := by
  refine ⟨fun t ht => ?_, h.2⟩
  obtain ⟨task, htask, rfl⟩ := mem_map.mp ht
  exact Task.spent_wake (h.1 task htask)

theorem resumeScan_quiesced {ans : Answers} {scan : Scan} {missing : List String} (h : s.Quiesced)
    (hrest : scan.rest = []) : (resumeScan cfg ans s scan missing).Quiesced := by
  have hsame := finishBarrier_sameWork cfg s scan.stepId missing
  unfold resumeScan
  split <;> next heq => rw [heq] at hsame; simpa [hrest, scanFrom, suspendScan] using h.sameWork hsame

theorem State.Quiesced.step {m : Move V} (hm : m.control = false) (hasks : m.asks cfg s = false) (h : s.Quiesced) :
    (step cfg s m).Quiesced := by
  obtain ⟨htasks, hscans, hscanTask, hforced⟩ := id h
  cases m with
  | scan forced ans => cases forced <;> simpa [Scheduler.step, State.scanLoopFree, hscanTask, hforced] using h
  | resumeScan index missing ans =>
    dsimp only [Scheduler.step]
    split
    · next scan hscan =>
      have herased : State.Quiesced { s with scans := s.scans.eraseIdx index } :=
        ⟨htasks, fun sc hsc => hscans sc (eraseIdx_subset hsc), hscanTask, hforced⟩
      exact resumeScan_quiesced herased (hscans scan (mem_of_getElem? hscan))
    · exact h
  | runDispatch index ans => exact h.runTask fun s task hspent => runDispatch_spent hspent
  | resumeDispatch index missing =>
    refine h.runTask fun s task hspent => ?_
    split
    · have hsame := finishBarrier_sameWork cfg s task.stepId missing
      exact ⟨⟨hsame.tasks, hsame.scans, hsame.scanTask, hsame.forcedScans⟩, fun point hpoint => by cases hpoint⟩
    · exact ⟨.refl s, fun point hpoint => (Option.some.inj hpoint).symm⟩
  | deliver => exact h.sameWork (deliver_sameWork hasks)
  | updateStatus id status => exact h.sameWork (updateStatus_sameWork s id status)
  | handleStepResult id status => exact h.sameWork (handleStepResult_sameWork cfg s id status)
  | forceScan => cases hasks
  | replaceBreakpoints breakpoints =>
    dsimp only [Scheduler.step]
    split <;> exact h
  | pause | resume | armStepMode | start | stop | continueStop | emergencyShutdown => cases hm
  | _ => exact h

/-- A shutdown, and every other move of the life cycle, leaves nothing behind that can start a step. -/
theorem control_quiesced {m : Move V} (hm : m.control = true) (hclean : ∀ left ∈ m.halts? s, left.Quiesced)
    (h : s.down = true → s.Quiesced) (hdown : (step cfg s m).down = true) : (step cfg s m).Quiesced := by
  cases m with
  | start =>
    dsimp only [step] at hdown ⊢
    split at hdown
    · next hrunning =>
      rw [if_pos hrunning]
      exact h hdown
    · cases hdown
  | stop =>
    dsimp only [step] at hdown ⊢
    cases hrunning : s.running with
    | false => exact (hclean s (by simp [Move.halts?, hrunning])).sameWork ⟨rfl, rfl, rfl, rfl⟩
    | true =>
      rw [hrunning] at hdown
      exact (h hdown).sameWork ⟨rfl, rfl, rfl, rfl⟩
  | continueStop =>
    dsimp only [step] at hdown ⊢
    cases hstopping : s.stopping with
    | none =>
      rw [hstopping] at hdown
      exact h hdown
    | some phase =>
      cases phase with
      | watchdog =>
        rw [hstopping] at hdown
        exact (h hdown).sameWork ⟨rfl, rfl, rfl, rfl⟩
      | scanTask =>
        have hleft := hclean s.endScanTask (by simp [Move.halts?, hstopping])
        exact hleft.sameWork ⟨rfl, rfl, rfl, rfl⟩
  | emergencyShutdown => exact (hclean s.endScanTask rfl).sameWork ⟨rfl, rfl, rfl, rfl⟩
  | pause => exact h hdown
  | resume | armStepMode => exact (h hdown).unpause
  | _ => cases hm

end Quiesced

/-! ## Guards -/

def downGuards (V : Type) : Guards V where
  start s _ := s.down = false
  skip _ _ := True
  ended _ _ := True
  suspend _ := True
  spent _ := True
  arm _ := True
  write := True
  start_alike h hs := h.down.trans hs
  skip_alike _ _ := trivial
  ended_same _ _ _ := trivial

def downList (cfg : Config V) (ans : Answers) : ListGuard cfg (downGuards V) ans where
  holds s l := s.down = true → l = []
  alike h hl hdown := hl (h.down.symm.trans hdown)
  next hl ht hdown := by cases hl (ht.down.symm.trans hdown)
  start hl _ := Bool.eq_false_iff.mpr fun hdown => by cases hl hdown
  skip _ _ _ := trivial
  suspend _ := trivial
  spent _ _ := trivial

theorem permits_of_quiesced {cfg : Config V} {m : Move V} (h : s.down = true → s.Quiesced) :
    Permits (downList cfg) s m where
  scans ans hans _ ready _ hdown := by
    obtain ⟨_, _, hscanTask, hforced⟩ := h hdown
    cases m with
    | scan forced ans => cases forced <;> simp [Move.scans?, State.scanLoopFree, hscanTask, hforced] at hans
    | _ => cases hans
  resumes r hr s' ht hdown := (h (ht.down.symm.trans hdown)).2.1 r.1 (Move.mem_scans_of_resumes hr)
  start d hd _ _ := by
    refine Bool.eq_false_iff.mpr fun hdown => ?_
    obtain ⟨hmem, hdispatches⟩ := Move.mem_tasks_of_dispatches hd
    rw [Task.not_dispatches ((h hdown).1 d.1 hmem)] at hdispatches
    cases hdispatches
  skip _ _ _ _ _ := trivial
  ended _ _ := trivial
  spent _ _ _ := trivial
  arm _ _ := trivial
  write _ := trivial

/-! ## Runs -/

def StartsUp (s : State V) : Prop := ∀ o ∈ s.log, StartedUp o

theorem startedUp_entries (cfg : Config V) : Entries cfg (downGuards V) StartedUp where
  silent o ho := by
    cases o with
    | started => cases ho
    | _ => trivial
  status _ _ _ := trivial
  skip _ _ _ _ := trivial
  start _ _ _ hup := hup
  spent _ _ _ _ := trivial
  arm _ _ := trivial

structure ShutdownInv (s : State V) : Prop where
  entries : StartsUp s
  quiesced : s.down = true → s.Quiesced

theorem ShutdownInv.step {cfg : Config V} {m : Move V} (h : ShutdownInv s) (hm : CleanShutdown cfg s m) :
    ShutdownInv (step cfg s m) := by
  have hpermits : Permits (downList cfg) s m := permits_of_quiesced h.quiesced
  constructor
  · exact (startedUp_entries cfg).step hpermits h.entries
  · intro hdown
    cases hc : m.control with
    | true => exact control_quiesced hc hm.1 h.quiesced hdown
    | false =>
      rw [(step_changes _ hc hpermits).down] at hdown
      exact (h.quiesced hdown).step hc (hm.2 hdown)

theorem no_start_after_shutdown {cfg : Config V} {s : State V} (hs : s.Fresh) {moves : List (Move V)}
    (hmoves : Runs.Meets (step cfg) (CleanShutdown cfg) s moves) : StartsUp (run cfg s moves) := by
  have hfresh : ShutdownInv s := ⟨by simp [StartsUp, hs.log], by simp [hs.down]⟩
  exact (Runs.run_invariant (fun _ _ h hm => h.step hm) hfresh hmoves).entries

/-! ## An event after an emergency shutdown -/

theorem no_start_after_stop : StartsUp (run chainConfig chainState [.start, .scan false .silent, .stop, .continueStop,
    .continueStop, .updateStatus "x" .passed, .deliver, .runDispatch 0 .silent]) :=
  @no_start_after_shutdown _ chainConfig chainState (.initial _ _) _ (by decide +kernel)

/-- `x` passes after an emergency shutdown and a `stop()`: the handlers are still there. -/
def lateEvent : List (Move Unit) :=
  [.start, .scan false .silent, .emergencyShutdown, .stop, .updateStatus "x" .passed, .deliver,
    .runDispatch 0 .silent]

/-- The task of `y` waits at the pause gate while `stop()` runs to its end. -/
def lateTask : List (Move Unit) :=
  [.start, .scan false .silent, .updateStatus "x" .passed, .deliver, .pause, .runDispatch 0 .silent, .stop,
    .continueStop, .continueStop, .resume, .runDispatch 0 .silent]

theorem start_after_shutdown : chainState.Fresh ∧ ¬ StartsUp (run chainConfig chainState lateEvent) ∧
    ¬ StartsUp (run chainConfig chainState lateTask) := by
  refine ⟨.initial _ _, fun h => ?_, fun h => ?_⟩
  · have hentry := h (.started "y" (some .pending) false true) (by decide +kernel)
    cases hentry
  · have hentry := h (.started "y" (some .pending) false true) (by decide +kernel)
    cases hentry

end AteStudio.Scheduler
