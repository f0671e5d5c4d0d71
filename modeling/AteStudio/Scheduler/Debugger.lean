import AteStudio.Scheduler.Skip

/-!
# Pause, breakpoints and single steps

The scan asks `_gate_before_dispatch` last, `_dispatch_step` asks it first.
-/

namespace AteStudio.Scheduler

variable {V : Type}

/-! ## Pause -/

def StartedUnpaused : Obs → Prop
  | .started _ _ paused _ => paused = false
  | _ => True

theorem startedUnpaused_entries (cfg : Config V) : Entries cfg (freeGuards V True) StartedUnpaused where
  silent o ho := by
    cases o with
    | started => cases ho
    | _ => trivial
  status _ _ _ := trivial
  skip _ _ _ _ := trivial
  start _ _ hmay _ := hmay.notPaused
  spent _ _ _ _ := trivial
  arm _ _ := trivial

theorem no_start_while_paused {cfg : Config V} {s : State V} (hs : s.Fresh) (moves : List (Move V)) :
    ∀ o ∈ (run cfg s moves).log, StartedUnpaused o := by
  have hstep (s : State V) (m : Move V) (h : ∀ o ∈ s.log, StartedUnpaused o) :
      ∀ o ∈ (step cfg s m).log, StartedUnpaused o :=
    (startedUnpaused_entries cfg).step (permits_free cfg s fun _ => trivial) h
  exact Runs.run_always hstep (by simp [hs.log]) moves

/-! ## One-shot controls -/

def SpentDue : Obs → Prop
  | .spent _ _ due => due = true
  | _ => True

/-- Every enabled breakpoint on a started step has suspended the run since it was armed. -/
def HitFirst (init : List EdgeBreakpoint) (log : List Obs) : Prop :=
  EachStart (fun id earlier => ∀ bp ∈ armedIn init earlier, bp.enabled = true → bp.kind = .step → bp.target = id →
    hitSince bp.id id earlier = true) log

instance (init : List EdgeBreakpoint) (log : List Obs) : Decidable (HitFirst init log) :=
  inferInstanceAs (Decidable (EachStart _ log))

def DistinctIds (breakpoints : List EdgeBreakpoint) : Prop := (breakpoints.map (·.id)).Nodup

instance (breakpoints : List EdgeBreakpoint) : Decidable (DistinctIds breakpoints) :=
  inferInstanceAs (Decidable (List.Nodup _))

/-- Scans meet ready steps, a control is spent on a due step, and armed breakpoints have different ids. -/
def SpendsOnDue (cfg : Config V) (s : State V) (m : Move V) : Prop :=
  (∀ _ ∈ m.scans? s, s.paused = false → ∀ ready ∈ cfg.getReadySteps s, Independent cfg ready) ∧
  (∀ r ∈ m.resumes? s, ∀ x ∈ r.1.rest, s.idle x → cfg.ready s x = true) ∧
  (∀ d ∈ m.dispatches? s, spendsInDispatch cfg s d.1.stepId = true → dueInDispatch cfg d.2 s d.1.stepId = true) ∧
  ∀ breakpoints ∈ m.arms?, DistinctIds breakpoints

instance (cfg : Config V) (s : State V) (m : Move V) : Decidable (SpendsOnDue cfg s m) :=
  inferInstanceAs (Decidable (_ ∧ _ ∧ _ ∧ _))

def dueGuards (cfg : Config V) : Guards V where
  start _ _ := True
  skip _ _ := True
  ended _ _ := True
  suspend l := l.Nodup ∧ Independent cfg l
  spent due := due = true
  arm breakpoints := DistinctIds breakpoints
  write := True
  start_alike _ _ := trivial
  skip_alike _ _ := trivial
  ended_same _ _ _ := trivial

def dueList (cfg : Config V) (ans : Answers) : ListGuard cfg (dueGuards cfg) ans where
  holds s l := (l.Nodup ∧ Independent cfg l) ∧ ∀ x ∈ l, s.idle x → True → cfg.ready s x = true
  alike h hl := ⟨hl.1, fun x hx hidle _ => h.ready.trans (hl.2 x hx (h.idle hidle) trivial)⟩
  next hl ht := by
    obtain ⟨⟨hnodup, hindep⟩, hready⟩ := hl
    obtain ⟨hnot, hnodup⟩ := List.nodup_cons.mp hnodup
    exact ⟨⟨hnodup, hindep.tail⟩, ready_rest (fun x hx => hready x (List.mem_cons_of_mem _ hx)) hnot hindep ht⟩
  start _ _ := trivial
  skip _ _ _ := trivial
  suspend hl := hl.1
  spent hl hidle := hl.2 _ List.mem_cons_self hidle trivial

theorem SpendsOnDue.permits {cfg : Config V} {s : State V} {m : Move V} (hm : SpendsOnDue cfg s m)
    (h : Suspended (dueGuards cfg) s) : Permits (dueList cfg) s m where
  scans ans hans hpaused ready hr := by
    refine ⟨⟨StepRegistry.getReadySteps_nodup hr, hm.1 ans hans hpaused ready hr⟩, fun x hx _ _ => ?_⟩
    exact decide_eq_true ((StepRegistry.mem_getReadySteps hr).mp hx)
  resumes r hr s' ht := by
    obtain ⟨hnodup, hindep⟩ := h r.1 (Move.mem_scans_of_resumes hr)
    obtain ⟨hnot, hnodup⟩ := List.nodup_cons.mp hnodup
    exact ⟨⟨hnodup, hindep.tail⟩, ready_rest (fun x hx hidle _ => hm.2.1 r hr x hx hidle) hnot hindep ht⟩
  start _ _ _ _ := trivial
  skip _ _ _ _ _ := trivial
  ended _ _ := trivial
  spent := hm.2.2.1
  arm := hm.2.2.2
  write _ := trivial

/-! ## The breakpoint engine along a run -/

def ControlEntry : Obs → Prop
  | .spent _ _ due => due = true
  | .armed breakpoints => DistinctIds breakpoints
  | _ => True

theorem controlEntry_entries (cfg : Config V) : Entries cfg (dueGuards cfg) ControlEntry where
  silent o ho := by
    cases o with
    | spent | armed => cases ho
    | _ => trivial
  status _ _ _ := trivial
  skip _ _ _ _ := trivial
  start _ _ _ _ := trivial
  spent _ _ _ hdue := hdue
  arm _ hdistinct := hdistinct

variable {init : List EdgeBreakpoint}

theorem Armed.updateStatus {s : State V} (h : Armed init s) (id : String)
    (status : StepStatus) : Armed init (s.updateStatus id status) := by
  rcases updateStatus_cases s id status with ⟨heq, _⟩ | ⟨_, _, _, heq⟩ <;> rw [heq]
  · exact h
  · exact ⟨h.breakpoints, h.fired⟩

theorem Armed.change {cfg : Config V} {G : Guards V} {s s' : State V}
    (hc : Change cfg G s s') (h : Armed init s) : Armed init s' := by
  cases hc with
  | act hact =>
    cases hact with
    | quiet hq => exact hq.armed init h
    | status status => exact h.updateStatus _ status
    | skip => exact ⟨(h.updateStatus _ .skipped).breakpoints, (h.updateStatus _ .skipped).fired⟩
    | start =>
      rw [startStep_eq]
      exact ⟨h.breakpoints, h.fired⟩
    | spent => exact ⟨h.breakpoints, h.fired⟩
  | ended =>
    rw [stepEnded_eq]
    exact ⟨h.breakpoints, h.fired⟩
  | suspend => exact ⟨h.breakpoints, h.fired⟩
  | arm => exact ⟨rfl, by rintro _ ⟨⟩ f ⟨⟩⟩
  | outside hk => exact hk.armed init h

theorem distinct_armedIn (hinit : DistinctIds init) {log : List Obs}
    (h : ∀ o ∈ log, ControlEntry o) : DistinctIds (armedIn init log) := by
  induction log with
  | nil => exact hinit
  | cons o log ih =>
    obtain ⟨ho, hrest⟩ := List.forall_mem_cons.mp h
    cases o with
    | armed => exact ho
    | _ => exact ih hrest

theorem Armed.hit {cfg : Config V} {s : State V} {id : String} (h : Armed init s)
    (hdistinct : DistinctIds (armedIn init s.log)) (hmay : MayStart cfg s id) {bp : EdgeBreakpoint}
    (hbp : bp ∈ armedIn init s.log) (henabled : bp.enabled = true) (hkind : bp.kind = .step) (htarget : bp.target = id) :
    hitSince bp.id id s.log = true := by
  rw [← h.breakpoints, State.breakpoints] at hbp hdistinct
  cases hengine : s.breakpointEngine with
  | none => simp [hengine] at hbp
  | some engine =>
    rw [hengine, Option.elim_some] at hbp hdistinct
    have hpass := List.find?_eq_none.mp (hmay.noBreakpoint engine hengine) bp hbp
    have hfired : bp.id ∈ engine.fired := by simpa [EdgeBreakpoint.hits, henabled, hkind, htarget] using hpass
    obtain ⟨bp', hbp', hid, hhit⟩ := h.fired engine hengine bp.id hfired
    obtain rfl : bp' = bp := List.inj_on_of_nodup_map hdistinct hbp' hbp hid
    rw [← htarget]
    exact hhit hkind

structure DebugInv (init : List EdgeBreakpoint) (s : State V) : Prop where
  armed : Armed init s
  entries : ∀ o ∈ s.log, ControlEntry o
  hitFirst : HitFirst init s.log

theorem DebugInv.change (hinit : DistinctIds init) {cfg : Config V} {s s' : State V}
    (hc : Change cfg (dueGuards cfg) s s') (h : DebugInv init s) : DebugInv init s' where
  armed := h.armed.change hc
  entries := (controlEntry_entries cfg).change hc h.entries
  hitFirst := EachStart.change (fun _ hmay _ _ hbp henabled hkind htarget =>
    h.armed.hit (distinct_armedIn hinit h.entries) hmay hbp henabled hkind htarget) hc h.hitFirst

theorem DebugInv.kept {cfg : Config V} {s s' : State V} (hk : Kept s s') (h : DebugInv init s) : DebugInv init s' :=
  ⟨hk.armed init h.armed, (controlEntry_entries cfg).kept hk h.entries, EachStart.kept hk h.hitFirst⟩

/-- Controls are spent on due steps, and an armed breakpoint suspends the run before its step is started. -/
theorem controls_spent_on_due {cfg : Config V} {s : State V} (hs : s.Fresh)
    (hfired : ∀ engine ∈ s.breakpointEngine, engine.fired = []) (hdistinct : DistinctIds s.breakpoints)
    {moves : List (Move V)} (hmoves : Runs.Meets (step cfg) (SpendsOnDue cfg) s moves) :
    (∀ o ∈ (run cfg s moves).log, SpentDue o) ∧ HitFirst s.breakpoints (run cfg s moves).log := by
  generalize hinit : s.breakpoints = init at hdistinct ⊢
  have hfresh : DebugInv init s := by
    refine ⟨⟨by rw [hs.log, hinit]; rfl, fun engine hengine f hf => ?_⟩, by simp [hs.log], by rw [hs.log]; trivial⟩
    rw [hfired engine hengine] at hf
    cases hf
  have hinv : DebugInv init (run cfg s moves) :=
    hs.run_permitted hfresh
      (fun _ _ hm h => step_invariant _ (DebugInv.change hdistinct) (@DebugInv.kept _ init cfg) h hm)
      (fun _ _ => SpendsOnDue.permits) hmoves
  refine ⟨fun o ho => ?_, hinv.hitFirst⟩
  have hentry := hinv.entries o ho
  cases o with
  | spent => exact hentry
  | _ => trivial

/-! ## Controls that are spent too early -/

def debugConfig : Config Unit := chainConfig

def debugState : State Unit := { chainState with breakpointEngine := some { breakpoints := [] } }

theorem debugState_fresh : debugState.Fresh :=
  ⟨rfl, rfl, rfl, rfl, rfl, rfl, rfl, rfl, rfl, rfl, rfl, rfl, rfl⟩

theorem no_start_while_paused_stepped : debugState.Fresh ∧
    ∀ o ∈ (run debugConfig debugState [.start, .pause, .scan false .silent, .armStepMode .over none,
      .scan false .silent, .resume, .scan false .silent]).log, StartedUnpaused o :=
  ⟨debugState_fresh, no_start_while_paused debugState_fresh _⟩

def breakpointOn (id target : String) : EdgeBreakpoint := { id, kind := .step, target }

/-- `x` has passed when the task of `y` runs into the breakpoint. -/
theorem controls_spent_on_due_passed : (∀ o ∈ (run debugConfig debugState [.start,
      .replaceBreakpoints [breakpointOn "1" "y"], .scan false .silent, .updateStatus "x" .passed, .deliver,
      .runDispatch 0 .silent, .resume, .runDispatch 0 .silent, .scan false .silent]).log, SpentDue o) ∧
    HitFirst [] (run debugConfig debugState [.start, .replaceBreakpoints [breakpointOn "1" "y"], .scan false .silent,
      .updateStatus "x" .passed, .deliver, .runDispatch 0 .silent, .resume, .runDispatch 0 .silent,
      .scan false .silent]).log :=
  @controls_spent_on_due _ debugConfig debugState debugState_fresh (by rintro _ ⟨⟩; rfl) (by decide) _
    (by decide +kernel)

/-- That `x` is RUNNING makes a task of `y` ask the gate, with the control set before. -/
def earlyMoves (control : Move Unit) : List (Move Unit) :=
  [.start, control, .scan false .silent, .updateStatus "x" .running, .deliver, .runDispatch 0 .silent]

/-- Two breakpoints with one id: when `x` has hit its own, the one on `y` counts as fired. -/
def sharedIdMoves : List (Move Unit) :=
  [.start, .replaceBreakpoints [breakpointOn "1" "x", breakpointOn "1" "y"], .scan false .silent, .resume,
    .scan false .silent, .updateStatus "x" .passed, .scan false .silent]

/-- Controls are spent while `y` waits for `x`, and of two breakpoints with one id one never suspends the run. -/
theorem controls_spent_early : debugState.Fresh ∧
    (¬ ∀ o ∈ (run debugConfig debugState (earlyMoves (.replaceBreakpoints [breakpointOn "1" "y"]))).log, SpentDue o) ∧
    (¬ ∀ o ∈ (run debugConfig debugState (earlyMoves .forceNext)).log, SpentDue o) ∧
    ¬ HitFirst [] (run debugConfig debugState sharedIdMoves).log := by
  refine ⟨debugState_fresh, fun h => ?_, fun h => ?_, by decide +kernel⟩
  · have hentry := h (.spent (.breakpoint "1") "y" false) (by decide +kernel)
    cases hentry
  · have hentry := h (.spent .forceNext "y" false) (by decide +kernel)
    cases hentry

end AteStudio.Scheduler
