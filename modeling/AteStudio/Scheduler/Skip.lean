import AteStudio.Scheduler.History

/-!
# Only ready steps are skipped

`_dispatch_step` evaluates skip conditions before it looks at readiness.
-/

namespace AteStudio.Scheduler

open List Option

variable {V : Type} (cfg : Config V)

def Config.awaited? (id p : String) : Option String :=
  (cfg.conditions.get? id).bind fun c => if c.step = some p then c.status else none

def Config.waitsForEnd (id p : String) : Bool :=
  ((cfg.awaited? id p).bind StepStatus.ofName?).any StepStatus.terminal

/-- PENDING and ready, with no step unfinished whose end it waits for. -/
def SkipOk : Obs → Prop
  | .skipped id _ ready steps => ready = true ∧
      ∀ p, cfg.waitsForEnd id p = true → steps.get? p ≠ some .pending ∧ steps.get? p ≠ some .running
  | _ => True

def Independent (l : List String) : Prop := ∀ x ∈ l, ∀ p ∈ l, p ≠ x → cfg.awaited? x p = none

instance (l : List String) : Decidable (Independent cfg l) :=
  inferInstanceAs (Decidable (∀ x ∈ l, ∀ p ∈ l, _))

/-- No ready step asks another one to be PENDING, and skip conditions are met at ready steps only. -/
def SkipsReady (s : State V) (m : Move V) : Prop :=
  (∀ _ ∈ m.scans? s, ∀ ready ∈ cfg.getReadySteps s, Independent cfg ready) ∧
  (∀ r ∈ m.resumes? s, ∀ x ∈ r.1.rest, s.idle x → evaluateStepSkip cfg r.2 s x = true → cfg.ready s x = true) ∧
  ∀ d ∈ m.dispatches? s, s.steps.get? d.1.stepId = some .pending → s.forceNextPending = false →
    evaluateStepSkip cfg d.2 s d.1.stepId = true → cfg.ready s d.1.stepId = true

instance (s : State V) (m : Move V) : Decidable (SkipsReady cfg s m) :=
  inferInstanceAs (Decidable (_ ∧ _ ∧ _))

/-! ## What readiness depends on -/

section Ready

variable {cfg : Config V} {s s' : State V} {id x p : String}

theorem evaluator_congr (hv : s'.variableSpace = s.variableSpace) (ha : s'.available = s.available) :
    cfg.evaluator s' = cfg.evaluator s := by
  simp [Config.evaluator, hv, ha]

theorem evaluateStepSkip_congr {ans : Answers} (hv : s'.variableSpace = s.variableSpace)
    (ha : s'.available = s.available) : evaluateStepSkip cfg ans s' x = evaluateStepSkip cfg ans s x := by
  simp only [evaluateStepSkip, evaluator_congr hv ha]

theorem stepResults_congr {steps steps' : Dict String StepStatus} {c : Condition}
    (h : ∀ p name, c.step = some p → c.status = some name → steps'.get? p = steps.get? p) :
    stepResults steps' c = stepResults steps c := by
  unfold stepResults
  split
  · next p name hstep hname => rw [h p name hstep hname]
  · rfl

theorem ready_congr (hv : s'.variableSpace = s.variableSpace) (ha : s'.available = s.available)
    (hself : s'.steps.get? x = s.steps.get? x)
    (hawaited : ∀ p, cfg.awaited? x p ≠ none → s'.steps.get? p = s.steps.get? p) : cfg.ready s' x = cfg.ready s x := by
  have hready : (cfg.registry s').isReady (cfg.evaluator s') x .pending =
      (cfg.registry s).isReady (cfg.evaluator s) x .pending := by
    simp only [StepRegistry.isReady, Config.registry, evaluator_congr hv ha]
    cases hc : cfg.conditions.get? x with
    | none => rfl
    | some c =>
      have hsteps : stepResults s'.steps c = stepResults s.steps c :=
        stepResults_congr fun p name hstep hname => hawaited p (by simp [Config.awaited?, hc, hstep, hname])
      simp only [Evaluator.evaluate, hsteps]
  unfold Config.ready
  rw [hself, hready]

theorem Alike.ready (h : Alike s s') : cfg.ready s' x = cfg.ready s x :=
  ready_congr h.variableSpace h.available (by rw [h.steps]) fun p _ => by rw [h.steps]

theorem waitsForEnd_cases (h : cfg.waitsForEnd id p = true) : ∃ c name expected, cfg.conditions.get? id = some c ∧
    c.step = some p ∧ c.status = some name ∧ StepStatus.ofName? name = some expected ∧ expected.terminal = true := by
  obtain ⟨expected, hexpected, hterminal⟩ := (any_eq_true _ _).mp h
  obtain ⟨name, hname, hof⟩ := bind_eq_some_iff.mp hexpected
  obtain ⟨c, hc, hif⟩ := bind_eq_some_iff.mp hname
  split at hif
  · next hstep => exact ⟨c, name, expected, hc, hstep, hif, hof, hterminal⟩
  · cases hif

theorem ended_of_ready (hready : cfg.ready s id = true) (hwait : cfg.waitsForEnd id p = true) :
    s.steps.get? p ≠ some .pending ∧ s.steps.get? p ≠ some .running := by
  obtain ⟨c, name, expected, hc, hstep, hname, hof, hterminal⟩ := waitsForEnd_cases hwait
  have hisReady := (of_decide_eq_true hready).2
  cases hactual : s.steps.get? p with
  | none => simp
  | some actual =>
    simp only [StepRegistry.isReady, Config.registry, hc, Evaluator.evaluate, stepResults, hstep, hname, hactual,
      hof] at hisReady
    have hresult : actual = .skipped ∨ actual = expected := by
      simp only [ne_eq, not_true_eq_false, if_false, bind_eq_bind, bind_some, pure, some.injEq,
        all_append, all_cons, Bool.and_eq_true, id_eq, Bool.or_eq_true, beq_iff_eq] at hisReady
      exact hisReady.1.1.1
    have hended : actual.terminal = true := by
      rcases hresult with rfl | rfl
      · rfl
      · exact hterminal
    constructor <;> rintro ⟨⟩ <;> exact absurd hended (by decide)

end Ready

/-! ## Guards -/

def skipGuards : Guards V where
  start _ _ := True
  skip s id := cfg.ready s id = true
  ended _ _ := True
  suspend l := l.Nodup ∧ Independent cfg l
  spent _ := True
  arm _ := True
  write := True
  start_alike _ _ := trivial
  skip_alike h hready := h.ready.trans hready
  ended_same _ _ _ := trivial

variable {cfg : Config V} {s s' : State V} {id : String}

theorem ready_of_touch {x : String} (ht : Touch id s s') (hx : x ≠ id)
    (hawaited : cfg.awaited? x id = none) : cfg.ready s' x = cfg.ready s x := by
  refine ready_congr ht.variableSpace ht.available (ht.steps x hx) fun p hp => ht.steps p ?_
  rintro rfl
  exact hp hawaited

def SkipList (cfg : Config V) (ans : Answers) (s : State V) (l : List String) : Prop :=
  ∀ x ∈ l, s.idle x → evaluateStepSkip cfg ans s x = true → cfg.ready s x = true

variable {rest : List String}

theorem ready_rest {matters : String → Prop}
    (h : ∀ x ∈ rest, s.idle x → matters x → cfg.ready s x = true) (hnot : id ∉ rest)
    (hindep : Independent cfg (id :: rest)) (ht : Touch id s s') :
    ∀ x ∈ rest, s'.idle x → matters x → cfg.ready s' x = true := by
  intro x hx hidle hmatters
  have hne := ne_of_mem_of_not_mem hx hnot
  have hawaited := hindep x (mem_cons_of_mem _ hx) id mem_cons_self hne.symm
  rw [ready_of_touch ht hne hawaited]
  exact h x hx (ht.idle hne hidle) hmatters

theorem SkipList.touch {ans : Answers}
    (h : SkipList cfg ans s rest) (hnot : id ∉ rest) (hindep : Independent cfg (id :: rest)) (ht : Touch id s s') :
    SkipList cfg ans s' rest := by
  intro x hx hidle hskip
  rw [evaluateStepSkip_congr ht.variableSpace ht.available] at hskip
  exact ready_rest h hnot hindep ht x hx hidle hskip

theorem Independent.tail (h : Independent cfg (id :: rest)) : Independent cfg rest :=
  fun x hx p hp => h x (mem_cons_of_mem _ hx) p (mem_cons_of_mem _ hp)

def skipList (cfg : Config V) (ans : Answers) : ListGuard cfg (skipGuards cfg) ans where
  holds s l := (l.Nodup ∧ Independent cfg l) ∧ SkipList cfg ans s l
  alike h hl := ⟨hl.1, fun x hx hidle hskip => by
    rw [h.ready]
    rw [evaluateStepSkip_congr h.variableSpace h.available] at hskip
    exact hl.2 x hx (h.idle hidle) hskip⟩
  next hl ht := by
    obtain ⟨⟨hnodup, hindep⟩, hlist⟩ := hl
    obtain ⟨hnot, hnodup⟩ := nodup_cons.mp hnodup
    have hrest : SkipList cfg ans _ _ := fun x hx => hlist x (mem_cons_of_mem _ hx)
    exact ⟨⟨hnodup, hindep.tail⟩, hrest.touch hnot hindep ht⟩
  start _ _ := trivial
  skip hl hidle hskip := hl.2 _ mem_cons_self hidle hskip
  suspend hl := hl.1
  spent _ _ := trivial

theorem SkipsReady.permits {m : Move V} (hm : SkipsReady cfg s m)
    (h : Suspended (skipGuards cfg) s) : Permits (skipList cfg) s m where
  scans ans hans _ ready hr := by
    refine ⟨⟨StepRegistry.getReadySteps_nodup hr, hm.1 ans hans ready hr⟩, fun x hx _ _ => ?_⟩
    exact decide_eq_true ((StepRegistry.mem_getReadySteps hr).mp hx)
  resumes r hr s' ht := by
    obtain ⟨hnodup, hindep⟩ := h r.1 (Move.mem_scans_of_resumes hr)
    obtain ⟨hnot, hnodup⟩ := nodup_cons.mp hnodup
    have hrest : SkipList cfg r.2 s r.1.rest := hm.2.1 r hr
    exact ⟨⟨hnodup, hindep.tail⟩, hrest.touch hnot hindep ht⟩
  start _ _ _ _ := trivial
  skip := hm.2.2
  ended _ _ := trivial
  spent _ _ _ := trivial
  arm _ _ := trivial
  write _ := trivial

/-! ## Runs -/

def SkipsOk (cfg : Config V) (s : State V) : Prop := ∀ o ∈ s.log, SkipOk cfg o

theorem skipOk_entries (cfg : Config V) : Entries cfg (skipGuards cfg) (SkipOk cfg) where
  silent o ho := by
    cases o with
    | skipped => cases ho
    | _ => trivial
  status _ _ _ := trivial
  skip _ _ _ hready := ⟨hready, fun _ => ended_of_ready hready⟩
  start _ _ _ _ := trivial
  spent _ _ _ _ := trivial
  arm _ _ := trivial

theorem skips_ready {cfg : Config V} {s : State V} (hs : s.Fresh) {moves : List (Move V)}
    (hmoves : Runs.Meets (step cfg) (SkipsReady cfg) s moves) : SkipsOk cfg (run cfg s moves) := by
  have hempty : SkipsOk cfg s := by simp [SkipsOk, hs.log]
  exact hs.run_permitted hempty (fun _ _ hm h => (skipOk_entries cfg).step hm h) (fun _ _ => SkipsReady.permits) hmoves

/-! ## A step that is skipped too early -/

def skipConfig : Config Unit := { chainConfig with configs := ⟨[("y", { skipIf := some "True" })], by decide⟩ }

def skipState : State Unit := chainState

theorem skips_ready_scan : SkipsOk skipConfig (run skipConfig skipState
    [.start, .scan false .silent, .updateStatus "x" .running, .updateStatus "x" .passed, .scan false .silent]) :=
  @skips_ready _ skipConfig skipState (.initial _ _) _ (by decide +kernel)

/-- `y` is skipped before `x` has ended. -/
theorem skipped_early : skipState.Fresh ∧ ¬ SkipsOk skipConfig (run skipConfig skipState
    [.start, .scan false .silent, .updateStatus "x" .running, .deliver, .runDispatch 0 .silent]) := by
  refine ⟨.initial _ _, fun h => ?_⟩
  have hentry := h (.skipped "y" "skip_if: True" false ⟨[("x", .running), ("y", .pending)], by decide⟩)
    (by decide +kernel)
  exact absurd hentry.1 (by decide)

end AteStudio.Scheduler
