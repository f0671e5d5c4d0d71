import AteStudio.Scheduler.Acts

/-! # Moves as changes -/

namespace AteStudio.Scheduler

variable {V : Type}

def Move.control : Move V → Bool
  | .pause | .resume | .armStepMode .. | .start | .stop | .continueStop | .emergencyShutdown => true
  | _ => false

/-! ## What a move is going to do -/

def Move.scans? (s : State V) : Move V → Option Answers
  | .scan false ans => if s.scanLoopFree then some ans else none
  | .scan true ans => if 0 < s.forcedScans then some ans else none
  | _ => none

def Move.resumes? (s : State V) : Move V → Option (Scan × Answers)
  | .resumeScan index _ ans => s.scans[index]?.map (·, ans)
  | _ => none

variable {m : Move V} {s : State V}

theorem Move.mem_scans_of_resumes {r : Scan × Answers} (h : r ∈ m.resumes? s) : r.1 ∈ s.scans := by
  cases m with
  | resumeScan index missing ans =>
    obtain ⟨scan, hscan, rfl⟩ := Option.map_eq_some_iff.mp h
    exact List.mem_of_getElem? hscan
  | _ => cases h

def Move.dispatches? (s : State V) : Move V → Option (Task × Answers)
  | .runDispatch index ans => (s.tasks[index]?.filter (·.dispatches s)).map (·, ans)
  | _ => none

theorem Move.mem_tasks_of_dispatches {d : Task × Answers} (h : d ∈ m.dispatches? s) :
    d.1 ∈ s.tasks ∧ d.1.dispatches s = true := by
  cases m with
  | runDispatch index ans =>
    obtain ⟨task, htask, rfl⟩ := Option.map_eq_some_iff.mp h
    obtain ⟨htask, hdispatches⟩ := Option.filter_eq_some_iff.mp htask
    exact ⟨List.mem_of_getElem? htask, hdispatches⟩
  | _ => cases h

def Move.ends? (s : State V) : Move V → Option String
  | .deliver => s.nextEnded?
  | _ => none

def Move.arms? : Move V → Option (List EdgeBreakpoint)
  | .replaceBreakpoints breakpoints => some breakpoints
  | _ => none

def Move.writes : Move V → Bool
  | .setVariable .. => true
  | _ => false

/-- What the guards ask for before a move. -/
structure Permits {cfg : Config V} {G : Guards V} (L : ∀ ans, ListGuard cfg G ans) (s : State V) (m : Move V) :
    Prop where
  scans : ∀ ans ∈ m.scans? s, s.paused = false → ∀ ready ∈ cfg.getReadySteps s, (L ans).holds s ready
  resumes : ∀ r ∈ m.resumes? s, ∀ s', Touch r.1.stepId s s' → (L r.2).holds s' r.1.rest
  start : ∀ d ∈ m.dispatches? s, s.steps.get? d.1.stepId = some .pending →
    dueInDispatch cfg d.2 s d.1.stepId = true → G.start s d.1.stepId
  skip : ∀ d ∈ m.dispatches? s, s.steps.get? d.1.stepId = some .pending → s.forceNextPending = false →
    evaluateStepSkip cfg d.2 s d.1.stepId = true → G.skip s d.1.stepId
  ended : ∀ id ∈ m.ends? s, G.ended s id
  spent : ∀ d ∈ m.dispatches? s, spendsInDispatch cfg s d.1.stepId = true →
    G.spent (dueInDispatch cfg d.2 s d.1.stepId)
  arm : ∀ breakpoints ∈ m.arms?, G.arm breakpoints
  write : m.writes = true → G.write

theorem step_control (cfg : Config V) (s : State V) (h : m.control = true) : Kept s (step cfg s m) := by
  have hfilter : s.scans.filter Scan.forced ⊆ s.scans := List.filter_sublist.subset
  cases m with
  | start =>
    dsimp only [step]
    split
    · exact .same rfl rfl rfl
    · exact ⟨rfl, rfl, rfl, ⟨[.began], by simp [Obs.Silent], rfl⟩, List.Subset.refl _, fun _ h => h,
        fun _ h => ⟨h.breakpoints, h.fired⟩⟩
  | stop =>
    dsimp only [step]
    split <;> exact .same rfl rfl rfl
  | continueStop =>
    dsimp only [step]
    split
    · exact .same rfl rfl rfl
    · exact .of_core_eq rfl hfilter fun _ h => h
    · exact .same rfl rfl rfl
  | emergencyShutdown => exact .of_core_eq rfl hfilter fun _ h => h
  | pause | resume | armStepMode => exact .same rfl rfl rfl
  | _ => cases h

variable {cfg : Config V} {G : Guards V} (L : ∀ ans, ListGuard cfg G ans)

theorem step_changes (hm : m.control = false) (h : Permits L s m) : Changes cfg G s (step cfg s m) := by
  cases m with
  | scan forced ans =>
    unfold step
    cases forced with
    | false =>
      dsimp only
      split
      · next hfree => exact emergencyScan_changes (L ans) false (h.scans ans (if_pos hfree))
      · exact .refl
    | true =>
      dsimp only
      split
      · next hforced =>
        have htake : Quiet s { s with forcedScans := s.forcedScans - 1 } :=
          .of_eq rfl (.of_eq rfl) rfl rfl (List.Subset.refl _)
        have htaken : Change cfg G s { s with forcedScans := s.forcedScans - 1 } :=
          .kept (.same rfl rfl rfl) rfl rfl
        have hready := h.scans ans (if_pos hforced)
        exact .head htaken (emergencyScan_changes (L ans) true fun hp ready hr =>
          (L ans).alike htake.toAlike (hready hp ready hr))
      · exact .refl
  | resumeScan index missing ans =>
    unfold step
    dsimp only
    split
    · next scan hscan =>
      have hresumes : (scan, ans) ∈ Move.resumes? s (.resumeScan index missing ans) := by simp [Move.resumes?, hscan]
      have htake : Touch scan.stepId s { s with scans := s.scans.eraseIdx index } :=
        ⟨fun _ _ => rfl, fun _ _ h => h, List.Subset.refl _, rfl, rfl, rfl, rfl⟩
      have htaken : Change cfg G s { s with scans := s.scans.eraseIdx index } :=
        .kept (.of_core_eq rfl List.eraseIdx_subset fun _ h => h) rfl rfl
      exact .head htaken (resumeScan_changes (L ans) missing fun s' ht =>
        h.resumes (scan, ans) hresumes s' (htake.trans ht))
    · exact .refl
  | runDispatch index ans =>
    refine runTask_changes fun task htask => ?_
    have htake : Quiet s { s with tasks := s.tasks.eraseIdx index } :=
      .of_eq rfl (.of_eq rfl) rfl rfl (List.Subset.refl _)
    have hruns (hd : task.dispatches s = true) : (task, ans) ∈ Move.dispatches? s (.runDispatch index ans) := by
      simp [Move.dispatches?, htask, hd]
    exact runDispatch_changes ans fun hd =>
      ⟨fun hp hdue => G.start_alike htake.toAlike (h.start _ (hruns hd) hp hdue),
        fun hp hf hs => G.skip_alike htake.toAlike (h.skip _ (hruns hd) hp hf hs), h.spent _ (hruns hd)⟩
  | resumeDispatch index missing =>
    dsimp only [step]
    refine runTask_changes fun task _ => ?_
    split
    · exact resumeDispatch_changes missing
    · exact .refl
  | deliver => exact deliver_changes h.ended
  | updateStatus id status => exact .single (.act (.status s status))
  | handleStepResult id status => exact (handleStepResult_acts cfg G s id status).changes
  | replaceBreakpoints breakpoints =>
    dsimp only [step]
    split
    · exact .single (.arm s (h.arm breakpoints rfl))
    · exact .refl
  | setVariable name variableSpace =>
    refine .single (.outside (.of_core_eq rfl (List.Subset.refl _) fun id hreports => ?_) rfl (.inr (h.write rfl)))
    simpa [step, State.reports] using hreports
  | releaseResource resourceId =>
    refine .single (.kept (.of_core_eq rfl (List.Subset.refl _) fun id hreports => ?_) rfl rfl)
    simpa [step, State.reports] using hreports
  | pause | resume | armStepMode | start | stop | continueStop | emergencyShutdown => cases hm
  | _ => exact .single (.kept (.same rfl rfl rfl) rfl rfl)

theorem Changes.down {s s' : State V} (h : Changes cfg G s s') : s'.down = s.down := by
  induction h with
  | refl => rfl
  | tail _ hlast ih =>
    refine Eq.trans ?_ ih
    cases hlast with
    | act hact => exact (Acts.touch (.single hact)).down
    | ended => rw [stepEnded_eq]
    | suspend | arm => rfl
    | outside _ hdown => exact hdown

theorem step_invariant {inv : State V → Prop} (hchange : ∀ {s s'}, Change cfg G s s' → inv s → inv s')
    (hkept : ∀ {s s'}, Kept s s' → inv s → inv s') (hs : inv s) (hm : Permits L s m) : inv (step cfg s m) := by
  cases hc : m.control with
  | true => exact hkept (step_control cfg s hc) hs
  | false =>
    have hchanges := step_changes L hc hm
    generalize step cfg s m = s' at hchanges ⊢
    induction hchanges with
    | refl => exact hs
    | tail _ hlast ih => exact hchange hlast ih

/-! ## Without guards -/

/-- `edits` says whether variables may be written and breakpoints armed. -/
def freeGuards (V : Type) (edits : Prop) : Guards V where
  start _ _ := True
  skip _ _ := True
  ended _ _ := True
  suspend _ := True
  spent _ := True
  arm _ := edits
  write := edits
  start_alike _ _ := trivial
  skip_alike _ _ := trivial
  ended_same _ _ _ := trivial

def freeList (cfg : Config V) (edits : Prop) (ans : Answers) : ListGuard cfg (freeGuards V edits) ans where
  holds _ _ := True
  alike _ _ := trivial
  next _ _ := trivial
  start _ _ := trivial
  skip _ _ _ := trivial
  suspend _ := trivial
  spent _ _ := trivial

def Move.edits (m : Move V) : Bool := m.arms?.isSome || m.writes

theorem permits_free (cfg : Config V) (s : State V) {edits : Prop} (h : m.edits = true → edits) :
    Permits (freeList cfg edits) s m where
  scans _ _ _ _ _ := trivial
  resumes _ _ _ _ := trivial
  start _ _ _ _ := trivial
  skip _ _ _ _ _ := trivial
  ended _ _ := trivial
  spent _ _ _ := trivial
  arm breakpoints harms := h (by rw [Move.edits, Option.mem_def.mp harms]; rfl)
  write hwrites := h (by rw [Move.edits, hwrites, Bool.or_true])

theorem step_always {inv : State V → Prop} (hchange : ∀ {s s'}, Change cfg (freeGuards V True) s s' → inv s → inv s')
    (hkept : ∀ {s s'}, Kept s s' → inv s → inv s') (s : State V) (m : Move V) (hs : inv s) : inv (step cfg s m) :=
  step_invariant (freeList cfg True) hchange hkept hs (permits_free cfg s fun _ => trivial)

theorem updateStatus_still (s : State V) (id : String) (status : StepStatus) : Still s (s.updateStatus id status) := by
  unfold State.updateStatus
  split
  · exact .refl s
  split
  · exact .refl s
  · exact .of_eq rfl

theorem Change.still {s s' : State V} (h : Change cfg (freeGuards V False) s s') : Still s s' := by
  cases h with
  | @act _ id hact =>
    cases hact with
    | quiet hq => exact hq.still
    | status status => exact updateStatus_still s id status
    | skip => exact (updateStatus_still s id .skipped).trans (.of_eq rfl)
    | start =>
      unfold startStep
      rw [claimUut_eq]
      exact .of_eq rfl
    | spent => exact .of_eq rfl
  | ended =>
    rw [stepEnded_eq]
    exact .of_eq rfl
  | suspend => exact .of_eq rfl
  | arm harm => exact harm.elim
  | outside _ _ hstill => exact hstill.elim (fun h => h) False.elim

theorem step_still (cfg : Config V) (s : State V) (hc : m.control = false) (hedits : m.edits = false) :
    Still s (step cfg s m) := by
  have hpermits : Permits (freeList cfg False) s m := permits_free cfg s fun h => by simp [hedits] at h
  have hchanges := step_changes (freeList cfg False) hc hpermits
  generalize step cfg s m = s' at hchanges ⊢
  induction hchanges with
  | refl => exact .refl s
  | tail _ hlast ih => exact ih.trans hlast.still

theorem step_frame (cfg : Config V) (s : State V) (hedits : m.edits = false) (hstart : m ≠ .start) :
    Frame s (step cfg s m) := by
  cases hc : m.control with
  | true =>
    cases m with
    | start => exact absurd rfl hstart
    | stop =>
      dsimp only [step]
      split
      · exact ⟨rfl, rfl, fun h => h⟩
      · exact ⟨rfl, rfl, fun h => by cases h⟩
    | continueStop =>
      dsimp only [step]
      split <;> exact ⟨rfl, rfl, fun h => h⟩
    | emergencyShutdown => exact ⟨rfl, rfl, fun h => by cases h⟩
    | pause | resume | armStepMode => exact ⟨rfl, rfl, fun h => h⟩
    | _ => cases hc
  | false => exact (step_still cfg s hc hedits).toFrame

end AteStudio.Scheduler
