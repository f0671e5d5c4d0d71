import AteStudio.Scheduler.History

/-!
# After an abort

`ExecutionAborted` ends the scan or the dispatch task it is raised in. The next scan and the other tasks go on.
-/

namespace AteStudio.Scheduler

variable {V : Type}

def AbortsHold (log : List Obs) : Prop := EachStart (fun id earlier => ∀ x ∈ abortedSince earlier, x = id) log

instance (log : List Obs) : Decidable (AbortsHold log) := inferInstanceAs (Decidable (EachStart _ log))

/-- Only a step that has aborted the run itself could still be started. -/
def NoneLeft (s : State V) (l : List String) : Prop := ∀ x ∈ abortedSince s.log, ∀ y ∈ l, s.idle y → x = y

instance (s : State V) (l : List String) : Decidable (NoneLeft s l) := inferInstanceAs (Decidable (∀ x ∈ _, ∀ y ∈ l, _))

/-- After an abort scans find no idle ready step, and tasks no step that is due. -/
def NothingElse (cfg : Config V) (s : State V) (m : Move V) : Prop :=
  (∀ _ ∈ m.scans? s, s.paused = false → ∀ ready ∈ cfg.getReadySteps s, NoneLeft s ready) ∧
  (∀ r ∈ m.resumes? s, NoneLeft s r.1.rest) ∧
  ∀ d ∈ m.dispatches? s, dueInDispatch cfg d.2 s d.1.stepId = true → ∀ x ∈ abortedSince s.log, x = d.1.stepId

instance (cfg : Config V) (s : State V) (m : Move V) : Decidable (NothingElse cfg s m) :=
  inferInstanceAs (Decidable (_ ∧ _ ∧ _))

/-! ## Guards -/

def abortGuards (V : Type) : Guards V where
  start s id := ∀ x ∈ abortedSince s.log, x = id
  skip _ _ := True
  ended _ _ := True
  suspend l := l.Nodup
  spent _ := True
  arm _ := True
  write := True
  start_alike h hs := h.abortedSince ▸ hs
  skip_alike _ _ := trivial
  ended_same _ _ _ := trivial

theorem NoneLeft.touch {s s' : State V} {id : String} {rest : List String} (h : NoneLeft s rest) (hnot : id ∉ rest)
    (ht : Touch id s s') : NoneLeft s' rest := by
  intro x hx y hy hidle
  rw [ht.aborted] at hx
  exact h x hx y hy (ht.idle (ne_of_mem_of_not_mem hy hnot) hidle)

def abortList (cfg : Config V) (ans : Answers) : ListGuard cfg (abortGuards V) ans where
  holds s l := l.Nodup ∧ NoneLeft s l
  alike h hl := ⟨hl.1, fun x hx y hy hidle => hl.2 x (h.abortedSince ▸ hx) y hy (h.idle hidle)⟩
  next hl ht := by
    obtain ⟨hnot, hnodup⟩ := List.nodup_cons.mp hl.1
    have hrest : NoneLeft _ _ := fun x hx y hy => hl.2 x hx y (List.mem_cons_of_mem _ hy)
    exact ⟨hnodup, hrest.touch hnot ht⟩
  start hl hidle x hx := hl.2 x hx _ List.mem_cons_self hidle
  skip _ _ _ := trivial
  suspend hl := hl.1
  spent _ _ := trivial

theorem NothingElse.permits {cfg : Config V} {s : State V} {m : Move V} (hm : NothingElse cfg s m)
    (h : Suspended (abortGuards V) s) : Permits (abortList cfg) s m where
  scans ans hans hpaused ready hr := ⟨StepRegistry.getReadySteps_nodup hr, hm.1 ans hans hpaused ready hr⟩
  resumes r hr s' ht := by
    obtain ⟨hnot, hnodup⟩ := List.nodup_cons.mp (h r.1 (Move.mem_scans_of_resumes hr))
    exact ⟨hnodup, (hm.2.1 r hr).touch hnot ht⟩
  start d hd _ hdue := hm.2.2 d hd hdue
  skip _ _ _ _ _ := trivial
  ended _ _ := trivial
  spent _ _ _ := trivial
  arm _ _ := trivial
  write _ := trivial

/-! ## Runs -/

theorem aborts_hold {cfg : Config V} {s : State V} (hs : s.Fresh) {moves : List (Move V)}
    (hmoves : Runs.Meets (step cfg) (NothingElse cfg) s moves) : AbortsHold (run cfg s moves).log := by
  have hchange {s s' : State V} (hc : Change cfg (abortGuards V) s s') (h : AbortsHold s.log) : AbortsHold s'.log :=
    EachStart.change (fun _ _ halone => halone) hc h
  have hfresh : AbortsHold s.log := by
    rw [hs.log]
    trivial
  refine hs.run_permitted (P := fun s => AbortsHold s.log) hfresh ?_ (fun _ _ => NothingElse.permits) hmoves
  exact fun s m hm h => step_invariant _ hchange EachStart.kept h hm

/-! ## Two steps that do not know of each other -/

def abortConfig : Config Unit := { Config.bare with
  configs := ⟨[("a", { onFailure := .abort })], by decide⟩
  hasFaultInjector := true }

def abortState : State Unit where
  steps := ⟨[("a", .pending), ("b", .pending)], by decide⟩
  variableSpace := ()

def abortFault : Answers := { Answers.silent with fault := fun id => if id = "a" then some "injected" else none }

/-- `b` has ended when `a` aborts the run. -/
theorem aborts_hold_last : AbortsHold (run abortConfig abortState [.start, .updateStatus "b" .passed,
    .scan false abortFault, .deliver, .deliver, .scan false .silent]).log :=
  @aborts_hold _ abortConfig abortState (.initial _ _) _ (by decide +kernel)

/-- The scan that `a` aborts does not get to `b`, and the next one starts it. -/
theorem started_after_abort : abortState.Fresh ∧
    ¬ AbortsHold (run abortConfig abortState [.start, .scan false abortFault, .scan false .silent]).log :=
  ⟨.initial _ _, by decide +kernel⟩

end AteStudio.Scheduler
