import AteStudio.Scheduler.History

/-!
# A step is dispatched once

A terminal status event is delivered late, and a suspended scan goes on with an old ready list.
-/

namespace AteStudio.Scheduler

variable {V : Type}

def startedOpen (id : String) (log : List Obs) : Bool := openSince (· = .pending) id log

/-- `STEP_STARTED` is published for PENDING steps only, and once between two transitions to PENDING. -/
def AtMostOnce : List Obs → Prop
  | [] => True
  | .started id status _ _ :: log => (status = some .pending ∧ startedOpen id log = false) ∧ AtMostOnce log
  | _ :: log => AtMostOnce log

instance AtMostOnce.decidable : ∀ log, Decidable (AtMostOnce log)
  | [] => isTrue trivial
  | .started .. :: log =>
    have := AtMostOnce.decidable log
    inferInstanceAs (Decidable (_ ∧ _))
  | .status .. :: log | .skipped .. :: log | .failed .. :: log | .breakpointHit .. :: log | .began :: log
  | .aborted _ :: log | .armed _ :: log | .spent .. :: log =>
    AtMostOnce.decidable log

/-- Idle steps on a resumed list are PENDING, and no terminal event comes for a step that was started again. -/
def UpToDate (s : State V) (m : Move V) : Prop :=
  (∀ r ∈ m.resumes? s, ∀ x ∈ r.1.rest, s.idle x → s.steps.get? x = some .pending) ∧
    ∀ id ∈ m.ends? s, ¬(startedOpen id s.log = true ∧ s.steps.get? id = some .pending)

instance (s : State V) (m : Move V) : Decidable (UpToDate s m) := inferInstanceAs (Decidable (_ ∧ _))

/-! ## Guards -/

def onceGuards (V : Type) : Guards V where
  start s id := s.steps.get? id = some .pending
  skip _ _ := True
  ended s id := ¬(startedOpen id s.log = true ∧ s.steps.get? id = some .pending)
  suspend l := l.Nodup
  spent _ := True
  arm _ := True
  write := True
  start_alike h hp := h.steps ▸ hp
  skip_alike _ _ := trivial
  ended_same hsteps hlog h := by rwa [hsteps, hlog]

def IdlePending (s : State V) (l : List String) : Prop := ∀ x ∈ l, s.idle x → s.steps.get? x = some .pending

variable {s s' : State V}

theorem IdlePending.touch {id : String} {rest : List String} (h : IdlePending s rest)
    (hnot : id ∉ rest) (ht : Touch id s s') : IdlePending s' rest := by
  intro x hx hidle
  have hne := ne_of_mem_of_not_mem hx hnot
  rw [ht.steps x hne]
  exact h x hx (ht.idle hne hidle)

def onceList (cfg : Config V) (ans : Answers) : ListGuard cfg (onceGuards V) ans where
  holds s l := l.Nodup ∧ IdlePending s l
  alike h hl := ⟨hl.1, fun x hx hidle => h.steps ▸ hl.2 x hx (h.idle hidle)⟩
  next hl ht := by
    obtain ⟨hnot, hnodup⟩ := List.nodup_cons.mp hl.1
    have hrest : IdlePending _ _ := fun x hx => hl.2 x (List.mem_cons_of_mem _ hx)
    exact ⟨hnodup, hrest.touch hnot ht⟩
  start hl hidle := hl.2 _ List.mem_cons_self hidle
  skip _ _ _ := trivial
  suspend hl := hl.1
  spent _ _ := trivial

/-! ## The invariant -/

structure OnceInv (s : State V) : Prop where
  once : AtMostOnce s.log
  notified : ∀ id, startedOpen id s.log = true → s.steps.get? id = some .pending → id ∈ s.notifiedReady

theorem AtMostOnce.asides {asides log : List Obs} (hasides : ∀ o ∈ asides, o.Aside) (h : AtMostOnce log) :
    AtMostOnce (asides ++ log) := by
  induction asides with
  | nil => exact h
  | cons o asides ih =>
    obtain ⟨ho, hrest⟩ := List.forall_mem_cons.mp hasides
    cases o with
    | started => rcases ho with ho | ho <;> cases ho
    | _ => exact ih hrest

theorem OnceInv.kept (hk : Kept s s') (h : OnceInv s) : OnceInv s' := by
  obtain ⟨notes, hnotes, hlog⟩ := hk.log
  refine ⟨hlog ▸ h.once.asides fun o ho => .inr (hnotes o ho), fun id ho hp => ?_⟩
  rw [hk.notifiedReady]
  exact h.notified id (hk.openSince.symm.trans ho) (hk.steps ▸ hp)

variable {s : State V}

theorem OnceInv.updateStatus (h : OnceInv s) (id : String) (status : StepStatus) :
    OnceInv (s.updateStatus id status) := by
  rcases updateStatus_cases s id status with ⟨heq, _⟩ | ⟨old, _, _, heq⟩
  · rwa [heq]
  refine ⟨by rw [heq]; exact h.once, fun x hopen hpending => ?_⟩
  rw [updateStatus_notifiedReady]
  by_cases hx : x = id
  · -- The new status is PENDING, and closes the step.
    subst hx
    obtain rfl := get?_updateStatus s x status hpending
    simp [heq, startedOpen, openSince] at hopen
  · refine h.notified x (openSince_updateStatus s id status hopen) ?_
    rwa [← (updateStatus_touch s id status).steps x hx]

theorem OnceInv.markSkipped (cfg : Config V) (h : OnceInv s) (id reason : String) :
    OnceInv (markSkipped cfg s id reason) := by
  have hs := h.updateStatus id .skipped
  refine ⟨hs.once, fun x hopen hpending => ?_⟩
  have hx : x ≠ id := by
    rintro rfl
    cases get?_updateStatus s x .skipped hpending
  exact mem_discard.mpr ⟨hs.notified x hopen hpending, hx⟩

theorem OnceInv.startStep (cfg : Config V) (h : OnceInv s) {id : String} (hnotified : id ∉ s.notifiedReady)
    (hpending : s.steps.get? id = some .pending) : OnceInv (startStep cfg s id) := by
  have hclosed : startedOpen id s.log = false := by
    by_contra hopen
    exact hnotified (h.notified id (by simpa using hopen) hpending)
  have hstate := startStep_eq cfg s id
  refine ⟨?_, fun x hopen hp => ?_⟩
  · rw [hstate]
    exact ⟨⟨hpending, hclosed⟩, h.once⟩
  · rw [hstate] at hp ⊢
    by_cases hx : x = id
    · exact hx ▸ List.mem_cons_self
    · exact List.mem_cons_of_mem _ (h.notified x (openSince_startStep cfg s id hx hopen) hp)

theorem OnceInv.change {cfg : Config V} (hc : Change cfg (onceGuards V) s s') (h : OnceInv s) : OnceInv s' := by
  cases hc with
  | act hact =>
    cases hact with
    | quiet hq =>
      obtain ⟨notes, hnotes, hlog⟩ := hq.log
      exact ⟨hlog ▸ h.once.asides fun o ho => .inl (hnotes o ho),
        fun id ho hp => hq.notifiedReady ▸ h.notified id (hq.openSince.symm.trans ho) (hq.steps ▸ hp)⟩
    | status status => exact h.updateStatus _ status
    | skip reason => exact h.markSkipped cfg _ reason
    | start hmay hpending => exact h.startStep cfg hmay.notNotified hpending
    | spent => exact ⟨h.once, h.notified⟩
  | ended hended =>
    rw [stepEnded_eq]
    refine ⟨h.once, fun x ho hp => ?_⟩
    exact mem_discard.mpr ⟨h.notified x ho hp, fun hx => hended (hx ▸ ⟨ho, hp⟩)⟩
  | suspend | arm => exact ⟨h.once, h.notified⟩
  | outside hk => exact h.kept hk

theorem State.Fresh.onceInv (h : s.Fresh) : OnceInv s :=
  ⟨by rw [h.log]; trivial, by simp [h.log, startedOpen, openSince]⟩

theorem UpToDate.permits {cfg : Config V} {m : Move V} (hm : UpToDate s m)
    (h : Suspended (onceGuards V) s) : Permits (onceList cfg) s m where
  scans _ _ _ ready hr :=
    ⟨StepRegistry.getReadySteps_nodup hr, fun x hx _ => ((StepRegistry.mem_getReadySteps hr).mp hx).1⟩
  resumes r hr s' ht := by
    obtain ⟨hnot, hnodup⟩ := List.nodup_cons.mp (h r.1 (Move.mem_scans_of_resumes hr))
    have hrest : IdlePending s r.1.rest := hm.1 r hr
    exact ⟨hnodup, hrest.touch hnot ht⟩
  start _ _ hpending _ := hpending
  skip _ _ _ _ _ := trivial
  ended := hm.2
  spent _ _ _ := trivial
  arm _ _ := trivial
  write _ := trivial

theorem dispatched_once (cfg : Config V) {s : State V} (hs : s.Fresh) {moves : List (Move V)}
    (hmoves : Runs.Meets (step cfg) UpToDate s moves) : AtMostOnce (run cfg s moves).log := by
  refine OnceInv.once (hs.run_permitted hs.onceInv ?_ (fun _ _ => UpToDate.permits) hmoves)
  exact fun s m hm h => step_invariant _ OnceInv.change OnceInv.kept h hm

/-! ## A barrier that outlasts a step -/

def barrierConfig : Config Unit := { Config.bare with
  conditions := ⟨[("b", { step := some "x", status := some "PASSED" }),
    ("s", { step := some "x", status := some "PASSED" })], by decide⟩
  dependencyIndex := ⟨[("x", ["b", "s"])], by decide⟩
  uutIds := some ["u1"]
  affinityKnown := by simp [Config.bare, specific?]
  barrierSteps := ⟨[("b", "sync")], by decide⟩ }

def barrierState : State Unit where
  steps := ⟨[("x", .pending), ("b", .pending), ("s", .pending)], by decide⟩
  variableSpace := ()

/-- The scan stops at the barrier `b`, and `s` on its list is started by its own task. -/
def barrierMoves : List (Move Unit) :=
  [.start, .scan false .silent, .updateStatus "x" .running, .updateStatus "x" .passed, .scan false .silent, .deliver,
    .runDispatch 0 .silent, .updateStatus "s" .running]

theorem dispatched_once_barrier : AtMostOnce
    (run barrierConfig barrierState (barrierMoves ++ [.resumeScan 0 [] .silent, .deliver])).log :=
  @dispatched_once _ barrierConfig barrierState (.initial _ _) _ (by decide +kernel)

/-! ## A failure that is delivered late -/

def faultConfig : Config Unit := { Config.bare with
  configs := ⟨[("s", { repeatOnMeasurementFail := true })], by decide⟩
  hasFaultInjector := true }

def faultState : State Unit where
  steps := ⟨[("s", .pending)], by decide⟩
  variableSpace := ()

/-- The FAILED event of an injected fault comes after `s` was started again. -/
def faultMoves : List (Move Unit) :=
  [.start, .scan false { Answers.silent with fault := fun _ => some "injected" }, .scan false .silent, .deliver,
    .scan false .silent]

/-- `s` is started again after it has passed, and after a late failure. -/
theorem dispatched_twice : (barrierState.Fresh ∧ ¬ AtMostOnce (run barrierConfig barrierState (barrierMoves ++
      [.updateStatus "s" .passed, .deliver, .deliver, .deliver, .resumeScan 0 [] .silent])).log) ∧
    (faultState.Fresh ∧ ¬ AtMostOnce (run faultConfig faultState faultMoves).log) :=
  ⟨⟨.initial _ _, by decide +kernel⟩, .initial _ _, by decide +kernel⟩

end AteStudio.Scheduler
