import AteStudio.Scheduler.History

/-!
# A UUT belongs to one step

A claim is released by a terminal status event, which may be one of an earlier attempt.
-/

namespace AteStudio.Scheduler

variable {V : Type}

def occupies (id : String) (log : List Obs) : Bool :=
  openSince (fun status => status = .pending || status.terminal) id log

def Config.pinned (cfg : Config V) (id : String) : Bool := (specific? cfg.uutAffinities id).isSome

def ClaimsKept (cfg : Config V) (s : State V) : Prop :=
  ∀ id uut, specific? cfg.uutAffinities id = some uut → occupies id s.log = true →
    s.affinityClaims.get? uut = some id

def Exclusive (cfg : Config V) (s : State V) : Prop :=
  (∀ a b uut, specific? cfg.uutAffinities a = some uut → specific? cfg.uutAffinities b = some uut →
    occupies a s.log = true → occupies b s.log = true → a = b) ∧ ClaimsKept cfg s

variable {cfg : Config V} {s : State V}

theorem ClaimsKept.exclusive (h : ClaimsKept cfg s) : Exclusive cfg s := by
  refine ⟨fun a b uut ha hb hoa hob => ?_, h⟩
  have hclaim := (h a uut ha hoa).symm.trans (h b uut hb hob)
  exact Option.some.inj hclaim

/-- No terminal event of an earlier attempt comes for a step that occupies its UUT. -/
def NoLateEnd (cfg : Config V) (s : State V) (m : Move V) : Prop :=
  ∀ id ∈ m.ends? s, cfg.pinned id = true → occupies id s.log = false

instance (cfg : Config V) (s : State V) (m : Move V) : Decidable (NoLateEnd cfg s m) :=
  inferInstanceAs (Decidable (∀ _ ∈ _, _))

/-! ## Guards -/

def uutGuards (cfg : Config V) : Guards V where
  start _ _ := True
  skip _ _ := True
  ended s id := cfg.pinned id = true → occupies id s.log = false
  suspend _ := True
  spent _ := True
  arm _ := True
  write := True
  start_alike _ _ := trivial
  skip_alike _ _ := trivial
  ended_same _ hlog h := by rwa [hlog]

def uutList (cfg : Config V) (ans : Answers) : ListGuard cfg (uutGuards cfg) ans where
  holds _ _ := True
  alike _ _ := trivial
  next _ _ := trivial
  start _ _ := trivial
  skip _ _ _ := trivial
  suspend _ := trivial
  spent _ _ := trivial

theorem NoLateEnd.permits {m : Move V} (h : NoLateEnd cfg s m) : Permits (uutList cfg) s m where
  scans _ _ _ _ _ := trivial
  resumes _ _ _ _ := trivial
  start _ _ _ _ := trivial
  skip _ _ _ _ _ := trivial
  ended := h
  spent _ _ _ := trivial
  arm _ _ := trivial
  write _ := trivial

/-! ## Claims -/

section Claims

variable {cfg : Config V} {s : State V} {id uut : String} {ids : List String}

theorem canSchedule_claim (hpool : cfg.uutIds = some ids) (hpin : specific? cfg.uutAffinities id = some uut)
    (h : canSchedule cfg s id = true) {occupant : String} (hclaim : s.affinityClaims.get? uut = some occupant) :
    occupant = id := by
  have hknown : uut ∈ ids := cfg.affinityKnown ids hpool id uut hpin
  simp only [canSchedule, hpin, hpool, hknown, not_true_eq_false, if_false, hclaim] at h
  split at h
  · cases h
  · exact of_decide_eq_true h

theorem claimUut_claims (hpool : cfg.uutIds = some ids) (hpin : specific? cfg.uutAffinities id = some uut) :
    (claimUut cfg s id).affinityClaims = s.affinityClaims.setDefault uut id := by
  simp [claimUut, hpin, hpool]

theorem claimUut_keeps {x : String} (h : s.affinityClaims.get? uut = some x) :
    (claimUut cfg s id).affinityClaims.get? uut = some x := by
  unfold claimUut
  split
  · next u _ _ _ =>
    rw [Dict.get?_setDefault]
    split
    · next heq => simp [← heq, h]
    · exact h
  · exact h

theorem stepEnded_keeps {x : String} (hx : x ≠ id) (h : s.affinityClaims.get? uut = some x) :
    (stepEnded cfg s id).affinityClaims.get? uut = some x := by
  unfold stepEnded releaseUutClaim
  split
  · next u hu =>
    split
    · next hclaim =>
      have hne : uut ≠ u := fun heq => hx (Option.some.inj (h.symm.trans (heq ▸ hclaim)))
      simp [Dict.get?_erase, hne, h]
    · exact h
  · exact h

end Claims

theorem ClaimsKept.kept {s s' : State V} (hk : Kept s s') (h : ClaimsKept cfg s) : ClaimsKept cfg s' :=
  fun id uut hpin ho => hk.affinityClaims ▸ h id uut hpin (hk.openSince.symm.trans ho)

theorem ClaimsKept.startStep {ids : List String} (hpool : cfg.uutIds = some ids)
    (h : ClaimsKept cfg s) {id : String} (hcan : canSchedule cfg s id = true) : ClaimsKept cfg (startStep cfg s id) := by
  intro x uut hpin ho
  have hclaims : (Scheduler.startStep cfg s id).affinityClaims = (claimUut cfg s id).affinityClaims := rfl
  by_cases hx : x = id
  · subst hx
    rw [hclaims, claimUut_claims hpool hpin, Dict.get?_setDefault, if_pos rfl]
    cases hclaim : s.affinityClaims.get? uut with
    | none => rfl
    | some occupant => exact congrArg some (canSchedule_claim hpool hpin hcan hclaim)
  · exact claimUut_keeps (h x uut hpin (openSince_startStep cfg s id hx ho))

theorem ClaimsKept.change {ids : List String} (hpool : cfg.uutIds = some ids) {s s' : State V}
    (hc : Change cfg (uutGuards cfg) s s') (h : ClaimsKept cfg s) : ClaimsKept cfg s' := by
  cases hc with
  | act hact =>
    cases hact with
    | quiet hq =>
      intro id uut hpin ho
      rw [hq.affinityClaims]
      exact h id uut hpin (hq.openSince.symm.trans ho)
    | status status =>
      intro x uut hpin ho
      rw [updateStatus_affinityClaims]
      exact h x uut hpin (openSince_updateStatus s _ status ho)
    | skip reason =>
      intro x uut hpin ho
      refine (congrArg (·.get? uut) (updateStatus_affinityClaims s _ .skipped)).trans ?_
      exact h x uut hpin (openSince_markSkipped cfg s _ ho)
    | start hmay => exact h.startStep hpool hmay.canSchedule
    | spent => exact h
  | ended hended =>
    intro x uut hpin ho
    rw [stepEnded_eq] at ho
    refine stepEnded_keeps ?_ (h x uut hpin ho)
    rintro rfl
    have hfree := hended (by simp [Config.pinned, hpin])
    simp [hfree] at ho
  | suspend | arm => exact h
  | outside hk => exact h.kept hk

theorem State.Fresh.claimsKept (h : s.Fresh) : ClaimsKept cfg s := by
  intro id uut _ ho
  simp [h.log, occupies, openSince] at ho

theorem uut_exclusive {cfg : Config V} {ids : List String} (hpool : cfg.uutIds = some ids) {s : State V} (hs : s.Fresh)
    {moves : List (Move V)} (hmoves : Runs.Meets (step cfg) (NoLateEnd cfg) s moves) :
    Exclusive cfg (run cfg s moves) := by
  have hinv := Runs.run_invariant (fun s m h hm => step_invariant (uutList cfg) (ClaimsKept.change hpool)
    ClaimsKept.kept h (NoLateEnd.permits hm)) hs.claimsKept hmoves
  exact hinv.exclusive

/-! ## A failure that is delivered late -/

/-- `s` and `t` run on `u1`, and are repeated when they fail. Faults are injected. -/
def sharedUut : Config Unit := { Config.bare with
  configs := ⟨[("s", { repeatOnMeasurementFail := true }), ("t", { repeatOnMeasurementFail := true })], by decide⟩
  uutAffinities := ⟨[("s", "u1"), ("t", "u1")], by decide⟩
  uutIds := some ["u1"]
  affinityKnown := by
    rintro _ ⟨⟩ stepId uut hpin
    simpa [Dict.values] using mem_values_of_specific? hpin
  hasFaultInjector := true }

def sharedState : State Unit where
  steps := ⟨[("s", .pending), ("t", .pending)], by decide⟩
  variableSpace := ()

/-- Both steps are failed by the injector and put back to PENDING. The next scan starts `s`. -/
def sharedMoves : List (Move Unit) :=
  [.start, .scan false { Answers.silent with fault := fun _ => some "injected" }, .scan false .silent]

theorem uut_exclusive_shared : Exclusive sharedUut
    (run sharedUut sharedState (sharedMoves ++ [.updateStatus "s" .running, .scan false .silent])) :=
  @uut_exclusive _ sharedUut ["u1"] rfl sharedState (.initial _ _) _ (by decide +kernel)

/-- The first attempt's failure releases the claim, and `t` is started on the same UUT. -/
theorem uut_shared : sharedState.Fresh ∧ ¬ Exclusive sharedUut
    (run sharedUut sharedState (sharedMoves ++ [.updateStatus "s" .running, .deliver, .scan false .silent])) := by
  refine ⟨.initial _ _, fun h => ?_⟩
  have hboth := h.1 "s" "t" "u1" rfl rfl (by decide +kernel) (by decide +kernel)
  exact absurd hboth (by decide)

end AteStudio.Scheduler
