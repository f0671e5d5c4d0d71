import AteStudio.Dispatcher.Order

/-!
# The abort policy

A script that fails under `on_failure: abort` sets `_aborted`. A fixture or a barrier that fails sets nothing. What the
steps answer changes the order of execution only by an abort.
-/

namespace AteStudio.Dispatcher

open List Waves

/-! ## Equations -/

section Equations

variable {σ : Type} {st : RunState σ}

theorem runWave_aborted (h : st.aborted = true) (ready : List (Entry σ)) (completed : List String) :
    runWave ready completed st = ([], completed, st) := by
  induction ready with
  | nil => rfl
  | cons e ready ih => rw [runWave, if_pos h, ih]

theorem runWave_cons (h : st.aborted = false) (e : Entry σ) (ready : List (Entry σ)) (completed : List String) :
    runWave (e :: ready) completed st =
      ((e.execute st).1 ++ (runWave ready (completed ++ [e.id]) (e.execute st).2).1,
        (runWave ready (completed ++ [e.id]) (e.execute st).2).2) := by
  rw [runWave, if_neg (by simp [h])]

theorem runEntries_nil (fuel : Nat) (completed : List String) : runEntries fuel [] completed st = ([], st) := by
  cases fuel <;> simp [runEntries]

theorem runEntries_stuck {remaining : List (Entry σ)} {completed : List String} (hne : remaining ≠ [])
    (h : remaining.filter (·.isReady completed) = []) (fuel : Nat) :
    runEntries (fuel + 1) remaining completed st =
      (remaining.map (·.blocked), { st with aborted := st.aborted || remaining.any (·.isAbort) }) := by
  rw [runEntries, if_neg (by simpa using hne), if_pos (by simp [h])]

theorem runEntries_wave {remaining : List (Entry σ)} {completed : List String}
    (h : remaining.filter (·.isReady completed) ≠ []) (fuel : Nat) :
    runEntries (fuel + 1) remaining completed st =
      let wave := runWave (remaining.filter (·.isReady completed)) completed st
      let rest := runEntries fuel (remaining.filter fun e => !e.isReady completed) wave.2.1 wave.2.2
      (wave.1 ++ rest.1, rest.2) := by
  have hne : remaining ≠ [] := by
    rintro rfl
    exact h rfl
  rw [runEntries, if_neg (by simpa using hne), if_neg (by simpa using h)]

variable {l : YamlLoop} {body : RunState σ → List StepOutcome × RunState σ}

theorem executeLoop_aborted (h : st.aborted = true) (ns : List Nat) : executeLoop l body ns st = ([], st) := by
  cases ns with
  | nil => rfl
  | cons n ns => rw [executeLoop, if_pos h]

theorem executeLoop_cons (h : st.aborted = false) (n : Nat) (ns : List Nat) :
    executeLoop l body (n :: ns) st =
      ((body st).1.map (inIteration l n) ++ (executeLoop l body ns (body st).2).1,
        (executeLoop l body ns (body st).2).2) := by
  rw [executeLoop, if_neg (by simp [h])]

theorem runEntries_aborted (h : st.aborted = true) (fuel : Nat) (remaining : List (Entry σ)) (completed : List String) :
    (runEntries fuel remaining completed st).2 = st := by
  induction fuel generalizing remaining completed with
  | zero => rfl
  | succ fuel ih =>
    by_cases hne : remaining = []
    · rw [hne, runEntries_nil]
    · by_cases hready : remaining.filter (·.isReady completed) = []
      · rw [runEntries_stuck hne hready, h, Bool.true_or, ← h]
      · rw [runEntries_wave hready, runWave_aborted h]
        exact ih _ _

end Equations

/-! ## The schedule of a plan -/

/-- Steps in order, and whether the run is aborted at their end. -/
structure Course where
  steps : List YamlStep
  aborts : Bool

namespace Course

def append (c rest : Course) : Course := if c.aborts then c else ⟨c.steps ++ rest.steps, rest.aborts⟩

def inTurn : List Course → Course := foldr append ⟨[], false⟩

theorem append_append (a b c : Course) : (a.append b).append c = a.append (b.append c) := by
  unfold append
  cases ha : a.aborts <;> cases hb : b.aborts <;> simp [ha, hb]

theorem inTurn_append (as bs : List Course) : inTurn (as ++ bs) = (inTurn as).append (inTurn bs) := by
  induction as with
  | nil => simp [inTurn, append]
  | cons a as ih => rw [cons_append, inTurn, foldr_cons, ← inTurn, ih, ← append_append]; rfl

theorem prefix_append (c rest : Course) : c.steps <+: (c.append rest).steps := by
  unfold append
  split
  · exact prefix_rfl
  · exact List.prefix_append _ _

end Course

open Course

section InWaves

variable {α : Type} (id : α → String) (deps : α → List String) (isAbort : α → Bool) (course : α → Course)

/-- What is left at the end is blocked, and aborts the run when one of the items says so. -/
def inWaves (fuel : Nat) (items : List α) (completed : List String) : Course :=
  let (order, left) := waves id deps fuel items completed
  (inTurn (order.map course)).append ⟨[], left.any isAbort⟩

variable {id deps isAbort course} {items : List α} {completed : List String} (fuel : Nat)

theorem inWaves_stuck (h : items.filter (isReady deps completed) = []) :
    inWaves id deps isAbort course (fuel + 1) items completed = ⟨[], items.any isAbort⟩ := by
  simp [inWaves, waves, h, inTurn, append]

theorem inWaves_wave (h : items.filter (isReady deps completed) ≠ []) :
    inWaves id deps isAbort course (fuel + 1) items completed =
      (inTurn ((items.filter (isReady deps completed)).map course)).append
        (inWaves id deps isAbort course fuel (items.filter fun a => !isReady deps completed a)
          (completed ++ (items.filter (isReady deps completed)).map id)) := by
  rw [inWaves, waves, if_neg (by simpa using h)]
  simp only [map_append, inTurn_append, append_append]
  rfl

end InWaves

def abortsScript (s : YamlStep) : Bool :=
  match orText s.onFailure s.onFail with
  | some "continue" => false
  | some "skip" => false
  | _ => true

def isScript (s : YamlStep) : Prop := s.type.getD .script = .script ∨ s.type.getD .script = .action

instance (s : YamlStep) : Decidable (isScript s) := inferInstanceAs (Decidable (_ ∨ _))

/-- A script without an attempt fails, whatever the executor would answer. -/
def surelyAborts (s : YamlStep) : Bool := isScript s ∧ 1 + s.retry ≤ 0 ∧ abortsScript s = true

def scopeCourse (items : List (Item × Course)) : Course :=
  inWaves (Item.id ∘ Prod.fst) (deps ∘ Prod.fst) (isAbort ∘ Prod.fst) Prod.snd items.length items []

mutual
def itemCourse : Item → Course
  | .step s _ => ⟨[s], surelyAborts s⟩
  | .loop l steps => inTurn ((List.range (iterations l)).map fun _ => scopeCourse (courses steps))
  | .raw _ => ⟨[], false⟩

def courses : List Item → List (Item × Course)
  | [] => []
  | item :: items => (item, itemCourse item) :: courses items
end

/-- The steps of the plan in the order of its dependencies, up to where every run is aborted. -/
def schedule (plan : YamlPlan) : List YamlStep := (scopeCourse (courses plan.steps)).steps

/-! ## Runs follow the schedule -/

section Follows

variable {σ : Type}

def stepsOf (st : RunState σ) : List YamlStep := st.executions.map (·.step)

variable (P : RunState σ → Prop) (early : Prop)

/-- The run has come to the end of the course, or was aborted `early`, and has kept `P`. -/
structure Follows (c : Course) (st st' : RunState σ) : Prop where
  keeps : P st → P st'
  along : ∃ done, stepsOf st' = stepsOf st ++ done ∧
    (done = c.steps ∧ st'.aborted = c.aborts ∨ early ∧ done <+: c.steps ∧ st'.aborted = true)

variable {P early} {st : RunState σ}

theorem Follows.refl {st : RunState σ} (h : st.aborted = false) : Follows P early ⟨[], false⟩ st st :=
  ⟨id, [], (append_nil _).symm, .inl ⟨rfl, h⟩⟩

theorem Follows.append {c c' : Course} {st st' st'' : RunState σ} (h : Follows P early c st st')
    (hlive : st'.aborted = false → Follows P early c' st' st'') (hstop : st'.aborted = true → st'' = st') :
    Follows P early (c.append c') st st'' := by
  obtain ⟨hkeeps, done, hsteps, hdone⟩ := h
  cases hab : st'.aborted with
  | true =>
    obtain rfl := hstop hab
    refine ⟨hkeeps, done, hsteps, ?_⟩
    rcases hdone with ⟨rfl, haborts⟩ | ⟨hearly, hprefix, _⟩
    · rw [Course.append, if_pos (haborts ▸ hab)]
      exact .inl ⟨rfl, haborts⟩
    · exact .inr ⟨hearly, hprefix.trans (Course.prefix_append _ _), hab⟩
  | false =>
    obtain ⟨hkeeps', done', hsteps', hdone'⟩ := hlive hab
    rcases hdone with ⟨rfl, haborts⟩ | ⟨_, _, htrue⟩
    · rw [Course.append, if_neg (by rw [← haborts, hab]; simp)]
      refine ⟨hkeeps' ∘ hkeeps, c.steps ++ done', by rw [hsteps', hsteps, append_assoc], ?_⟩
      rcases hdone' with ⟨rfl, haborts'⟩ | ⟨hearly, hprefix, htrue⟩
      · exact .inl ⟨rfl, haborts'⟩
      · exact .inr ⟨hearly, (prefix_append_right_inj _).mpr hprefix, htrue⟩
    · rw [hab] at htrue
      cases htrue

section Scope

variable {α : Type} {f : α → Entry σ} {course : α → Course}

theorem runWave_follows {ready : List α}
    (h : ∀ a ∈ ready, ∀ st, st.aborted = false → Follows P early (course a) st ((f a).execute st).2)
    (completed : List String) (hst : st.aborted = false) :
    Follows P early (inTurn (ready.map course)) st (runWave (ready.map f) completed st).2.2 ∧
      ((runWave (ready.map f) completed st).2.2.aborted = false →
        (runWave (ready.map f) completed st).2.1 = completed ++ ready.map (Entry.id ∘ f)) := by
  induction ready generalizing completed st with
  | nil => exact ⟨.refl hst, fun _ => by simp [runWave]⟩
  | cons a ready ih =>
    obtain ⟨ha, hrest⟩ := forall_mem_cons.mp h
    rw [map_cons, map_cons, runWave_cons hst]
    cases hab : ((f a).execute st).2.aborted with
    | true =>
      rw [runWave_aborted hab]
      refine ⟨(ha st hst).append (fun hlive => ?_) fun _ => rfl, fun hlive => ?_⟩
      · cases hab.symm.trans hlive
      · cases hab.symm.trans hlive
    | false =>
      obtain ⟨hfollows, hcompleted⟩ := ih hrest (completed ++ [(f a).id]) hab
      refine ⟨(ha st hst).append (fun _ => hfollows) fun hstop => ?_, fun hlive => ?_⟩
      · cases hab.symm.trans hstop
      · rw [hcompleted hlive, append_assoc]
        rfl

theorem runEntries_follows (hblock : ∀ st b, st.aborted = false → P st → P { st with aborted := b }) (fuel : Nat)
    {remaining : List α}
    (h : ∀ a ∈ remaining, ∀ st, st.aborted = false → Follows P early (course a) st ((f a).execute st).2)
    (hfuel : remaining.length ≤ fuel) (completed : List String) (hst : st.aborted = false) :
    Follows P early (inWaves (Entry.id ∘ f) (Entry.deps ∘ f) (Entry.isAbort ∘ f) course fuel remaining completed) st
      (runEntries fuel (remaining.map f) completed st).2 := by
  induction fuel generalizing remaining completed st with
  | zero =>
    rw [length_eq_zero_iff.mp (Nat.le_zero.mp hfuel)]
    exact .refl hst
  | succ fuel ih =>
    have hready : (remaining.map f).filter (·.isReady completed) =
        (remaining.filter (isReady (Entry.deps ∘ f) completed)).map f := filter_map
    have hwaiting : (remaining.map f).filter (fun e => !e.isReady completed) =
        (remaining.filter fun a => !isReady (Entry.deps ∘ f) completed a).map f := filter_map
    by_cases hne : remaining = []
    · rw [hne, map_nil, runEntries_nil]
      exact .refl hst
    by_cases hnone : remaining.filter (isReady (Entry.deps ∘ f) completed) = []
    · rw [inWaves_stuck fuel hnone, runEntries_stuck (by simpa using hne) (by rw [hready, hnone, map_nil]), hst,
        Bool.false_or, any_map]
      exact ⟨hblock st _ hst, [], (append_nil _).symm, .inl ⟨rfl, rfl⟩⟩
    · rw [inWaves_wave fuel hnone, runEntries_wave (by rw [hready]; simpa using hnone), hready, hwaiting]
      obtain ⟨hwave, hcompleted⟩ := runWave_follows (fun a ha => h a (mem_of_mem_filter ha)) completed hst
      refine hwave.append (fun hlive => ?_) fun hstop => runEntries_aborted hstop _ _ _
      dsimp only
      rw [hcompleted hlive]
      exact ih (fun a ha => h a (mem_of_mem_filter ha)) (Waves.length_waiting_le hnone hfuel) _ hlive

end Scope

theorem executeLoop_follows {l : YamlLoop} {body : RunState σ → List StepOutcome × RunState σ} {c : Course}
    (h : ∀ st, st.aborted = false → Follows P early c st (body st).2) (ns : List Nat)
    (hst : st.aborted = false) : Follows P early (inTurn (ns.map fun _ => c)) st (executeLoop l body ns st).2 := by
  induction ns generalizing st with
  | nil => exact .refl hst
  | cons n ns ih =>
    rw [executeLoop_cons hst]
    exact (h st hst).append (fun hlive => ih hlive) fun hstop => by rw [executeLoop_aborted hstop]

variable {env : Env σ} {planFixture : Option String}

theorem courses_eq_map (items : List Item) : courses items = items.map fun item => (item, itemCourse item) := by
  induction items with
  | nil => simp [courses]
  | cons item items ih => rw [courses, ih, map_cons]

theorem entry_isAbort : Entry.isAbort ∘ entry env planFixture = isAbort := by
  funext item
  cases item <;> simp only [Function.comp, entry, isAbort]

variable (hblock : ∀ st b, st.aborted = false → P st → P { st with aborted := b })

include hblock

theorem runScope_follows {items : List Item} (h : ∀ item ∈ items, ∀ st, st.aborted = false →
    Follows P early (itemCourse item) st ((entry env planFixture item).execute st).2)
    (hst : st.aborted = false) :
    Follows P early (scopeCourse (courses items)) st (runScope (entries env planFixture items) st).2 := by
  have hentries : entries env planFixture items = (courses items).map (entry env planFixture ∘ Prod.fst) := by
    rw [entries_eq_map, courses_eq_map, map_map]
    rfl
  rw [hentries, runScope, length_map, scopeCourse, ← @entry_id _ env planFixture, ← @entry_deps _ env planFixture,
    ← @entry_isAbort _ env planFixture]
  refine runEntries_follows hblock _ ?_ le_rfl [] hst
  rw [courses_eq_map]
  simpa using h

variable (hstep : ∀ s st, st.aborted = false →
  Follows P early ⟨[s], surelyAborts s⟩ st (executeStep env planFixture s st).2)

include hstep

theorem entry_follows (item : Item) (hst : st.aborted = false) :
    Follows P early (itemCourse item) st ((entry env planFixture item).execute st).2 := by
  induction item using Item.mem_induction generalizing st with
  | step s steps =>
    rw [entry, itemCourse]
    exact hstep s st hst
  | loop l steps ih =>
    rw [entry, itemCourse]
    exact executeLoop_follows (fun _ => runScope_follows hblock fun item hi _ => ih item hi) _ hst
  | raw v =>
    rw [entry, itemCourse]
    exact .refl hst

theorem run_follows (items : List Item) (world : σ) : Follows P early (scopeCourse (courses items)) ⟨false, world, []⟩
    (runScope (entries env planFixture items) ⟨false, world, []⟩).2 :=
  runScope_follows hblock (fun item _ _ => entry_follows hblock hstep item) rfl

end Follows

/-! ## One step -/

section Step

variable {σ : Type} {env : Env σ} {planFixture : Option String} {s : YamlStep} {st : RunState σ}

theorem abortsScript_of_abort (h : s.onFailure = some "abort") : abortsScript s = true := by
  simp [abortsScript, h, orText]

theorem failureOutcome_aborted (attempts : Nat) :
    (failureOutcome s attempts st).2.aborted = (st.aborted || abortsScript s) := by
  unfold failureOutcome abortsScript
  generalize orText s.onFailure s.onFail = policy
  split <;> simp_all

def isUnguarded (s : YamlStep) : Prop := s.type = some .fixtureControl ∨ s.type = some .barrier

instance (s : YamlStep) : Decidable (isUnguarded s) := inferInstanceAs (Decidable (_ ∨ _))

theorem dispatchFixture_aborted : (dispatchFixture env planFixture s st).2.aborted = st.aborted := by
  unfold dispatchFixture
  split
  · rfl
  · rfl
  · split <;> rfl

theorem dispatchBarrier_aborted : (dispatchBarrier env s st).2.aborted = st.aborted := by
  simp only [dispatchBarrier]
  split <;> rfl

theorem dispatchBreakpoint_aborted : (dispatchBreakpoint env s st).2.aborted = st.aborted := by
  unfold dispatchBreakpoint
  split
  · split <;> rfl
  · rfl

theorem dispatchBreakpoint_status : (dispatchBreakpoint env s st).1.status = .pass := by
  unfold dispatchBreakpoint
  split
  · split <;> rfl
  · rfl

theorem dispatchStep_script (h : isScript s) : dispatchStep env planFixture s st = dispatchScript env s st := by
  unfold dispatchStep
  rcases h with h | h <;> rw [h]

theorem dispatchStep_cases (env : Env σ) (planFixture : Option String) (s : YamlStep) (st : RunState σ) :
    isScript s ∨
      isUnguarded s ∧ (dispatchStep env planFixture s st).2.aborted = st.aborted ∨
        (dispatchStep env planFixture s st).1.status ≠ .fail ∧
          (dispatchStep env planFixture s st).2.aborted = st.aborted := by
  unfold dispatchStep isScript isUnguarded
  cases htype : s.type with
  | none => exact .inl (.inl rfl)
  | some type =>
    cases type with
    | script => exact .inl (.inl rfl)
    | action => exact .inl (.inr rfl)
    | fixtureControl => exact .inr (.inl ⟨.inl rfl, dispatchFixture_aborted⟩)
    | barrier => exact .inr (.inl ⟨.inr rfl, dispatchBarrier_aborted⟩)
    | breakpoint =>
      refine .inr (.inr ⟨?_, dispatchBreakpoint_aborted⟩)
      simp [dispatchBreakpoint_status]
    | loop => exact .inr (.inr ⟨by simp, rfl⟩)
    | branch => exact .inr (.inr ⟨by simp, rfl⟩)
    | call => exact .inr (.inr ⟨by simp, rfl⟩)
    | subsequence => exact .inr (.inr ⟨by simp, rfl⟩)

theorem dispatchScript_cases (env : Env σ) (s : YamlStep) (st : RunState σ) :
    (dispatchScript env s st).1.status = .pass ∧ (dispatchScript env s st).2.aborted = st.aborted ∨
      (dispatchScript env s st).2.aborted = (st.aborted || abortsScript s) := by
  unfold dispatchScript
  simp only
  split
  · exact .inl ⟨rfl, rfl⟩
  · exact .inr (failureOutcome_aborted _)

theorem dispatchStep_fail (h : (dispatchStep env planFixture s st).1.status = .fail) (habort : s.onFailure = some "abort") :
    isUnguarded s ∨ (dispatchStep env planFixture s st).2.aborted = true := by
  rcases dispatchStep_cases env planFixture s st with
    hscript | ⟨hun, -⟩ | ⟨hno, -⟩
  · rw [dispatchStep_script hscript] at h ⊢
    rcases dispatchScript_cases env s st with ⟨hpass, -⟩ | hab
    · rw [hpass] at h
      cases h
    · exact .inr (by rw [hab, abortsScript_of_abort habort, Bool.or_true])
  · exact .inl hun
  · exact absurd h hno

theorem dispatchStep_surelyAborts (h : surelyAborts s = true) : (dispatchStep env planFixture s st).2.aborted = true := by
  obtain ⟨hscript, hretry, haborts⟩ := of_decide_eq_true h
  have hattempts : (1 + s.retry).toNat = 0 := Int.toNat_eq_zero.mpr hretry
  rw [dispatchStep_script hscript]
  simp only [dispatchScript, hattempts, runAttempts, Bool.false_eq_true, if_false, failureOutcome_aborted, haborts,
    Bool.or_true]

end Step

/-! ## The policy -/

def Execution.failsAbort (e : Execution) : Prop := e.step.onFailure = some "abort" ∧ e.outcome.status = .fail

def StopsOnAbort (trace : List Execution) : Prop := trace.Pairwise fun e _ => ¬ e.failsAbort

/-- A guarded failure has set the flag, and nothing came after it. -/
structure Guarded {σ : Type} (st : RunState σ) : Prop where
  flag : ∀ e ∈ st.executions, e.failsAbort → ¬ isUnguarded e.step → st.aborted = true
  last : st.executions.Pairwise fun e _ => e.failsAbort → isUnguarded e.step

section Policy

variable {σ : Type} {env : Env σ} {planFixture : Option String}

theorem Guarded.unguarded {st : RunState σ} (h : Guarded st) (hst : st.aborted = false) :
    ∀ e ∈ st.executions, e.failsAbort → isUnguarded e.step := by
  intro e he hfail
  by_contra hun
  cases hst.symm.trans (h.flag e he hfail hun)

theorem Guarded.executeStep {st : RunState σ} (s : YamlStep) (hst : st.aborted = false) (h : Guarded st) :
    Guarded (executeStep env planFixture s st).2 := by
  have hall := h.unguarded hst
  constructor
  · intro e he hfail hun
    rcases mem_append.mp he with he | he
    · exact absurd (hall e he hfail) hun
    · rw [mem_singleton] at he
      subst he
      exact (dispatchStep_fail hfail.2 hfail.1).resolve_left hun
  · exact pairwise_append.mpr ⟨h.last, pairwise_singleton _ _, fun e he _ _ => hall e he⟩

theorem executions_guarded (env : Env σ) (plan : YamlPlan) (world : σ) :
    Follows Guarded True (scopeCourse (courses plan.steps)) ⟨false, world, []⟩
      (runScope (entries env plan.fixtureId plan.steps) ⟨false, world, []⟩).2 := by
  refine run_follows (fun st b hst h => ?_) (fun s st hst => ?_) plan.steps world
  · exact ⟨fun e he hfail hun => absurd (h.unguarded hst e he hfail) hun, h.last⟩
  · refine ⟨.executeStep s hst, [s], by simp [executeStep, stepsOf], ?_⟩
    cases hab : (executeStep env plan.fixtureId s st).2.aborted with
    | true => exact .inr ⟨trivial, prefix_rfl, rfl⟩
    | false =>
      refine .inl ⟨rfl, (Bool.eq_false_iff.mpr fun hsure => ?_).symm⟩
      cases hab.symm.trans (dispatchStep_surelyAborts hsure)

end Policy

/-! ### Fixtures and barriers that fail -/

def faultyEnv : Env Unit where
  scriptExecutor := none
  fixture _ _ _ := (.error "", ())
  barrier _ _ := (some [], ())
  breakpointHook := none
  evalBreakpointCondition _ := none
  str _ := ""
  repr _ := ""

theorem dispatchStep_faulty_unguarded {planFixture : Option String} {s : YamlStep} {st : RunState Unit}
    (h : isUnguarded s) : (dispatchStep faultyEnv planFixture s st).1.status = .fail := by
  rcases h with h | h
  · simp only [dispatchStep, h, Option.getD_some]
    unfold dispatchFixture
    split
    · rfl
    · rfl
    · split <;> rfl
  · simp only [dispatchStep, h, Option.getD_some, dispatchBarrier, faultyEnv]

theorem dispatchStep_faulty_aborted {planFixture : Option String} {s : YamlStep} {st : RunState Unit}
    (hst : st.aborted = false) : (dispatchStep faultyEnv planFixture s st).2.aborted = surelyAborts s := by
  cases hsure : surelyAborts s with
  | true => exact dispatchStep_surelyAborts hsure
  | false =>
    rcases dispatchStep_cases faultyEnv planFixture s st with hscript | ⟨_, hab⟩ | ⟨_, hab⟩
    · rw [dispatchStep_script hscript]
      cases hattempts : (1 + s.retry).toNat with
      | zero =>
        simp only [dispatchScript, hattempts, runAttempts, Bool.false_eq_true, if_false, failureOutcome_aborted, hst,
          Bool.false_or]
        simpa [surelyAborts, hscript, Int.toNat_eq_zero.mp hattempts] using hsure
      | succ n => simp [dispatchScript, hattempts, faultyEnv, runAttempts, hst]
    · exact hab.trans hst
    · exact hab.trans hst

theorem executions_faulty (plan : YamlPlan) :
    Follows (fun st => ∀ e ∈ st.executions, isUnguarded e.step → e.outcome.status = .fail) False
      (scopeCourse (courses plan.steps)) ⟨false, (), []⟩
      (runScope (entries faultyEnv plan.fixtureId plan.steps) ⟨false, (), []⟩).2 := by
  refine run_follows (fun st b _ h => h) (fun s st hst => ⟨fun h e he => ?_, [s], ?_, ?_⟩) plan.steps ()
  · rcases mem_append.mp he with he | he
    · exact h e he
    · rw [mem_singleton] at he
      subst he
      exact dispatchStep_faulty_unguarded
  · simp [executeStep, stepsOf]
  · exact .inl ⟨rfl, dispatchStep_faulty_aborted hst⟩

/-- Exactly when no fixture or barrier with `on_failure: abort` comes before another step. -/
theorem stopsOnAbort_iff (plan : YamlPlan) :
    (∀ (σ : Type) (env : Env σ) (world : σ), StopsOnAbort (executions env plan world)) ↔
      (schedule plan).Pairwise fun s _ => ¬ (s.onFailure = some "abort" ∧ isUnguarded s) := by
  constructor
  · intro h
    obtain ⟨hfails, done, hsteps, ⟨hdone, _⟩ | ⟨hearly, _⟩⟩ := executions_faulty plan
    · have hschedule : schedule plan = (executions faultyEnv plan ()).map (·.step) :=
        (hsteps.trans ((nil_append _).trans hdone)).symm
      rw [hschedule]
      refine List.pairwise_map.mpr ((h Unit faultyEnv ()).imp_of_mem fun {e _} he _ hno ⟨habort, hun⟩ => ?_)
      exact hno ⟨habort, hfails (by simp) e he hun⟩
    · exact hearly.elim
  · intro h σ env world
    obtain ⟨hguarded, done, hsteps, hdone⟩ := executions_guarded env plan world
    have hprefix : (executions env plan world).map (·.step) <+: schedule plan := by
      rw [show (executions env plan world).map (·.step) = done from hsteps.trans (nil_append _)]
      rcases hdone with ⟨rfl, _⟩ | ⟨_, hprefix, _⟩
      · exact prefix_rfl
      · exact hprefix
    have hall := List.pairwise_map.mp (h.sublist hprefix.sublist)
    exact (hall.and (hguarded ⟨by simp, .nil⟩).last).imp fun ⟨hno, hguard⟩ hfail => hno ⟨hfail.1, hguard hfail⟩

def clampPlan : YamlPlan :=
  { name := "plan", version := "3.2", steps := [
    .leaf { id := "clamp", type := some .fixtureControl, action := some "clamp", fixtureId := some "fixture"
            onFailure := some "abort" },
    .leaf { id := "measure", script := "measure.py", dependsOn := ["clamp"] }] }

/-- The fixture does not clamp, and the measurement that depends on it is executed. -/
theorem not_stopsOnAbort_clampPlan :
    (run faultyEnv clampPlan ()).map (fun o => (o.stepId, o.status)) = [("clamp", .fail), ("measure", .pass)] ∧
      ¬ StopsOnAbort (executions faultyEnv clampPlan ()) := by
  refine ⟨rfl, fun h => ?_⟩
  exact (List.pairwise_cons.mp h).1 _ List.mem_cons_self ⟨rfl, rfl⟩

end AteStudio.Dispatcher
