import AteStudio.Executor.Loops

/-!
# What a passed loop has executed

In parallel mode a passed verdict says nothing about the loops in the body. Such a loop may be left out when it never
iterates, or when there is no step in it to execute.
-/

namespace AteStudio.Executor

open List State

open Json (Obj)
open Trace

variable {σ : Type} {p : Platform σ} {runId : Option String} {l : YamlLoop}

/-! ## What a loop prescribes -/

/-- `body i` are the events of the `i`-th iteration. A `WHILE` loop ends at its condition or its limit. -/
def Iterated (body : Nat → List Event → Prop) (l : YamlLoop) (events : List Event) : Prop :=
  ∃ parts : List (List Event), (∀ i part, parts[i]? = some part → body i part) ∧
    match l.loopType with
    | .forLoop => parts.length = forCount l ∧ events = parts.flatten
    | .foreachLoop => events = .resolved l.id (some parts.length) :: parts.flatten
    | .whileLoop => parts.length ≤ whileLimit l ∧
        events = (parts.map (.evaluated l.id true :: ·)).flatten ++
          if parts.length = whileLimit l then [] else [.evaluated l.id false]

/-- The loop has no iterations, whatever the variables are. -/
def Idle (p : Platform σ) (l : YamlLoop) : Prop :=
  match l.loopType with
  | .forLoop => forCount l = 0
  | .foreachLoop => ∀ vars values, resolveCollection p vars (l.collection.getD "") = some values → values = []
  | .whileLoop => whileLimit l = 0 ∨ ∀ vars, evaluateConditionExpr p vars (orDefault l.condition "False") = false

mutual
/-- Nothing is to be executed for the item. -/
def VoidItem (p : Platform σ) : Item → Prop
  | .step s _ => s.type = some .breakpoint
  | .loop l steps => Idle p l ∨ Void p steps
  | .raw _ => True

def Void (p : Platform σ) : List Item → Prop
  | [] => True
  | item :: rest => VoidItem p item ∧ Void p rest
end

mutual
def CompleteItem (p : Platform σ) (runId : Option String) (l : YamlLoop) (iteration : Nat) : Item → List Event → Prop
  | .step s _, events =>
    if s.type = some .breakpoint then events = []
    else ∃ status, events = [.executed (buildTask l iteration runId s) status] ∧ isFailure status = false
  | .loop nested steps, events =>
    VoidItem p (.loop nested steps) ∧ events = [] ∨ Iterated (fun i => Complete p runId nested i steps) nested events
  | .raw _, events => events = []

def Complete (p : Platform σ) (runId : Option String) (l : YamlLoop) (iteration : Nat) : List Item → List Event → Prop
  | [], events => events = []
  | item :: rest, events =>
    ∃ first more, events = first ++ more ∧ CompleteItem p runId l iteration item first ∧
      Complete p runId l iteration rest more
end

/-! ## Loops in a batch -/

def isBatched (l : YamlLoop) : Bool := isParallel l && l.loopType ≠ .whileLoop

def isLoop : Item → Bool
  | .loop .. => true
  | _ => false

/-- A batch leaves nothing out. -/
def Flat (p : Platform σ) (steps : List Item) : Prop := ∀ item ∈ steps, isLoop item = true → VoidItem p item

mutual
def WholeItem (p : Platform σ) : Item → Prop
  | .loop l steps => Idle p l ∨ if isBatched l then Flat p steps else Whole p steps
  | _ => True

def Whole (p : Platform σ) : List Item → Prop
  | [] => True
  | item :: rest => WholeItem p item ∧ Whole p rest
end

/-! ## The effects -/

abbrev Quiet {α : Type} (x : LoopM σ α) : Prop := Emits State.events x fun _ t => t = []

theorem quiet_get : Quiet (get : LoopM σ (State σ)) where
  ok s a s' h := by
    cases h
    exact ⟨[], (append_nil _).symm, rfl⟩
  error s e s' h := nomatch h

theorem emits_emit (events : List Event) : Emits State.events (emit events : LoopM σ Unit) fun _ t => t = events where
  ok s a s' h := by
    cases h
    exact ⟨events, rfl, rfl⟩
  error s e s' h := nomatch h

theorem quiet_onWorld {α : Type} (f : σ → Except String α × σ) : Quiet (onWorld f) where
  ok s a s' h := by
    unfold onWorld at h
    split at h <;> cases h
    exact ⟨[], (append_nil _).symm, rfl⟩
  error s e s' h := by
    unfold onWorld at h
    split at h <;> cases h
    exact ⟨[], (append_nil _).symm⟩

theorem quiet_setVariable (name : String) (value : Obj) : Quiet (setVariable name value : LoopM σ Unit) where
  ok s a s' h := by
    unfold setVariable at h
    split at h <;> cases h
    exact ⟨[], (append_nil _).symm, rfl⟩
  error s e s' h := by
    unfold setVariable at h
    split at h <;> cases h
    exact ⟨[], (append_nil _).symm⟩

theorem Quiet.bind {α β : Type} {x : LoopM σ α} {f : α → LoopM σ β} {Q : β → List Event → Prop} (hx : Quiet x)
    (hf : ∀ a, Emits events (f a) Q) : Emits events (x >>= f) Q :=
  Emits.bind hx fun a t ht => by
    subst ht
    exact hf a

open Quiet

theorem quiet_setOutputs (loopId : String) (iteration : Nat) (outputs : List (String × Obj)) :
    Quiet (setOutputs loopId iteration outputs : LoopM σ Unit) := by
  induction outputs with
  | nil => exact Emits.pure rfl
  | cons e rest ih => exact bind (quiet_setVariable _ _) fun _ => ih

theorem quiet_setIterationVariables (iterationVar : String) (i : Nat) (values : List Obj) :
    Quiet (setIterationVariables l iterationVar i values : LoopM σ Unit) := by
  induction values generalizing i with
  | nil => exact Emits.pure rfl
  | cons value values ih => exact bind (quiet_setVariable _ _) fun _ => ih (i + 1)

theorem quiet_handleBreakpoint (s : YamlStep) : Quiet (handleBreakpoint p s) := by
  have hskip (skips : Bool) {hook : LoopM σ Unit} (h : Quiet hook) : Quiet (if skips then pure () else hook) := by
    cases skips with
    | false => exact h
    | true => exact Emits.pure rfl
  refine bind quiet_get fun st => hskip _ ?_
  split
  · exact quiet_onWorld _
  · exact Emits.pure rfl

theorem emits_executeAsync (task : ExecuteTask) :
    Emits events (executeAsync p task) fun result t => t = [.executed task result.status] := by
  unfold executeAsync
  refine bind (quiet_onWorld _) fun result => Emits.bind (emits_emit _) fun _ t ht => Emits.pure ?_
  rw [ht, append_nil]

theorem emits_executeBatch (tasks : List ExecuteTask) (maxConcurrency : Option Int) :
    Emits events (executeBatch p tasks maxConcurrency) fun results t => results.length = tasks.length ∧
      t = (tasks.zip results).map fun e => .executed e.1 e.2.status := by
  have hlength : Emits events (onWorld (p.executor.executeBatch · tasks maxConcurrency)) fun results t =>
      t = [] ∧ results.length = tasks.length := by
    refine ⟨fun s results s' h => ?_, (quiet_onWorld _).error⟩
    obtain ⟨t, ht, rfl⟩ := (quiet_onWorld _).ok s results s' h
    refine ⟨[], ht, rfl, ?_⟩
    unfold onWorld at h
    split at h <;> cases h
    next hbatch => exact p.executor.length_batch _ _ _ _ _ hbatch
  unfold executeBatch
  refine Emits.bind hlength ?_
  rintro results t ⟨rfl, hresults⟩
  refine Emits.bind (emits_emit _) fun _ t ht => Emits.pure ?_
  rw [ht, append_nil]
  exact ⟨hresults, rfl⟩

/-! ## The verdicts -/

theorem isFailure_buildLoopResult (results : List LoopIterationResult)
    (h : isFailure (buildLoopResult l results).status = false) : ∀ r ∈ results, r.status = .passed := by
  unfold buildLoopResult at h
  dsimp only at h
  split at h
  · next hall => simpa using hall
  · cases h

theorem judge_passed (results : List StepResult) (outputs : Dict String Obj)
    (h : (judge results outputs).1 = .passed) : ∀ r ∈ results, isFailure r.status = false := by
  induction results generalizing outputs with
  | nil => exact fun r hr => absurd hr not_mem_nil
  | cons r rest ih =>
    unfold judge at h
    split at h
    · next hfailure => rw [show r.status = .passed from h] at hfailure; cases hfailure
    · next hfailure => exact forall_mem_cons.mpr ⟨Bool.eq_false_iff.mpr hfailure, ih _ h⟩

/-! ## Serial iterations -/

def From (body : Nat → List Event → Prop) (i : Nat) (parts : List (List Event)) : Prop :=
  ∀ j part, parts[j]? = some part → body (i + j) part

theorem From.nil (body : Nat → List Event → Prop) (i : Nat) : From body i [] := by
  intro j part h
  cases h

variable {body : Nat → List Event → Prop}

theorem From.cons {i : Nat} {part : List Event} {parts : List (List Event)}
    (h : body i part) (hparts : From body (i + 1) parts) : From body i (part :: parts) := by
  intro j part' hpart'
  cases j with
  | zero =>
    cases hpart'
    exact h
  | succ j =>
    have := hparts j part' hpart'
    rwa [Nat.add_right_comm] at this

def Rounds (spec : Nat → List Event → Prop) (i n : Nat) (t : List Event) : Prop :=
  ∃ parts, parts.length = n ∧ From spec i parts ∧ t = parts.flatten

theorem iterated_of_from {parts : List (List Event)} (h : From body 0 parts) :
    ∀ i part, parts[i]? = some part → body i part := by
  intro i part hpart
  have := h i part hpart
  rwa [Nat.zero_add] at this

section Serial

variable {body : Nat → LoopM σ Verdict} {spec : Nat → List Event → Prop}
  (hbody : ∀ i, Emits State.events (body i) fun v t => v.1 = .passed → spec i t)

include hbody

theorem emits_executeSingleIteration (i : Nat) :
    Emits events (executeSingleIteration body i) fun r t => r.status = .passed → spec i t := by
  refine Emits.bind (hbody i) fun v t hv => Emits.pure fun hpassed => ?_
  rw [append_nil]
  exact hv hpassed

/-- One iteration, and the rest when it has not failed. -/
theorem emits_iteration (i : Nat) {rest : LoopM σ (List LoopIterationResult)} {Q : List Event → Prop}
    (hrest : Emits events rest fun rs t => (∀ r ∈ rs, r.status = .passed) → Q t) :
    Emits events (executeSingleIteration body i >>= fun r =>
        if isFailure r.status then pure [r] else rest >>= fun rs => pure (r :: rs)) fun rs t =>
      (∀ r ∈ rs, r.status = .passed) → ∃ part t', spec i part ∧ Q t' ∧ t = part ++ t' := by
  refine Emits.bind (emits_executeSingleIteration hbody i) fun r t hr => ?_
  split
  · next hfailure =>
    refine Emits.pure fun hall => ?_
    rw [hall r mem_cons_self] at hfailure
    cases hfailure
  · refine Emits.bind hrest fun rs t' hrs => Emits.pure fun hall => ?_
    obtain ⟨hpassed, hall⟩ := forall_mem_cons.mp hall
    exact ⟨t, t', hr hpassed, hrs hall, by rw [append_nil]⟩

theorem emits_serialResults (iterationVar : String) (i : Nat) (values : List Obj) :
    Emits events (serialResults body l iterationVar i values) fun rs t =>
      (∀ r ∈ rs, r.status = .passed) → Rounds spec i values.length t := by
  induction values generalizing i with
  | nil => exact Emits.pure fun _ => ⟨[], rfl, From.nil _ _, rfl⟩
  | cons value values ih =>
    refine bind (quiet_setVariable _ _) fun _ => (emits_iteration hbody i (ih (i + 1))).mono fun rs t h hall => ?_
    obtain ⟨part, _, hpart, ⟨parts, hlength, hfrom, rfl⟩, rfl⟩ := h hall
    exact ⟨part :: parts, by rw [length_cons, length_cons, hlength], hfrom.cons hpart, flatten_cons.symm⟩

theorem emits_whileResults (left i : Nat) :
    Emits events (whileResults p body l left i) fun rs t => (∀ r ∈ rs, r.status = .passed) →
      ∃ parts, parts.length ≤ left ∧ From spec i parts ∧ t = (parts.map (.evaluated l.id true :: ·)).flatten ++
        if parts.length = left then [] else [.evaluated l.id false] := by
  induction left generalizing i with
  | zero => exact Emits.pure fun _ => ⟨[], le_rfl, From.nil _ _, rfl⟩
  | succ left ih =>
    refine bind quiet_get fun st => Emits.bind (emits_emit _) fun _ t ht => ?_
    subst ht
    cases evaluateConditionExpr p st.vars (orDefault l.condition "False") with
    | false => exact Emits.pure fun _ => ⟨[], Nat.zero_le _, From.nil _ _, rfl⟩
    | true =>
      refine (emits_iteration hbody i (ih (i + 1))).mono fun rs t h hall => ?_
      obtain ⟨part, _, hpart, ⟨parts, hlength, hfrom, rfl⟩, rfl⟩ := h hall
      refine ⟨part :: parts, Nat.succ_le_succ hlength, hfrom.cons hpart, ?_⟩
      simp

end Serial

/-! ## A batch -/

theorem complete_tasks (i : Nat) (steps : List Item) (results : List StepResult)
    (hlength : (buildIterationTasks l i runId steps).length = results.length)
    (hpassed : ∀ r ∈ results, isFailure r.status = false) (hflat : Flat p steps) :
    Complete p runId l i steps
      (((buildIterationTasks l i runId steps).zip results).map fun e => .executed e.1 e.2.status) := by
  induction steps generalizing results with
  | nil => simp [Complete, buildIterationTasks]
  | cons item rest ih =>
    obtain ⟨hitem, hothers⟩ := forall_mem_cons.mp hflat
    rw [Complete]
    cases item with
    | step s steps =>
      unfold buildIterationTasks at hlength ⊢
      by_cases hbreak : s.type = some .breakpoint
      · rw [if_pos hbreak] at hlength ⊢
        refine ⟨[], _, rfl, ?_, ih results hlength hpassed hothers⟩
        rw [CompleteItem, if_pos hbreak]
      · rw [if_neg hbreak] at hlength ⊢
        obtain ⟨r, results, rfl⟩ := exists_cons_of_length_eq_add_one hlength.symm
        obtain ⟨hr, hrest⟩ := forall_mem_cons.mp hpassed
        refine ⟨[_], _, rfl, ?_, ih results (Nat.succ.inj hlength) hrest hothers⟩
        rw [CompleteItem, if_neg hbreak]
        exact ⟨r.status, rfl, hr⟩
    | loop nested steps => exact ⟨[], _, rfl, .inl ⟨hitem rfl, rfl⟩, ih results hlength hpassed hothers⟩
    | raw entry => exact ⟨[], _, rfl, rfl, ih results hlength hpassed hothers⟩

theorem emits_batchResults (owned : List (Nat × StepResult)) (iterations : List Nat) :
    Emits events (batchResults l owned iterations : LoopM σ _) fun rs t => t = [] ∧
      ((∀ r ∈ rs, r.status = .passed) → ∀ i ∈ iterations, ∀ r, (i, r) ∈ owned → isFailure r.status = false) := by
  induction iterations with
  | nil => exact Emits.pure ⟨rfl, fun _ i hi => absurd hi not_mem_nil⟩
  | cons i rest ih =>
    refine bind (quiet_setOutputs _ _ _) fun _ => Emits.bind ih ?_
    rintro rs t ⟨rfl, hrs⟩
    refine Emits.pure ⟨rfl, fun hall => ?_⟩
    obtain ⟨hpassed, hall⟩ := forall_mem_cons.mp hall
    refine forall_mem_cons.mpr ⟨fun r hr => ?_, hrs hall⟩
    exact judge_passed _ _ hpassed r (mem_map.mpr ⟨(i, r), mem_filter.mpr ⟨hr, decide_eq_true rfl⟩, rfl⟩)

theorem exists_owner (f : Nat → List ExecuteTask) (iterations : List Nat) {results : List StepResult}
    (h : results.length = (iterations.flatMap f).length) {r : StepResult} (hr : r ∈ results) :
    ∃ i ∈ iterations, (i, r) ∈ (iterations.flatMap fun i => (f i).map fun _ => i).zip results := by
  have hsnd : ((iterations.flatMap fun i => (f i).map fun _ => i).zip results).map Prod.snd = results :=
    map_snd_zip (by simp [h, length_flatMap])
  rw [← hsnd] at hr
  obtain ⟨⟨i, r⟩, hmem, rfl⟩ := mem_map.mp hr
  obtain ⟨j, hj, hi⟩ := mem_flatMap.mp (of_mem_zip hmem).1
  obtain ⟨_, _, rfl⟩ := mem_map.mp hi
  exact ⟨_, hj, hmem⟩

theorem complete_iterations (steps : List Item) (iterations : List Nat) (results : List StepResult)
    (hlength : results.length = (iterations.flatMap fun i => buildIterationTasks l i runId steps).length)
    (hpassed : ∀ r ∈ results, isFailure r.status = false) (hflat : Flat p steps) :
    ∃ parts, Forall₂ (fun i => Complete p runId l i steps) iterations parts ∧
      ((iterations.flatMap fun i => buildIterationTasks l i runId steps).zip results).map
        (fun e => Event.executed e.1 e.2.status) = parts.flatten := by
  induction iterations generalizing results with
  | nil => exact ⟨[], .nil, rfl⟩
  | cons i rest ih =>
    rw [flatMap_cons, length_append] at hlength
    -- The first results are those of this iteration.
    have hfirst : (buildIterationTasks l i runId steps).length =
        (results.take (buildIterationTasks l i runId steps).length).length := by
      rw [length_take]
      omega
    obtain ⟨parts, hparts, hevents⟩ := ih (results.drop (buildIterationTasks l i runId steps).length)
      (by rw [length_drop]; omega) fun r hr => hpassed r (mem_of_mem_drop hr)
    have htasks := complete_tasks i steps _ hfirst (fun r hr => hpassed r (mem_of_mem_take hr)) hflat
    refine ⟨_ :: parts, .cons htasks hparts, ?_⟩
    rw [flatMap_cons, flatten_cons, ← hevents, ← map_append, ← zip_append hfirst, take_append_drop]

theorem complete_batch (steps : List Item) (n : Nat) (results : List StepResult)
    (hlength : results.length = ((List.range n).flatMap fun i => buildIterationTasks l i runId steps).length)
    (hpassed : ∀ r ∈ results, isFailure r.status = false) (hflat : Flat p steps) :
    Rounds (fun i => Complete p runId l i steps) 0 n
      ((((List.range n).flatMap fun i => buildIterationTasks l i runId steps).zip results).map fun e =>
        Event.executed e.1 e.2.status) := by
  obtain ⟨parts, hparts, hevents⟩ := complete_iterations steps (List.range n) results hlength hpassed hflat
  have hn : parts.length = n := by rw [← hparts.length_eq, length_range]
  refine ⟨parts, hn, fun j part hpart => ?_, hevents⟩
  have hj : (List.range n)[j]? = some j := getElem?_range (hn ▸ (List.getElem?_eq_some_iff.mp hpart).1)
  rw [Nat.zero_add]
  exact (forall₂_iff_zip.mp hparts).2 (mem_iff_getElem?.mpr ⟨j, getElem?_zip_eq_some.mpr ⟨hj, hpart⟩⟩)

theorem emits_executeIterationsParallel (steps : List Item) (iterationVar : String) (values : List Obj) :
    Emits events (executeIterationsParallel p runId l steps iterationVar values) fun result t =>
      isFailure result.status = false → Flat p steps →
        Rounds (fun i => Complete p runId l i steps) 0 values.length t := by
  unfold executeIterationsParallel
  refine bind (quiet_setIterationVariables _ _ _) fun _ => ?_
  dsimp only
  rw [← flatMap_def]
  split
  · next hempty =>
    have hnil := isEmpty_iff.mp hempty
    refine Emits.pure fun _ hflat => ?_
    obtain ⟨parts, hlength, hfrom, hevents⟩ := complete_batch steps values.length [] (congrArg length hnil.symm)
      (forall_mem_nil _) hflat
    exact ⟨parts, hlength, hfrom, by rw [← hevents, hnil]; rfl⟩
  · refine Emits.bind (emits_executeBatch _ _) ?_
    rintro results t ⟨hlength, rfl⟩
    refine Emits.bind (emits_batchResults _ _) ?_
    rintro rs t ⟨rfl, hrs⟩
    refine Emits.pure fun hpassed hflat => ?_
    rw [append_nil, append_nil]
    refine complete_batch steps values.length results hlength (fun r hr => ?_) hflat
    obtain ⟨i, hi, hmem⟩ := exists_owner (fun i => buildIterationTasks l i runId steps) _ hlength hr
    exact hrs (isFailure_buildLoopResult _ hpassed) i hi r hmem

/-! ## Whole loops -/

/-- A result that is no failure stands for whole iterations, if `H` holds. -/
abbrev Faithful (H : Prop) (spec : Nat → List Event → Prop) (l : YamlLoop) (result : LoopResult) (t : List Event) :
    Prop :=
  isFailure result.status = false → H → Iterated spec l t

section Loop

variable {steps : List Item} {body : Nat → LoopM σ Verdict} {spec : Nat → List Event → Prop} {H : Prop}

theorem emits_executeForLoop (htype : l.loopType = .forLoop)
    (h : ∀ values iterationVar, values.length = forCount l → Emits State.events
      (executeIterations p runId l steps body iterationVar values) fun result t =>
        isFailure result.status = false → H → Rounds spec 0 values.length t) :
    Emits events (executeForLoop p runId l steps body) (Faithful H spec l) := by
  refine (h _ _ (by rw [length_map, length_range])).mono fun result t ht hresult hH => ?_
  obtain ⟨parts, hlength, hfrom, rfl⟩ := ht hresult hH
  refine ⟨parts, iterated_of_from hfrom, ?_⟩
  rw [htype]
  exact ⟨by rw [hlength, length_map, length_range], rfl⟩

theorem emits_executeForeachLoop (htype : l.loopType = .foreachLoop)
    (h : ∀ vars values iterationVar, resolveCollection p vars (l.collection.getD "") = some values → Emits State.events
      (executeIterations p runId l steps body iterationVar values) fun result t =>
        isFailure result.status = false → H → Rounds spec 0 values.length t) :
    Emits events (executeForeachLoop p runId l steps body) (Faithful H spec l) := by
  refine bind quiet_get fun st => Emits.bind (emits_emit _) fun _ t ht => ?_
  subst ht
  cases hvalues : resolveCollection p st.vars (l.collection.getD "") with
  | none => exact Emits.pure fun h => nomatch h
  | some values =>
    refine (h st.vars values _ hvalues).mono fun result t ht hresult hH => ?_
    obtain ⟨parts, hlength, hfrom, rfl⟩ := ht hresult hH
    refine ⟨parts, iterated_of_from hfrom, ?_⟩
    rw [htype, hlength]
    rfl

theorem emits_executeLoopWith (h : Emits State.events
    (match l.loopType with
      | .forLoop => executeForLoop p runId l steps body
      | .whileLoop => executeWhileLoop p body l
      | .foreachLoop => executeForeachLoop p runId l steps body) (Faithful H spec l)) :
    Emits events (executeLoopWith p runId l steps body) (Faithful H spec l) :=
  Emits.bind (h.tryCatch fun e t => Emits.pure fun h => nomatch h)
    fun result t hresult => bind (quiet_setVariable _ _) fun _ => Emits.pure (by rwa [append_nil])

theorem emits_idle (h : Idle p l) : Emits events (executeLoopWith p runId l steps body) (Faithful H spec l) := by
  have hnone (iterationVar : String) :
      Emits events (executeIterations p runId l steps body iterationVar []) fun _ t => Rounds spec 0 0 t := by
    unfold executeIterations
    split
    · exact bind (Emits.pure rfl) fun _ => Emits.pure ⟨[], rfl, From.nil _ _, rfl⟩
    · exact bind (Emits.pure rfl) fun _ => Emits.pure ⟨[], rfl, From.nil _ _, rfl⟩
  refine emits_executeLoopWith ?_
  unfold Idle at h
  cases htype : l.loopType with
  | forLoop =>
    rw [htype] at h
    refine emits_executeForLoop htype fun values iterationVar hvalues => ?_
    rw [length_eq_zero_iff.mp (hvalues.trans h)]
    exact (hnone _).mono fun result t ht _ _ => ht
  | foreachLoop =>
    rw [htype] at h
    refine emits_executeForeachLoop htype fun vars values iterationVar hvalues => ?_
    rw [h vars values hvalues]
    exact (hnone _).mono fun result t ht _ _ => ht
  | whileLoop =>
    rw [htype] at h
    have hresults : Emits events (whileResults p body l (whileLimit l) 0) fun _ t =>
        t = if 0 = whileLimit l then [] else [.evaluated l.id false] := by
      cases hlimit : whileLimit l with
      | zero => exact Emits.pure rfl
      | succ left =>
        refine bind quiet_get fun st => Emits.bind (emits_emit _) fun _ t ht => ?_
        have hfalse := h.resolve_left (by rw [hlimit]; exact Nat.succ_ne_zero _) st.vars
        rw [hfalse] at ht ⊢
        subst ht
        exact Emits.pure rfl
    refine Emits.bind hresults fun rs t ht => Emits.pure fun _ _ => ⟨[], iterated_of_from (From.nil _ _), ?_⟩
    rw [htype, append_nil]
    exact ⟨Nat.zero_le _, ht⟩

variable (hbody : ∀ i, Emits State.events (body i) fun v t =>
  v.1 = .passed → Whole p steps → Complete p runId l i steps t)

include hbody

theorem emits_iterations (hwhile : l.loopType ≠ .whileLoop) (iterationVar : String) (values : List Obj) :
    Emits events (executeIterations p runId l steps body iterationVar values) fun result t =>
      isFailure result.status = false → (if isBatched l then Flat p steps else Whole p steps) →
        Rounds (fun i => Complete p runId l i steps) 0 values.length t := by
  unfold executeIterations isBatched
  cases hparallel : isParallel l with
  | true =>
    rw [if_pos rfl, if_pos (by simpa using hwhile)]
    exact emits_executeIterationsParallel _ _ _
  | false =>
    rw [if_neg Bool.false_ne_true, if_neg (by simp)]
    refine Emits.bind (emits_serialResults hbody iterationVar 0 values) fun rs t hrs =>
      Emits.pure fun hpassed hwhole => ?_
    obtain ⟨parts, hlength, hfrom, rfl⟩ := hrs (isFailure_buildLoopResult _ hpassed)
    exact ⟨parts, hlength, fun j part hpart => hfrom j part hpart hwhole, append_nil _⟩

theorem emits_executeWhileLoop (htype : l.loopType = .whileLoop) : Emits events (executeWhileLoop p body l)
    (Faithful (if isBatched l then Flat p steps else Whole p steps) (fun i => Complete p runId l i steps) l) := by
  refine Emits.bind (emits_whileResults hbody _ _) fun rs t hrs => Emits.pure fun hpassed hwhole => ?_
  rw [if_neg (by simp [isBatched, htype])] at hwhole
  obtain ⟨parts, hlength, hfrom, rfl⟩ := hrs (isFailure_buildLoopResult _ hpassed)
  refine ⟨parts, fun i part hpart => iterated_of_from hfrom i part hpart hwhole, ?_⟩
  rw [htype, append_nil]
  exact ⟨hlength, rfl⟩

theorem emits_whole : Emits events (executeLoopWith p runId l steps body)
    (Faithful (WholeItem p (.loop l steps)) (fun i => Complete p runId l i steps) l) := by
  by_cases hidle : Idle p l
  · exact emits_idle hidle
  rw [show WholeItem p (.loop l steps) ↔ if isBatched l then Flat p steps else Whole p steps from or_iff_right hidle]
  refine emits_executeLoopWith ?_
  cases htype : l.loopType with
  | forLoop => exact emits_executeForLoop htype fun values _ _ => emits_iterations hbody (by rw [htype]; decide) _ _
  | whileLoop => exact emits_executeWhileLoop hbody htype
  | foreachLoop =>
    exact emits_executeForeachLoop htype fun _ values _ _ => emits_iterations hbody (by rw [htype]; decide) _ _

end Loop

mutual
theorem emits_executeItem (l : YamlLoop) (i : Nat) : ∀ (item : Item) (outputs : Dict String Obj),
    Emits State.events (executeItem p runId l i item outputs) fun v t =>
      isFailure v.1 = false → WholeItem p item → CompleteItem p runId l i item t
  | .step s steps, outputs => by
    unfold executeItem
    split
    · next hbreak =>
      refine Quiet.bind (quiet_handleBreakpoint s) fun _ => Emits.pure fun _ _ => ?_
      rw [CompleteItem, if_pos hbreak]
    · next hbreak =>
      refine Emits.bind (emits_executeAsync _) fun result t ht => Quiet.bind (quiet_setOutputs _ _ _) fun _ => ?_
      subst ht
      split
      · next hfailure => exact Emits.pure fun h => absurd hfailure (Bool.eq_false_iff.mp h)
      · next hfailure =>
        refine Emits.pure fun _ _ => ?_
        rw [CompleteItem, if_neg hbreak]
        exact ⟨result.status, rfl, Bool.eq_false_iff.mpr hfailure⟩
  | .loop nested steps, outputs => by
    unfold executeItem
    refine Emits.bind (emits_whole fun i => emits_executeSteps nested i steps ∅) fun result t hresult => ?_
    split
    · next hfailure => exact Emits.pure fun h => absurd hfailure (Bool.eq_false_iff.mp h)
    · next hfailure =>
      refine Emits.pure fun _ hwhole => ?_
      rw [append_nil]
      exact .inr (hresult (Bool.eq_false_iff.mpr hfailure) hwhole)
  | .raw entry, outputs => Emits.pure fun _ _ => rfl

theorem emits_executeSteps (l : YamlLoop) (i : Nat) : ∀ (steps : List Item) (outputs : Dict String Obj),
    Emits events (executeSteps p runId l i steps outputs) fun v t =>
      v.1 = .passed → Whole p steps → Complete p runId l i steps t
  | [], outputs => Emits.pure fun _ _ => rfl
  | item :: rest, outputs => by
    unfold executeSteps
    refine Emits.bind (emits_executeItem l i item outputs) fun v t hv => ?_
    split
    next status error outputs =>
    split
    · next hfailure =>
      refine Emits.pure fun h => ?_
      rw [show status = .passed from h] at hfailure
      cases hfailure
    · next hfailure =>
      exact (emits_executeSteps l i rest outputs).mono fun v' t' hv' h hwhole =>
        ⟨t, t', rfl, hv (Bool.eq_false_iff.mpr hfailure) hwhole.1, hv' h hwhole.2⟩
end

def steady : Platform Unit where
  executor.executeAsync w _ := (.ok { status := .passed }, w)
  executor.executeBatch w tasks _ := (.ok (tasks.map fun _ => { status := .passed }), w)
  executor.length_batch := by
    intro w tasks maxConcurrency results w' h
    cases h
    exact length_map _
  breakpointHook := none
  str _ := ""
  evalBool _ := none
  eval _ := none

def measure : Item := .leaf { id := "measure", script := "measure.py" }

def twice (id : String) (mode : ExecutionMode) : YamlLoop :=
  { id, loopType := .forLoop, count := some 2, executionMode := mode }

def fresh : State Unit := ⟨(), {}, []⟩

def passedWith (events : List Event → Bool) : EStateM.Result String (State σ) LoopResult → Bool
  | .ok result st => result.status = .passed && events st.events
  | .error _ _ => false

theorem exists_of_passedWith (events : List Event → Bool) (r : EStateM.Result String (State σ) LoopResult)
    (h : passedWith events r = true) :
    ∃ result st', r = .ok result st' ∧ result.status = .passed ∧ events st'.events = true := by
  cases r with
  | error e st' => cases h
  | ok result st' =>
    obtain ⟨hpassed, hevents⟩ := Bool.and_eq_true_iff.mp h
    exact ⟨result, st', rfl, of_decide_eq_true hpassed, hevents⟩

theorem Iterated.ne_nil {spec : Nat → List Event → Prop} {events : List Event} (htype : l.loopType = .forLoop)
    (hcount : 0 < forCount l) (hspec : ∀ i part, spec i part → part ≠ []) (h : Iterated spec l events) :
    events ≠ [] := by
  obtain ⟨parts, hparts, hevents⟩ := h
  rw [htype] at hevents
  obtain ⟨hlength, rfl⟩ := hevents
  obtain ⟨part, parts, rfl⟩ := exists_cons_of_length_pos (hlength ▸ hcount)
  intro hnil
  exact hspec 0 part (hparts 0 part rfl) (append_eq_nil_iff.mp hnil).1

end AteStudio.Executor
