import AteStudio.Lib.Setpoint
import AteStudio.Lib.Splits
import AteStudio.Planner.Ids

/-!
# The operating point of a measurement

A setup is skipped when the segment has applied it once, whatever was set since.
-/

namespace AteStudio.Planner

open List

open Setpoint (Command issued noted note last)
open AteStudio.Splits (AtEach)

/-! ## The property -/

/-- Same value and bindings up to the order of keys, and the same rail. -/
def Carries (st : PlanStep) (cl : ClauseModel) (scen : ScenarioModel) : Prop :=
  sortKeys (valueText st.params.value) = sortKeys (valueText cl.value) ∧
    sortKeys (bindingsText st.params.scenarioBindings) = sortKeys (bindingsText scen.bindings) ∧
    st.params.rail = scen.rail

def lastSetup? (steps : List PlanStep) (action : String) : Option PlanStep :=
  (steps.filter fun st => st.side = .input ∧ st.action = action).getLast?

/-- The last setup step of their action has set the conditions of every measurement. -/
def AtOperatingPoint (binds : Bindings) (includeDraft : Bool) (steps : List PlanStep) : Prop :=
  ∀ before m after, steps = before ++ m :: after → m.side = .output →
    ∀ item ∈ boundItems binds includeDraft .input m.model.inputConditions,
      ∃ st, lastSetup? before item.1.action = some st ∧ Carries st item.2 m.scen

/-! ## Setups as commands -/

section Commands

variable (py : Python) (binds : Bindings) (includeDraft : Bool)

def pointText (value : Option (Dict String Json.Text)) (bindings : Dict String String) (rail : String) : String :=
  dumpsSorted py (valueText value) ++ "|" ++ dumpsSorted py (bindingsText bindings) ++ "|" ++ rail

def setting (scen : ScenarioModel) (item : Binding × ClauseModel) : Command String String Bool :=
  ⟨item.1.action, pointText py item.2.value scen.bindings scen.rail, item.1.batchLevel, item.1.destructive⟩

def wanted (item : RequirementModel × ScenarioModel) : List (Command String String Bool) :=
  (setupItems binds includeDraft item.1).map (setting py item.2)

def PlanStep.setting (st : PlanStep) : Command String String Bool :=
  ⟨st.action, pointText py st.params.value st.params.scenarioBindings st.params.rail, st.batchLevel, st.destructive⟩

def setups (steps : List PlanStep) : List (Command String String Bool) :=
  (steps.filter fun st => st.side = .input).map (·.setting py)

theorem pointText_inj {value value' : Option (Dict String Json.Text)} {bindings bindings' : Dict String String}
    {rail rail' : String} :
    pointText py value bindings rail = pointText py value' bindings' rail' ↔
      sortKeys (valueText value) = sortKeys (valueText value') ∧
        sortKeys (bindingsText bindings) = sortKeys (bindingsText bindings') ∧ rail = rail' := by
  constructor
  · intro h
    have hlist := congrArg String.toList h
    simp only [pointText, dumpsSorted, String.toList_append, String.toList_ofList, append_assoc] at hlist
    obtain ⟨hvalue, hrest⟩ := py.dumps_cut _ _ _ _ hlist
    obtain ⟨hbindings, hrail⟩ := py.dumps_cut _ _ _ _ hrest
    exact ⟨hvalue, hbindings, String.toList_inj.mp hrail⟩
  · rintro ⟨hvalue, hbindings, rfl⟩
    simp only [pointText, dumpsSorted, hvalue, hbindings]

theorem setups_append (steps steps' : List PlanStep) :
    setups py (steps ++ steps') = setups py steps ++ setups py steps' := by
  simp [setups]

theorem lastSetup?_iff (steps : List PlanStep) (item : Binding × ClauseModel) (scen : ScenarioModel) :
    (∃ st, lastSetup? steps item.1.action = some st ∧ Carries st item.2 scen) ↔
      last (setups py steps) item.1.action = some (setting py scen item).data := by
  have hfilter : (setups py steps).filter (·.slot = item.1.action) =
      (steps.filter fun st => st.side = .input ∧ st.action = item.1.action).map (·.setting py) := by
    rw [setups, filter_map, filter_filter]
    congr 1
    refine filter_congr fun st _ => ?_
    simp [PlanStep.setting, and_comm]
  rw [last, hfilter, getLast?_map, Option.map_map, Option.map_eq_some_iff]
  refine exists_congr fun st => and_congr_right fun _ => ?_
  exact (pointText_inj py).symm

end Commands

/-! ## One scenario -/

section Scenario

variable (py : Python) (binds : Bindings) (includeDraft : Bool)

section

variable (base : String) (model : RequirementModel) (scen : ScenarioModel)

theorem addSetup_spec (st : Planning) (item : Binding × ClauseModel) :
    (addSetup py base model scen st item).applied = note st.applied (setting py scen item) ∧
      ∃ steps, (addSetup py base model scen st item).steps = st.steps ++ steps ∧ (∀ s ∈ steps, s.side = .input) ∧
        steps.map (·.setting py) =
          if (setting py scen item).always = true ∨ (setting py scen item).key ∉ st.applied then [setting py scen item]
          else [] := by
  have hkey : (setting py scen item).key = setupKey py scen item.1 item.2 := rfl
  have halways : (setting py scen item).always = item.1.batchLevel := rfl
  unfold addSetup
  simp only [note, hkey, halways]
  split
  · next h => exact ⟨by rw [if_pos (.inl h)]; rfl, [_], rfl, by simp [newStep], by rw [if_pos (.inl h)]; rfl⟩
  · next hbatch =>
    split
    · next h => exact ⟨by rw [if_pos (.inr h)], [], by simp, by simp, by simp [hbatch, h]⟩
    · next h =>
      refine ⟨by rw [if_neg (not_or.mpr ⟨hbatch, h⟩)]; rfl, [_], rfl, by simp [newStep], ?_⟩
      rw [if_pos (.inr h)]
      rfl

variable (items : List (Binding × ClauseModel))

theorem setup_spec (st : Planning) :
    (items.foldl (addSetup py base model scen) st).applied = noted st.applied (items.map (setting py scen)) ∧
      ∃ steps, (items.foldl (addSetup py base model scen) st).steps = st.steps ++ steps ∧ (∀ s ∈ steps, s.side = .input) ∧
        steps.map (·.setting py) = issued st.applied (items.map (setting py scen)) := by
  induction items generalizing st with
  | nil => exact ⟨rfl, [], by simp, by simp, rfl⟩
  | cons item items ih =>
    obtain ⟨hnote, first, hfirst, hside, hmap⟩ := addSetup_spec py base model scen st item
    obtain ⟨happlied, rest, hrest, hside', hmap'⟩ := ih (addSetup py base model scen st item)
    rw [hnote] at happlied hmap'
    refine ⟨happlied, first ++ rest, ?_, ?_, ?_⟩
    · rw [foldl_cons, hrest, hfirst, append_assoc]
    · exact fun s hs => (mem_append.mp hs).elim (hside s) (hside' s)
    · rw [map_append, hmap, hmap', map_cons, Setpoint.issued_cons]

theorem measurement_spec (st : Planning) :
    (items.foldl (addMeasurement py base model scen) st).applied = st.applied ∧
      ∃ steps, (items.foldl (addMeasurement py base model scen) st).steps = st.steps ++ steps ∧
        steps.map (fun s => (s.action, s.destructive)) = items.map (fun x => (x.1.action, x.1.destructive)) ∧
        ∀ s ∈ steps, s.side = .output ∧ s.model = model ∧ s.scen = scen := by
  induction items generalizing st with
  | nil => exact ⟨rfl, [], by simp, rfl, by simp⟩
  | cons item items ih =>
    obtain ⟨happlied, rest, hrest, hdeeds, hside⟩ := ih (addMeasurement py base model scen st item)
    obtain ⟨first, hfirst, hdeed, hspec⟩ : ∃ s, (addMeasurement py base model scen st item).steps = st.steps ++ [s] ∧
        (s.action, s.destructive) = (item.1.action, item.1.destructive) ∧
        s.side = .output ∧ s.model = model ∧ s.scen = scen := ⟨_, rfl, rfl, rfl, rfl, rfl⟩
    refine ⟨happlied, first :: rest, ?_, by rw [map_cons, map_cons, hdeed, hdeeds], forall_mem_cons.mpr ⟨hspec, hside⟩⟩
    rw [foldl_cons, hrest, hfirst, append_assoc, singleton_append]

end

theorem planScenario_spec (segIndex : Nat) (item : RequirementModel × ScenarioModel) (prevId : Option String)
    (applied : List (String × String)) :
    (planScenario py binds includeDraft segIndex item.1 item.2 prevId applied).applied =
        noted applied (wanted py binds includeDraft item) ∧
      ∃ steps measured,
        (planScenario py binds includeDraft segIndex item.1 item.2 prevId applied).steps = steps ++ measured ∧
        (∀ s ∈ steps, s.side = .input) ∧ steps.map (·.setting py) = issued applied (wanted py binds includeDraft item) ∧
        (∀ s ∈ measured, s.side = .output ∧ s.model = item.1 ∧ s.scen = item.2) ∧
        measured.map (fun s => (s.action, s.destructive)) =
          (measuredItems binds includeDraft item.1).map (fun x => (x.1.action, x.1.destructive)) := by
  obtain ⟨happlied, steps, hsteps, hside, hmap⟩ := setup_spec py (stepBase py item.1 item.2 segIndex) item.1 item.2
    (setupItems binds includeDraft item.1) { applied, prevId }
  obtain ⟨happlied', measured, hmeasured, hdeeds, hside'⟩ := measurement_spec py
    (stepBase py item.1 item.2 segIndex) item.1 item.2 (measuredItems binds includeDraft item.1)
    { (setupItems binds includeDraft item.1).foldl (addSetup py (stepBase py item.1 item.2 segIndex) item.1 item.2)
        { applied, prevId } with kindSeq := ∅ }
  refine ⟨happlied'.trans happlied, steps, measured, ?_, hside, hmap, hside', hdeeds⟩
  rw [planScenario, hmeasured]
  simp only [hsteps, nil_append]

end Scenario

/-! ## One segment -/

section Segment

variable (py : Python) (binds : Bindings) (includeDraft : Bool)

/-- A condition that `before` has applied already is still set when the scenario measures. -/
def StillSet (before : Bucket) (item : RequirementModel × ScenarioModel) : Prop :=
  measuredItems binds includeDraft item.1 ≠ [] → ∀ c ∈ wanted py binds includeDraft item, c.always = false →
    (∃ c' ∈ before.flatMap (wanted py binds includeDraft), c'.always = false ∧ c'.key = c.key) →
      last (issued [] (before.flatMap (wanted py binds includeDraft))) c.slot = some c.data

def DistinctActions (model : RequirementModel) : Prop :=
  (model.inputConditions.filterMap fun cl => (binds.get? (cl.kind, .input)).map (·.action)).Nodup

variable {py binds includeDraft} {item : RequirementModel × ScenarioModel}

theorem mem_wanted {c : Command String String Bool} : c ∈ wanted py binds includeDraft item ↔
      ∃ x ∈ boundItems binds includeDraft .input item.1.inputConditions, setting py item.2 x = c := by
  rw [wanted, mem_map]
  simp only [setupItems, mem_insertionSort]

theorem nodup_wanted (h : DistinctActions binds item.1) : ((wanted py binds includeDraft item).map (·.slot)).Nodup := by
  have hperm : ((wanted py binds includeDraft item).map (·.slot)).Perm
      ((boundItems binds includeDraft .input item.1.inputConditions).map (·.1.action)) := by
    rw [wanted, map_map]
    exact (perm_insertionSort _ _).map _
  have hsub : ((boundItems binds includeDraft .input item.1.inputConditions).map (·.1.action)).Sublist
      (item.1.inputConditions.filterMap fun cl => (binds.get? (cl.kind, .input)).map (·.action)) := by
    rw [boundItems, map_filterMap]
    simp only [Option.map_map]
    exact filter_sublist.filterMap _
  exact hperm.nodup_iff.mpr (hsub.nodup h)

structure SegmentState.Applies (py : Python) (binds : Bindings) (includeDraft : Bool) (done : Bucket)
    (st : SegmentState) :
    Prop where
  applied : st.applied = noted [] (done.flatMap (wanted py binds includeDraft))
  setups : setups py st.steps = issued [] (done.flatMap (wanted py binds includeDraft))
  point : AtOperatingPoint binds includeDraft st.steps ↔ AtEach (StillSet py binds includeDraft) done

theorem addScenario_steps (py : Python) (binds : Bindings) (includeDraft : Bool) (segIndex : Nat) (st : SegmentState)
    (item : RequirementModel × ScenarioModel) :
    (addScenario py binds includeDraft segIndex st item).steps =
        st.steps ++ (planScenario py binds includeDraft segIndex item.1 item.2 st.prevId st.applied).steps ∧
      (addScenario py binds includeDraft segIndex st item).applied =
        (planScenario py binds includeDraft segIndex item.1 item.2 st.prevId st.applied).applied := by
  unfold addScenario
  simp only
  split
  · next h => exact ⟨by rw [h, append_nil], rfl⟩
  · exact ⟨rfl, rfl⟩

variable {steps : List PlanStep}

theorem setups_of_input (h : ∀ s ∈ steps, s.side = .input) : setups py steps = steps.map (·.setting py) := by
  rw [setups, filter_eq_self.mpr fun s hs => by simp [h s hs]]

theorem setups_of_output (h : ∀ s ∈ steps, s.side = .output) : setups py steps = [] := by
  rw [setups, filter_eq_nil_iff.mpr fun s hs => by simp [h s hs]]
  rfl

theorem atOperatingPoint_append {done measured : List PlanStep} (hside : ∀ s ∈ steps, s.side = .input)
    (hmeasured : ∀ s ∈ measured, s.side = .output ∧ s.model = item.1 ∧ s.scen = item.2) :
    AtOperatingPoint binds includeDraft (done ++ (steps ++ measured)) ↔
      AtOperatingPoint binds includeDraft done ∧
        (measured ≠ [] → ∀ c ∈ wanted py binds includeDraft item,
          last (setups py done ++ steps.map (·.setting py)) c.slot = some c.data) := by
  have hsplit := Splits.atEach_append (P := fun before m => m.side = .output →
    ∀ item ∈ boundItems binds includeDraft .input m.model.inputConditions,
      ∃ st, lastSetup? before item.1.action = some st ∧ Carries st item.2 m.scen)
  refine (hsplit done (steps ++ measured)).trans (and_congr_right' ?_)
  refine (Splits.atEach_append steps measured).trans ?_
  have hsetups : ∀ x y, measured = x ++ y →
      setups py (done ++ (steps ++ x)) = setups py done ++ steps.map (·.setting py) := by
    intro x y hxy
    rw [setups_append, setups_append, setups_of_input hside,
      setups_of_output fun s hs => (hmeasured s (hxy ▸ mem_append_left y hs)).1, append_nil]
  constructor
  · rintro ⟨-, hat⟩ hne c hc
    obtain ⟨m, rest, hm⟩ := exists_cons_of_ne_nil hne
    obtain ⟨houtput, hmodel, hscen⟩ := hmeasured m (by simp [hm])
    obtain ⟨x, hx, rfl⟩ := mem_wanted.mp hc
    have hpoint := (lastSetup?_iff py _ x m.scen).mp (hat [] m rest hm houtput x (hmodel ▸ hx))
    rw [hsetups [] measured rfl, hscen] at hpoint
    exact hpoint
  · intro h
    refine ⟨fun x b y hxy houtput => ?_, fun x m y hxy _ item' hitem => ?_⟩
    · rw [hside b (by simp [hxy])] at houtput
      cases houtput
    · obtain ⟨-, hmodel, hscen⟩ := hmeasured m (by simp [hxy])
      rw [lastSetup?_iff py, hsetups x _ hxy, hscen]
      exact h (by simp [hxy]) _ (mem_wanted.mpr ⟨item', hmodel ▸ hitem, rfl⟩)

theorem applies_addScenario (segIndex : Nat) {done : Bucket} {st : SegmentState}
    (hdistinct : DistinctActions binds item.1) (h : st.Applies py binds includeDraft done) :
    (addScenario py binds includeDraft segIndex st item).Applies py binds includeDraft (done ++ [item]) := by
  obtain ⟨happlied, steps, measured, hsteps, hside, hmap, hmeasured, hdeeds⟩ :=
    planScenario_spec py binds includeDraft segIndex item st.prevId st.applied
  have hnil : measured = [] ↔ measuredItems binds includeDraft item.1 = [] := by
    rw [← map_eq_nil_iff, hdeeds, map_eq_nil_iff]
  obtain ⟨hadded, hadded'⟩ := addScenario_steps py binds includeDraft segIndex st item
  have hflat : (done ++ [item]).flatMap (wanted py binds includeDraft) =
      done.flatMap (wanted py binds includeDraft) ++ wanted py binds includeDraft item := by simp
  refine ⟨?_, ?_, ?_⟩
  · rw [hadded', happlied, hflat, h.applied, noted, noted, noted, foldl_append]
  · rw [hadded, hsteps, setups_append, setups_append, setups_of_input hside,
      setups_of_output fun s hs => (hmeasured s hs).1, hmap, append_nil, h.setups, h.applied, hflat,
      Setpoint.issued_append]
  · rw [hadded, hsteps, atOperatingPoint_append hside hmeasured, Splits.atEach_append, Splits.atEach_singleton, h.point,
      append_nil]
    refine and_congr_right' ?_
    rw [hmap, h.setups, h.applied, ← Setpoint.issued_append]
    refine imp_congr (not_congr hnil) (forall_congr' fun c => imp_congr_right fun hc => ?_)
    exact Setpoint.last_issued_append_iff _ (nodup_wanted hdistinct) hc

theorem atOperatingPoint_planBucket (segIndex : Nat) (items : Bucket) (h : ∀ item ∈ items, DistinctActions binds item.1) :
    AtOperatingPoint binds includeDraft (planBucket py binds includeDraft segIndex items).steps ↔
      AtEach (StillSet py binds includeDraft) items := by
  have key : ∀ (done rest : Bucket) (st : SegmentState), (∀ item ∈ rest, DistinctActions binds item.1) →
      st.Applies py binds includeDraft done →
        (rest.foldl (addScenario py binds includeDraft segIndex) st).Applies py binds includeDraft (done ++ rest) := by
    intro done rest
    induction rest generalizing done with
    | nil => exact fun st _ hst => by simpa using hst
    | cons item rest ih =>
      intro st hdistinct hst
      obtain ⟨hitem, hrest⟩ := forall_mem_cons.mp hdistinct
      simpa using ih (done ++ [item]) _ hrest (applies_addScenario segIndex hitem hst)
  have hstart : SegmentState.Applies py binds includeDraft [] {} :=
    ⟨rfl, rfl, iff_of_true Splits.atEach_nil Splits.atEach_nil⟩
  exact (key [] items {} h hstart).point

end Segment

/-! ## The plan -/

section Plan

variable {py : Python} {binds : Bindings} {includeDraft : Bool} {bundle : BundleModel}

theorem mem_requirements_of_bucket {e : String × Bucket} (he : e ∈ orderedBuckets py binds bundle)
    {item : RequirementModel × ScenarioModel} (hitem : item ∈ e.2) : item.1 ∈ bundle.requirements := by
  have key : ∀ sig items, (bucketsOf py binds bundle).get? sig = some items →
      ∀ item ∈ items, item ∈ scenariosOf bundle := by
    refine List.foldlRecOn (motive := fun buckets : Dict String Bucket =>
      ∀ sig items, buckets.get? sig = some items → ∀ item ∈ items, item ∈ scenariosOf bundle) _ _ ?_ ?_
    · intro sig items h
      simp at h
    · intro buckets ih item hitem sig items hget
      rw [Dict.get?_set] at hget
      split at hget
      · obtain rfl := Option.some.inj hget
        intro x hx
        rcases mem_append.mp hx with hx | hx
        · rw [Dict.getD] at hx
          cases hold : buckets.get? (setupSignature py binds item.1 item.2) with
          | none => simp [hold] at hx
          | some old => exact ih _ old hold x (by simpa [hold] using hx)
        · exact mem_singleton.mp hx ▸ hitem
      · exact ih sig items hget
  have hentry : e ∈ (bucketsOf py binds bundle).entries := mem_insertionSort _ |>.mp he
  have hmem := key e.1 e.2 ((Dict.get?_eq_some_iff _ _ _).mpr hentry) item hitem
  obtain ⟨model, hmodel, hscen⟩ := mem_flatMap.mp hmem
  obtain ⟨scen, -, rfl⟩ := mem_map.mp hscen
  exact hmodel

theorem atOperatingPoint_content (steps : List PlanStep) :
    AtOperatingPoint binds includeDraft (steps.map (·.content)) ↔ AtOperatingPoint binds includeDraft steps := by
  have hlast : ∀ (before : List PlanStep) (action : String),
      lastSetup? (before.map (·.content)) action = (lastSetup? before action).map (·.content) := by
    intro before action
    rw [lastSetup?, filter_map, getLast?_map]
    rfl
  refine (Splits.atEach_map PlanStep.content steps).trans (Splits.atEach_congr fun before m _ _ => ?_)
  refine imp_congr_right fun _ => forall_congr' fun item => imp_congr_right fun _ => ?_
  rw [hlast]
  simp only [Option.map_eq_some_iff]
  constructor
  · rintro ⟨_, ⟨st, hst, rfl⟩, hcarries⟩
    exact ⟨st, hst, hcarries⟩
  · rintro ⟨st, hst, hcarries⟩
    exact ⟨st.content, ⟨st, hst, rfl⟩, hcarries⟩

theorem atOperatingPoint_planned :
    (∀ seg ∈ (planFlow py binds includeDraft bundle).segments, AtOperatingPoint binds includeDraft seg.steps) ↔
      ∀ seg ∈ plannedSegments py binds includeDraft bundle, AtOperatingPoint binds includeDraft seg.steps := by
  have key : ∀ segments : List Segment, (∀ seg ∈ segments, AtOperatingPoint binds includeDraft seg.steps) ↔
      ∀ seg ∈ segments.map (·.content), AtOperatingPoint binds includeDraft seg.steps := by
    intro segments
    rw [forall_mem_map]
    exact forall_congr' fun seg => imp_congr_right fun _ => (atOperatingPoint_content seg.steps).symm
  rw [key, planFlow_content, ← key]

theorem atOperatingPoint_iff (py : Python) (binds : Bindings) (includeDraft : Bool) (bundle : BundleModel)
    (hdistinct : ∀ model ∈ bundle.requirements, DistinctActions binds model) :
    (∀ seg ∈ (planFlow py binds includeDraft bundle).segments, AtOperatingPoint binds includeDraft seg.steps) ↔
      ∀ e ∈ orderedBuckets py binds bundle, ∀ before item after, e.2 = before ++ item :: after →
        StillSet py binds includeDraft before item := by
  have hbucket : ∀ e ∈ orderedBuckets py binds bundle, ∀ segIndex,
      AtOperatingPoint binds includeDraft (planBucket py binds includeDraft segIndex e.2).steps ↔
        AtEach (StillSet py binds includeDraft) e.2 := fun e he segIndex =>
    atOperatingPoint_planBucket segIndex e.2 fun item hitem => hdistinct _ (mem_requirements_of_bucket he hitem)
  rw [atOperatingPoint_planned]
  constructor
  · intro h e he
    refine (?_ : AtEach (StillSet py binds includeDraft) e.2)
    rcases bucket_planned includeDraft he with ⟨segIndex, hnil⟩ | ⟨seg, hseg, segIndex, hsteps, -⟩
    · rw [← hbucket e he segIndex, hnil]
      exact Splits.atEach_nil
    · rw [← hbucket e he segIndex, ← hsteps]
      exact h seg hseg
  · intro h seg hseg
    obtain ⟨e, he, segIndex, hsteps, -⟩ := mem_plannedSegments hseg
    rw [hsteps, hbucket e he segIndex]
    exact h e he

end Plan

def modeClause (mode : String) : ClauseModel where
  kind := "test_mode"
  value := some (.ofList [("mode", .str mode)])

def modeBundle : BundleModel := .pa601 [
    { requirementCode := "SR-0101"
      title := "output voltage"
      inputConditions := [modeClause "normal"]
      outputConditions := [voltageClause "12 V"]
      scenarios := [{ scenarioId := "SR-0101-1", seq := 1 }] },
    { requirementCode := "SR-0102"
      title := "output voltage in standby"
      inputConditions := [modeClause "standby"]
      outputConditions := [voltageClause "5 V"]
      scenarios := [{ scenarioId := "SR-0102-1", seq := 1 }] },
    { requirementCode := "SR-0103"
      title := "ripple"
      inputConditions := [modeClause "normal"]
      outputConditions := [voltageClause "50 mV"]
      scenarios := [{ scenarioId := "SR-0103-1", seq := 1 }] }]

def modeBindings : Bindings := .ofList [
  (("test_mode", .input), { action := "set_test_mode", setupGroup := "sequence" }),
  (("voltage", .output), { action := "measure_voltage", setupGroup := "measurement" })]

theorem distinctActions_modeBundle : ∀ model ∈ modeBundle.requirements, DistinctActions modeBindings model := by
  simp [modeBundle, DistinctActions]
  decide

theorem atOperatingPoint_iff_modeBundle :
    (∀ model ∈ modeBundle.requirements, DistinctActions modeBindings model) ∧
      ((∀ seg ∈ (planFlow compactPython modeBindings false modeBundle).segments,
          AtOperatingPoint modeBindings false seg.steps) ↔
        ∀ e ∈ orderedBuckets compactPython modeBindings modeBundle, ∀ before item after, e.2 = before ++ item :: after →
          StillSet compactPython modeBindings false before item) :=
  ⟨distinctActions_modeBundle, atOperatingPoint_iff _ _ _ _ distinctActions_modeBundle⟩

/-- The third requirement is measured in standby. -/
theorem not_atOperatingPoint_modeBundle :
    (∀ model ∈ modeBundle.requirements, DistinctActions modeBindings model) ∧
      ¬ ∀ seg ∈ (planFlow compactPython modeBindings false modeBundle).segments,
        AtOperatingPoint modeBindings false seg.steps := by
  refine ⟨distinctActions_modeBundle, fun h => ?_⟩
  obtain ⟨st, hst, hvalue, -⟩ := h _ List.mem_cons_self [_, _, _, _] _ _ rfl rfl _ List.mem_cons_self
  obtain rfl := Option.some.inj hst
  have hmode : Json.Text.object [("mode", .str "standby")] ≠ .object [("mode", .str "normal")] := by simp
  exact hmode hvalue

end AteStudio.Planner
