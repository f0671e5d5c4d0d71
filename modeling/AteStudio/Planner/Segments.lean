import AteStudio.Lib.Except
import AteStudio.Planner.Code

/-! # What the planner's loops build -/

namespace AteStudio.Planner

open List

/-! ## Chains -/

def lastId (prevId : Option String) (steps : List PlanStep) : Option String := (steps.getLast?.map (·.id)).or prevId

def Chained : Option String → List PlanStep → Prop
  | _, [] => True
  | prevId, st :: rest => st.dependsOn = dependsOnPrev prevId ∧ st.id ≠ "" ∧ Chained (some st.id) rest

variable (prevId : Option String)

@[simp] theorem lastId_nil : lastId prevId [] = prevId := rfl

@[simp] theorem lastId_concat (steps : List PlanStep) (st : PlanStep) : lastId prevId (steps ++ [st]) = some st.id := by
  simp [lastId]

theorem lastId_append (steps steps' : List PlanStep) :
    lastId prevId (steps ++ steps') = lastId (lastId prevId steps) steps' := by
  rcases eq_nil_or_concat steps' with rfl | ⟨init, st, rfl⟩
  · simp
  · rw [concat_eq_append, ← append_assoc, lastId_concat, lastId_concat]

theorem chained_append (steps steps' : List PlanStep) :
    Chained prevId (steps ++ steps') ↔ Chained prevId steps ∧ Chained (lastId prevId steps) steps' := by
  induction steps generalizing prevId with
  | nil => simp [Chained]
  | cons st rest ih =>
    have hlast : lastId prevId (st :: rest) = lastId (some st.id) rest := lastId_append prevId [st] rest
    simp only [cons_append, Chained, ih, hlast, and_assoc]

variable {steps : List PlanStep}

theorem Chained.id_ne {prevId : Option String} (h : Chained prevId steps) : ∀ st ∈ steps, st.id ≠ "" := by
  induction steps generalizing prevId with
  | nil => simp
  | cons st rest ih => exact forall_mem_cons.mpr ⟨h.2.1, ih h.2.2⟩

structure Named (steps : List PlanStep) : Prop where
  ne_nil : steps ≠ []
  id_ne : ∀ st ∈ steps, st.id ≠ ""

theorem Named.lastDeps (h : Named steps) (prevId : Option String) : lastDeps (lastId prevId steps) ≠ [] := by
  obtain ⟨init, st, rfl⟩ := (eq_nil_or_concat steps).resolve_left h.ne_nil
  rw [concat_eq_append, lastId_concat]
  simp [Planner.lastDeps, dependsOnPrev, h.id_ne st (by simp)]

section Scenario

variable {py : Python} {binds : Bindings} {includeDraft : Bool} {segIndex : Nat} {model : RequirementModel}
  {scen : ScenarioModel} {prevId : Option String} {applied : List (String × String)}

/-- Both loops only append steps, each with an id that begins with the base of the scenario. -/
theorem planScenario_induct {P : List PlanStep → Option String → Prop} (hstart : P [] prevId)
    (hstep : ∀ steps prevId side b cl tail, tail ≠ "" → P steps prevId →
      P (steps ++ [newStep model scen side b cl (stepBase py model scen segIndex ++ tail) prevId])
        (some (stepBase py model scen segIndex ++ tail))) :
    P (planScenario py binds includeDraft segIndex model scen prevId applied).steps
      (planScenario py binds includeDraft segIndex model scen prevId applied).prevId := by
  have happend : ∀ {mark clauses side} {st : Planning} (item), mark ≠ "" → P st.steps st.prevId →
      let st' := appendStep py (stepBase py model scen segIndex) mark clauses model scen side st item
      P st'.steps st'.prevId := by
    intro mark clauses side st item hmark h
    have hid := hstep st.steps st.prevId side item.1 item.2 (mark ++ slug py item.2.kind ++
      ordinal clauses item.2.kind (st.kindSeq.getD item.2.kind 0)) (by simp [hmark]) h
    simpa only [appendStep, String.append_assoc] using hid
  refine foldlRecOn (motive := fun st : Planning => P st.steps st.prevId) _ _ ?_
    fun st h item _ => happend item (by decide) h
  refine foldlRecOn (motive := fun st : Planning => P st.steps st.prevId) _ _ hstart fun st h item _ => ?_
  unfold addSetup
  simp only
  split
  · exact happend item (by decide) h
  · split
    · exact h
    · exact happend item (by decide) h

def Planning.Chained (prevId : Option String) (st : Planning) : Prop :=
  Planner.Chained prevId st.steps ∧ st.prevId = lastId prevId st.steps

theorem chained_planScenario : (planScenario py binds includeDraft segIndex model scen prevId applied).Chained prevId := by
  unfold Planning.Chained
  refine planScenario_induct (P := fun steps last => Planner.Chained prevId steps ∧ last = lastId prevId steps)
    ⟨trivial, rfl⟩ ?_
  intro steps last side b cl tail htail h
  refine ⟨(chained_append _ _ _).mpr ⟨h.1, ?_, ?_, trivial⟩, ?_⟩
  · rw [← h.2]
    rfl
  · simp [newStep, htail]
  · simp [newStep]

end Scenario

/-! ## Buckets and segments -/

section Segments

variable {py : Python} {binds : Bindings} {includeDraft : Bool}

structure SegmentState.Sound (st : SegmentState) : Prop where
  chained : Chained none st.steps
  prevId : st.prevId = lastId none st.steps
  destructive : st.destructive = st.steps.any (·.destructive)

theorem sound_addScenario (segIndex : Nat) (st : SegmentState) (item : RequirementModel × ScenarioModel) (h : st.Sound) :
    (addScenario py binds includeDraft segIndex st item).Sound := by
  unfold addScenario
  simp only
  split
  · exact ⟨h.chained, h.prevId, h.destructive⟩
  · next hne =>
    refine ⟨(chained_append _ _ _).mpr ⟨h.chained, h.prevId ▸ chained_planScenario.1⟩, ?_, by simp [h.destructive]⟩
    rw [lastId_append, lastId]
    cases hlast : (planScenario py binds includeDraft segIndex item.1 item.2 st.prevId st.applied).steps.getLast? with
    | none => exact absurd (getLast?_eq_none_iff.mp hlast) hne
    | some last => rfl

theorem sound_planBucket (segIndex : Nat) (items : Bucket) : (planBucket py binds includeDraft segIndex items).Sound :=
  foldlRecOn items _ ⟨trivial, rfl, rfl⟩ fun st h item _ => sound_addScenario segIndex st item h

def FromBucket (py : Python) (binds : Bindings) (includeDraft : Bool) (e : String × Bucket) (seg : Segment) : Prop :=
  ∃ segIndex, seg.steps = (planBucket py binds includeDraft segIndex e.2).steps ∧
    seg.destructive = (planBucket py binds includeDraft segIndex e.2).destructive

def Leads (py : Python) (binds : Bindings) (includeDraft : Bool) (e : String × Bucket) : Option Segment → Prop
  | none => ∃ segIndex, (planBucket py binds includeDraft segIndex e.2).steps = []
  | some seg => FromBucket py binds includeDraft e seg

theorem plannedSegments_leads (py : Python) (binds : Bindings) (includeDraft : Bool) (bundle : BundleModel) :
    ∃ segs, Forall₂ (Leads py binds includeDraft) (orderedBuckets py binds bundle) segs ∧
      plannedSegments py binds includeDraft bundle = segs.reduceOption := by
  have key : ∀ (entries : List ((String × Bucket) × Nat)) (start : List Segment),
      ∃ segs, Forall₂ (Leads py binds includeDraft) (entries.map Prod.fst) segs ∧
        entries.foldl (addSegment py binds includeDraft) start = start ++ segs.reduceOption := by
    intro entries
    induction entries with
    | nil => exact fun start => ⟨[], .nil, (append_nil start).symm⟩
    | cons entry entries ih =>
      intro start
      obtain ⟨segs, hsegs, heq⟩ := ih (addSegment py binds includeDraft start entry)
      by_cases hnone : (planBucket py binds includeDraft start.length entry.1.2).steps = []
      · refine ⟨none :: segs, .cons ⟨_, hnone⟩ hsegs, ?_⟩
        rw [foldl_cons, heq, addSegment, dif_pos hnone, reduceOption_cons_of_none]
      · refine ⟨some ⟨entry.1.1, entry.2, _, _, hnone⟩ :: segs, .cons ⟨_, rfl, rfl⟩ hsegs, ?_⟩
        rw [foldl_cons, heq, addSegment, dif_neg hnone, append_assoc, reduceOption_cons_of_some, singleton_append]
  have hall := key (orderedBuckets py binds bundle).zipIdx []
  rwa [zipIdx_map_fst] at hall

theorem mem_plannedSegments {bundle : BundleModel} {seg : Segment}
    (h : seg ∈ plannedSegments py binds includeDraft bundle) :
    ∃ e ∈ orderedBuckets py binds bundle, FromBucket py binds includeDraft e seg := by
  obtain ⟨segs, hsegs, heq⟩ := plannedSegments_leads py binds includeDraft bundle
  rw [heq, reduceOption_mem_iff] at h
  exact Forall₂.exists_left hsegs h

theorem bucket_planned (includeDraft : Bool) {bundle : BundleModel} {e : String × Bucket}
    (he : e ∈ orderedBuckets py binds bundle) :
    (∃ segIndex, (planBucket py binds includeDraft segIndex e.2).steps = []) ∨
      ∃ seg ∈ plannedSegments py binds includeDraft bundle, FromBucket py binds includeDraft e seg := by
  obtain ⟨segs, hsegs, heq⟩ := plannedSegments_leads py binds includeDraft bundle
  obtain ⟨o, ho, hleads⟩ := Forall₂.exists_right hsegs he
  cases o with
  | none => exact .inl hleads
  | some seg => exact .inr ⟨seg, heq ▸ reduceOption_mem_iff.mpr ho, hleads⟩

end Segments

def PlanStep.content (st : PlanStep) : PlanStep := { st with id := "", dependsOn := [] }

def Segment.content : Segment → Segment := Segment.mapSteps (·.content)

end AteStudio.Planner
