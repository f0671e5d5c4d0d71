import AteStudio.Lib.Fence
import AteStudio.Planner.OperatingPoint
import AteStudio.Planner.Sequence

/-! # Fences before destructive segments -/

namespace AteStudio.Planner

open List Fence

open Setpoint (Command issued noted)

/-! ## Marks -/

def PlanStep.measuresSafely (st : PlanStep) : Bool := st.side = .output && !st.destructive

namespace Emitted

def isDestructive : Emitted → Bool
  | planned step _ => step.destructive
  | _ => false

def isMeasurement : Emitted → Bool
  | planned step _ => step.measuresSafely
  | _ => false

def isRecovery (e : Emitted) : Bool := e.script? = some "power_cycle.py"

def mark (e : Emitted) : Mark := ⟨e.isDestructive, e.isMeasurement, e.isRecovery⟩

end Emitted

/-- Between a destructive step and a later measurement there is a power cycle. -/
def RecoversBefore (es : List Emitted) : Prop :=
  ∀ x a m b y, es = x ++ a :: (m ++ b :: y) → a.isDestructive = true → b.isMeasurement = true →
    ∃ e ∈ m, e.isRecovery = true

open Emitted

theorem recoversBefore_iff (es : List Emitted) : RecoversBefore es ↔ Fenced (es.map mark) :=
  (fenced_map_iff mark es).symm

def PlanStep.mark (st : PlanStep) : Mark := Emitted.mark (.planned st [])

theorem mark_fences (st : PlanStep) : st.mark.fences = true ↔ st.action = "power_cycle" := by
  have hscript : st.mark.fences = true ↔ st.action ++ ".py" = "power_cycle" ++ ".py" := by
    simp [PlanStep.mark, mark, isRecovery, script?]
  rw [hscript, ← String.toList_inj, String.toList_append, String.toList_append, append_left_inj, String.toList_inj]

/-! ## Stretches -/

def stretchStep (st : List (List Mark) × List Mark) (marks : List Mark) : List (List Mark) × List Mark :=
  if marks.any (·.exposes) then (st.1 ++ [st.2], marks) else (st.1, st.2 ++ marks)

/-- What exposes begins a new stretch. -/
def stretches (parts : List (List Mark)) : List (List Mark) :=
  (parts.foldl stretchStep ([], [])).1 ++ [(parts.foldl stretchStep ([], [])).2]

def Segment.marks (seg : Segment) : List Mark := seg.steps.map (·.mark)

structure Segment.Sound (seg : Segment) : Prop where
  named : Named seg.steps
  destructive : seg.destructive = seg.marks.any (·.exposes)

structure Written (st : YamlState) (closed : List (List Mark)) (current : List Mark) : Prop where
  fenced : Fenced (st.steps.map Emitted.mark) ↔ ∀ s ∈ closed ++ [current], Fenced s
  exposed : Exposed (st.steps.map Emitted.mark) ↔ Exposed current
  -- Nothing was planned before the first segment.
  started : lastDeps st.lastId ≠ [] ∨ closed = [] ∧ current = [] ∧ st.steps = [.clamp]

theorem written_start : Written ⟨[.clamp], none⟩ [] [] where
  fenced := iff_of_true (fenced_singleton _) (by simp)
  exposed := iff_of_false (not_exposed_singleton rfl) (by simp)
  started := .inr ⟨rfl, rfl, rfl⟩

theorem marks_emittedSteps (last : Option String) (steps : List PlanStep) :
    (emittedSteps last steps).map mark = steps.map (·.mark) := by
  induction steps generalizing last with
  | nil => rfl
  | cons step steps ih => exact congrArg (step.mark :: ·) (ih _)

theorem emitSegment_marks (seg : Segment) (st : YamlState) : (emitSegment st seg).steps.map mark =
      st.steps.map mark ++
        ((if seg.destructive ∧ lastDeps st.lastId ≠ [] then [⟨false, false, true⟩] else []) ++ seg.marks) := by
  rw [emitSegment_eq, YamlState.write, map_append, emittedSegment, map_append, marks_emittedSteps]
  congr 2
  unfold emittedFence
  split <;> rfl

theorem emitSegment_lastDeps {seg : Segment} (hseg : Named seg.steps) (st : YamlState) :
    lastDeps (emitSegment st seg).lastId ≠ [] := by
  rw [emitSegment_eq]
  exact lastDeps_emittedSegment hseg st.lastId

section Step

variable {st : YamlState} {closed : List (List Mark)} {current : List Mark} {seg : Segment}
  (h : Written st closed current) (hseg : Named seg.steps)

include h hseg

theorem written_destructive (hd : seg.destructive = true) :
    Written (emitSegment st seg) (closed ++ [current]) seg.marks := by
  have hboth : (Fenced ((emitSegment st seg).steps.map mark) ↔ Fenced (st.steps.map mark) ∧ Fenced seg.marks) ∧
      (Exposed ((emitSegment st seg).steps.map mark) ↔ Exposed seg.marks) := by
    rw [emitSegment_marks]
    by_cases hlast : lastDeps st.lastId = []
    · -- The first segment has no fence, and only the clamp comes before it.
      obtain ⟨-, -, hclamp⟩ := h.started.resolve_left (not_not.mpr hlast)
      rw [if_neg (by simp [hlast]), nil_append, hclamp]
      exact fenced_append_of_not (not_exposed_singleton rfl) _
    · rw [if_pos ⟨hd, hlast⟩]
      exact fenced_fence _ _
  refine ⟨?_, hboth.2, .inl (emitSegment_lastDeps hseg st)⟩
  rw [hboth.1, h.fenced]
  simp only [mem_append, mem_singleton, or_imp, forall_and, forall_eq]

theorem written_plain (hd : seg.destructive = false) :
    Written (emitSegment st seg) closed (current ++ seg.marks) := by
  have hmarks := emitSegment_marks seg st
  rw [if_neg (by simp [hd]), nil_append] at hmarks
  refine ⟨?_, ?_, .inl (emitSegment_lastDeps hseg st)⟩
  · rw [hmarks, fenced_append, h.fenced, fencedAfter_congr h.exposed]
    simp only [mem_append, mem_singleton, or_imp, forall_and, forall_eq, fenced_append, and_assoc]
  · rw [hmarks, exposed_append, exposed_append, h.exposed]

end Step

theorem written_segments {segments : List Segment} (h : ∀ seg ∈ segments, seg.Sound) :
    Fenced ((segments.foldl emitSegment ⟨[.clamp], none⟩).steps.map mark) ↔
      ∀ s ∈ stretches (segments.map (·.marks)), Fenced s := by
  have key : ∀ (segs : List Segment) (st : YamlState) (parts : List (List Mark) × List Mark),
      (∀ seg ∈ segs, seg.Sound) → Written st parts.1 parts.2 →
      Written (segs.foldl emitSegment st) ((segs.map (·.marks)).foldl stretchStep parts).1
        ((segs.map (·.marks)).foldl stretchStep parts).2 := by
    intro segs
    induction segs with
    | nil => exact fun st parts _ h => h
    | cons seg segs ih =>
      intro st parts hsegs h
      obtain ⟨hseg, hrest⟩ := forall_mem_cons.mp hsegs
      refine ih _ _ hrest ?_
      unfold stretchStep
      split
      · next hd => exact written_destructive h hseg.named (hseg.destructive.trans hd)
      · next hd => exact written_plain h hseg.named (hseg.destructive.trans (by simpa using hd))
  exact (key segments _ _ h written_start).fenced

/-! ## The marks of a bucket -/

section Bucket

variable (py : Python) (binds : Bindings) (includeDraft : Bool)

def setupMark (c : Command String String Bool) : Mark := ⟨c.tag, false, c.slot = "power_cycle"⟩

def measureMark (b : Binding) : Mark := ⟨b.destructive, !b.destructive, b.action = "power_cycle"⟩

/-- The setups that are not `applied` yet, and what is measured. -/
def scenarioMarks (applied : List (String × String)) (item : RequirementModel × ScenarioModel) : List Mark :=
  (issued applied (wanted py binds includeDraft item)).map setupMark ++
    (measuredItems binds includeDraft item.1).map fun x => measureMark x.1

def bucketMarks (applied : List (String × String)) : Bucket → List Mark
  | [] => []
  | item :: rest => scenarioMarks py binds includeDraft applied item ++
      bucketMarks (noted applied (wanted py binds includeDraft item)) rest

theorem mark_eq (st : PlanStep) : st.mark = ⟨st.destructive, st.measuresSafely, st.action = "power_cycle"⟩ := by
  have hfences := mark_fences st
  rw [show st.mark = ⟨st.destructive, st.measuresSafely, st.mark.fences⟩ from rfl]
  congr 1
  rw [Bool.eq_iff_iff, hfences, decide_eq_true_iff]

theorem planScenario_marks (segIndex : Nat) (item : RequirementModel × ScenarioModel) (prevId : Option String)
    (applied : List (String × String)) :
    (planScenario py binds includeDraft segIndex item.1 item.2 prevId applied).steps.map (·.mark) =
      scenarioMarks py binds includeDraft applied item := by
  obtain ⟨-, steps, measured, hsteps, hside, hmap, hmeasured, hdeeds⟩ :=
    planScenario_spec py binds includeDraft segIndex item prevId applied
  have hsetups : steps.map (·.mark) = (steps.map (·.setting py)).map setupMark := by
    rw [map_map]
    refine map_congr_left fun st hst => ?_
    simp [mark_eq, PlanStep.measuresSafely, hside st hst, setupMark, PlanStep.setting]
  have hmeasures := congrArg (map fun d : String × Bool => Mark.mk d.2 (!d.2) (d.1 = "power_cycle")) hdeeds
  rw [map_map, map_map] at hmeasures
  rw [hsteps, map_append, hsetups, hmap]
  refine congrArg _ (Eq.trans (map_congr_left fun st hst => ?_) hmeasures)
  simp [mark_eq, PlanStep.measuresSafely, (hmeasured st hst).1]

theorem planBucket_marks (segIndex : Nat) (items : Bucket) :
    (planBucket py binds includeDraft segIndex items).steps.map (·.mark) = bucketMarks py binds includeDraft [] items := by
  have key : ∀ st : SegmentState, (items.foldl (addScenario py binds includeDraft segIndex) st).steps.map (·.mark) =
      st.steps.map (·.mark) ++ bucketMarks py binds includeDraft st.applied items := by
    induction items with
    | nil => simp [bucketMarks]
    | cons item items ih =>
      intro st
      obtain ⟨hsteps, happlied⟩ := addScenario_steps py binds includeDraft segIndex st item
      rw [foldl_cons, ih, hsteps, happlied, map_append, planScenario_marks,
        (planScenario_spec py binds includeDraft segIndex item st.prevId st.applied).1, bucketMarks, append_assoc]
  exact (key {}).trans (nil_append _)

theorem foldl_plannedSegments (bundle : BundleModel) (parts : List (List Mark) × List Mark) :
    ((plannedSegments py binds includeDraft bundle).map (·.marks)).foldl stretchStep parts =
      ((orderedBuckets py binds bundle).map fun e => bucketMarks py binds includeDraft [] e.2).foldl stretchStep parts := by
  obtain ⟨segs, hsegs, heq⟩ := plannedSegments_leads py binds includeDraft bundle
  rw [heq]
  clear heq
  generalize orderedBuckets py binds bundle = entries at hsegs ⊢
  induction hsegs generalizing parts with
  | nil => rfl
  | @cons e seg _ _ hleads _ ih =>
    cases seg with
    | none =>
      -- A bucket without steps adds nothing to the stretch.
      obtain ⟨segIndex, hnil⟩ := hleads
      rw [reduceOption_cons_of_none, ih, map_cons, foldl_cons, ← planBucket_marks py binds includeDraft segIndex, hnil]
      simp [stretchStep]
    | some seg =>
      obtain ⟨segIndex, hsteps, -⟩ := hleads
      rw [reduceOption_cons_of_some, map_cons, foldl_cons, ih, map_cons, foldl_cons, Segment.marks, hsteps,
        planBucket_marks]

variable {py binds includeDraft} {bundle : BundleModel}

theorem marks_content (seg : Segment) : seg.content.marks = seg.marks := map_map

theorem planFlow_marks : (planFlow py binds includeDraft bundle).segments.map (·.marks) =
    (plannedSegments py binds includeDraft bundle).map (·.marks) := by
  have hcontent : ∀ segments : List Segment, (segments.map (·.content)).map (·.marks) = segments.map (·.marks) := by
    simp [marks_content]
  rw [← hcontent, planFlow_content, hcontent]

theorem planFlow_sound {seg : Segment} (h : seg ∈ (planFlow py binds includeDraft bundle).segments) : seg.Sound where
  named := planFlow_named h
  destructive := by
    have hmem := mem_map_of_mem (f := fun seg : Segment => seg.content) h
    rw [planFlow_content] at hmem
    obtain ⟨seg', hseg', heq⟩ := mem_map.mp hmem
    obtain ⟨e, -, segIndex, hsteps, hd⟩ := mem_plannedSegments hseg'
    have hmarks : seg'.destructive = seg'.marks.any (·.exposes) := by
      rw [hd, (sound_planBucket segIndex e.2).destructive, ← hsteps, Segment.marks, any_map]
      rfl
    have hkept : seg.content.destructive = seg'.content.destructive := by rw [heq]
    rw [← marks_content, ← heq, marks_content, ← hmarks]
    exact hkept

end Bucket

/-! ## The emitted order -/

theorem fenced_toYaml (plan : FlowPlan) (h : ∀ seg ∈ plan.segments, seg.Sound) :
    Fenced (plan.toYaml.map mark) ↔ ∀ s ∈ stretches (plan.segments.map (·.marks)), Fenced s := by
  rw [← written_segments h, FlowPlan.toYaml, map_append]
  split
  · simp
  · -- The release measures nothing.
    rw [fenced_append, and_iff_left]
    intro x b y h hb
    cases x with
    | nil =>
      simp only [map_cons, map_nil, nil_append, List.cons.injEq] at h
      rw [← h.1] at hb
      cases hb
    | cons c x => simp at h

/-- Fenced exactly when fenced in every stretch of buckets, where a destructive bucket begins a new one. -/
theorem toYaml_recovers_iff (py : Python) (binds : Bindings) (includeDraft : Bool) (bundle : BundleModel) :
    RecoversBefore (planFlow py binds includeDraft bundle).toYaml ↔
      ∀ s ∈ stretches ((orderedBuckets py binds bundle).map fun e => bucketMarks py binds includeDraft [] e.2),
        Fenced s := by
  rw [recoversBefore_iff, fenced_toYaml _ fun _ => planFlow_sound, planFlow_marks, stretches, foldl_plannedSegments]
  rfl

def faultBundle : BundleModel := .pa601 [
    { requirementCode := "SR-0901"
      title := "short circuit"
      inputConditions := [{ kind := "fault_stimulus", text := "output shorted" }]
      outputConditions := [voltageClause "12 V"]
      scenarios := [{ scenarioId := "SR-0901-1", seq := 1 }] }]

def faultBindings : Bindings := .ofList [
  (("fault_stimulus", .input), { action := "inject_fault", setupGroup := "fault_injection", destructive := true }),
  (("voltage", .output), { action := "measure_voltage", setupGroup := "measurement" })]

theorem not_recovers_faultBundle :
    ¬ RecoversBefore (planFlow compactPython faultBindings false faultBundle).toYaml := by
  intro h
  obtain ⟨e, he, -⟩ := h [.clamp] _ [] _ _ rfl rfl rfl
  cases he

/-! ## The announced count -/

section

theorem length_fenceIds (segments : List Segment) : (fenceIds segments).length = segments.countP (·.destructive) := by
  induction segments with
  | nil => rfl
  | cons seg rest ih =>
    rw [fenceIds_cons, length_append, ih, countP_cons, Nat.add_comm]
    cases hd : seg.destructive <;> simp [fenceId?, hd]

theorem length_emittedSegments {segments : List Segment} (h : ∀ seg ∈ segments, Named seg.steps) :
    (emittedSegments none segments).length =
      segments.tail.countP (·.destructive) + (segments.map (·.steps.length)).sum := by
  have hids := (ids_emittedSegments_none h).length_eq
  rw [length_map, length_append, length_fenceIds] at hids
  simpa only [allIds, idsOf, length_flatMap, length_map] using hids

end

/-- The count is the number of written steps exactly when the plan has a first segment and that one is not destructive:
no fence is written before the first segment, and the clamp is written for an empty plan too. -/
theorem emittedStepCount_eq_iff (py : Python) (binds : Bindings) (includeDraft : Bool) (bundle : BundleModel) :
    (planFlow py binds includeDraft bundle).emittedStepCount = (planFlow py binds includeDraft bundle).toYaml.length ↔
      (planFlow py binds includeDraft bundle).segments.head?.map (·.destructive) = some false := by
  have h : ∀ seg ∈ (planFlow py binds includeDraft bundle).segments, Named seg.steps := fun _ => planFlow_named
  generalize planFlow py binds includeDraft bundle = plan at h
  rw [toYaml_eq, length_cons, length_append, length_emittedSegments h, emittedRelease, FlowPlan.emittedStepCount,
    FlowPlan.destructiveSegmentCount, FlowPlan.stepCount]
  cases hsegments : plan.segments with
  | nil => decide
  | cons seg rest =>
    rw [hsegments] at h
    have hpos : seg.steps.length + (rest.map (·.steps.length)).sum ≠ 0 := by
      simp [(h seg mem_cons_self).ne_nil]
    rw [if_neg (lastDeps_emittedSegments h (.inl (cons_ne_nil _ _))), countP_cons, map_cons, sum_cons, if_neg hpos]
    simp only [tail_cons, length_singleton, head?_cons, Option.map_some, Option.some_inj]
    cases seg.destructive <;> simp <;> omega

theorem emittedStepCount_faultBundle :
    let plan := planFlow compactPython faultBindings false faultBundle
    plan.emittedStepCount = 5 ∧ plan.toYaml.length = 4 := by
  decide

end AteStudio.Planner
