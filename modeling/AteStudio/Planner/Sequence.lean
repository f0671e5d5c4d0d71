import AteStudio.Lib.Chain
import AteStudio.Planner.Ids

/-!
# The planned sequence

`to_yaml` writes one chain: a step that depends on nothing gets the last written one.
-/

namespace AteStudio.Planner

open List Option Chain

open Chain (Node Linked Forward lastOf)

/-! ## What is written -/

def nodes (es : List Emitted) : List (Node String) := es.map fun e => (e.id, e.dependsOn)

@[simp] theorem nodes_append (es es' : List Emitted) : nodes (es ++ es') = nodes es ++ nodes es' := map_append

@[simp] theorem ids_nodes (es : List Emitted) : ids (nodes es) = es.map (·.id) := by
  simp [ids, nodes]

def emittedSteps : Option String → List PlanStep → List Emitted
  | _, [] => []
  | last, step :: rest =>
    .planned step (if step.dependsOn = [] then lastDeps last else step.dependsOn) :: emittedSteps (some step.id) rest

def emittedFence (last : Option String) (seg : Segment) : List Emitted :=
  if seg.destructive ∧ lastDeps last ≠ [] then [.recovery seg.fenceId (lastDeps last)] else []

def emittedSegment (last : Option String) (seg : Segment) : List Emitted :=
  emittedFence last seg ++ emittedSteps (lastOf last (nodes (emittedFence last seg))) seg.steps

def emittedSegments : Option String → List Segment → List Emitted
  | _, [] => []
  | last, seg :: rest =>
    emittedSegment last seg ++ emittedSegments (lastOf last (nodes (emittedSegment last seg))) rest

def emittedRelease (last : Option String) : List Emitted :=
  if lastDeps last = [] then [] else [.release (lastDeps last)]

variable (st : YamlState)

def YamlState.write (es : List Emitted) : YamlState := ⟨st.steps ++ es, lastOf st.lastId (nodes es)⟩

theorem YamlState.write_append (es es' : List Emitted) :
    st.write (es ++ es') = (st.write es).write es' := by
  simp [write, lastOf_append]

theorem YamlState.write_nil : st.write [] = st := by
  simp [write, nodes, lastOf, ids]

theorem foldl_emitStep (steps : List PlanStep) (st : YamlState) :
    steps.foldl emitStep st = st.write (emittedSteps st.lastId steps) := by
  induction steps generalizing st with
  | nil => exact st.write_nil.symm
  | cons step rest ih =>
    rw [foldl_cons, ih, emittedSteps, ← singleton_append, YamlState.write_append]
    rfl

theorem emitFence_eq (seg : Segment) : emitFence st seg = st.write (emittedFence st.lastId seg) := by
  unfold emitFence emittedFence
  split
  · rfl
  · rw [YamlState.write_nil]

theorem emitSegment_eq (seg : Segment) :
    emitSegment st seg = st.write (emittedSegment st.lastId seg) := by
  rw [emitSegment, emitFence_eq, foldl_emitStep, emittedSegment, YamlState.write_append]
  rfl

theorem foldl_emitSegment (segments : List Segment) (st : YamlState) :
    segments.foldl emitSegment st = st.write (emittedSegments st.lastId segments) := by
  induction segments generalizing st with
  | nil => exact st.write_nil.symm
  | cons seg rest ih =>
    rw [foldl_cons, ih, emitSegment_eq, emittedSegments, YamlState.write_append]
    rfl

theorem toYaml_eq (plan : FlowPlan) :
    plan.toYaml = .clamp :: (emittedSegments none plan.segments ++
      emittedRelease (lastOf none (nodes (emittedSegments none plan.segments)))) := by
  rw [FlowPlan.toYaml, foldl_emitSegment]
  rfl

/-! ## Links -/

/-- Only the last id of a segment may come again, in it or `later`. -/
def RepeatsAtEnd (later : List String) : List String → Prop
  | x :: y :: rest => x ∉ y :: rest ++ later ∧ RepeatsAtEnd later (y :: rest)
  | _ => True

def RepeatAtEnds : List Segment → Prop
  | [] => True
  | seg :: rest => RepeatsAtEnd (allIds rest) (idsOf seg.steps) ∧ RepeatAtEnds rest

variable {last : Option String}

theorem lastDeps_eq (h : last ≠ some "") : lastDeps last = last.toList := by
  cases last with
  | none => rfl
  | some id =>
    have hid : id ≠ "" := fun hid => h (by rw [hid])
    simp [lastDeps, dependsOnPrev, hid]

theorem ids_emittedSteps (steps : List PlanStep) : (emittedSteps last steps).map (·.id) = idsOf steps := by
  induction steps generalizing last with
  | nil => rfl
  | cons step rest ih =>
    rw [emittedSteps, map_cons, ih]
    rfl

variable {done all : List String}

theorem chain_rest {later : List String} {x : String} {steps : List PlanStep}
    (hall : all = done ++ x :: (idsOf steps ++ later)) (h : Chained (some x) steps) (hx : x ≠ "") (last : Option String) :
    (Linked (some (name done x)) (nodes (emittedSteps last (finalSteps all (done ++ [x]) steps))) ↔
        RepeatsAtEnd later (x :: idsOf steps)) ∧
      Forward (numbered (done ++ x :: idsOf steps) later) (some (name done x))
        (nodes (emittedSteps last (finalSteps all (done ++ [x]) steps))) := by
  induction steps generalizing done x last with
  | nil => exact ⟨iff_of_true trivial trivial, trivial⟩
  | cons st rest ih =>
    obtain ⟨hdep, hid, hrest⟩ := h
    have hall' : all = (done ++ [x]) ++ st.id :: (idsOf rest ++ later) := by simp [hall]
    have hall'' : all = (done ++ [x]) ++ (st.id :: idsOf rest ++ later) := hall'
    obtain ⟨hlinked, hforward⟩ := ih hall' hrest hid (some (name (done ++ [x]) st.id))
    have hdeps : st.dependsOn.map (target all) = [target all x] := by simp [hdep, dependsOnPrev, hx]
    have hnodes : nodes (emittedSteps last (finalSteps all (done ++ [x]) (st :: rest))) =
        (name (done ++ [x]) st.id, [target all x]) ::
          nodes (emittedSteps (some (name (done ++ [x]) st.id)) (finalSteps all ((done ++ [x]) ++ [st.id]) rest)) := by
      simp only [finalSteps, emittedSteps, hdeps, nodes, map_cons, Emitted.id, Emitted.dependsOn]
      simp
    rw [hnodes]
    have htarget : target all x = name done x ↔ x ∉ st.id :: idsOf rest ++ later := by
      rw [hall]
      exact target_eq_name_iff done x _
    refine ⟨?_, ?_, ?_⟩
    · simp only [Linked, toList_some, List.cons.injEq, and_true, htarget, hlinked, idsOf_cons, RepeatsAtEnd]
    · refine ⟨_, rfl, ?_⟩
      by_cases hmem : x ∈ st.id :: idsOf rest ++ later
      · -- The last step of the id comes here or later.
        have hlater := target_mem_numbered (mem_append_right done (mem_singleton_self x)) hmem
        rw [← hall'', numbered_append, numbered] at hlater
        right
        simpa [ids_cons, ids_emittedSteps, idsOf_finalSteps] using hlater
      · exact .inl (htarget.mpr hmem)
    · simpa using hforward

theorem chain_fence (hlast : last ≠ some "") (seg : Segment) :
    Linked last (nodes (emittedFence last seg)) ∧ Forward [] last (nodes (emittedFence last seg)) ∧
      lastOf last (nodes (emittedFence last seg)) ≠ some "" := by
  unfold emittedFence
  split
  · rw [lastDeps_eq hlast]
    refine ⟨⟨rfl, trivial⟩, ⟨names_toList _ _ _, trivial⟩, fun h => ?_⟩
    have hid : seg.fenceId = "" := some.inj h
    exact absurd (String.append_eq_empty_iff.mp hid).1 (by decide)
  · exact ⟨trivial, trivial, hlast⟩

variable {seg : Segment}

theorem chain_segment {later : List String} (hall : all = done ++ (idsOf seg.steps ++ later))
    (h : Chained none seg.steps) (hlast : last ≠ some "") :
    let es := emittedSegment last (seg.final all done)
    (Linked last (nodes es) ↔ RepeatsAtEnd later (idsOf seg.steps)) ∧
      Forward (numbered (done ++ idsOf seg.steps) later) last (nodes es) ∧
        ∃ id ≠ "", lastOf last (nodes es) = some id := by
  intro es
  obtain ⟨hlinkedFence, hforwardFence, hbefore⟩ := chain_fence hlast (seg.final all done)
  obtain ⟨first, rest, hsteps⟩ := exists_cons_of_ne_nil seg.nonempty
  have hids : ∀ x ∈ idsOf seg.steps, x ≠ "" := by
    intro x hx
    obtain ⟨st, hst, rfl⟩ := mem_map.mp hx
    exact h.id_ne st hst
  rw [hsteps] at h
  obtain ⟨hdep, hid, hrest⟩ := h
  rw [hsteps, idsOf_cons] at hall hids
  obtain ⟨hlinked, hforward⟩ := chain_rest hall hrest hid (some (name done first.id))
  generalize hfence : emittedFence last (seg.final all done) = fence at *
  generalize hprev : lastOf last (nodes fence) = prev at *
  -- The first step depends on what was written before it.
  have hnodes : nodes es = nodes fence ++ (name done first.id, prev.toList) ::
      nodes (emittedSteps (some (name done first.id)) (finalSteps all (done ++ [first.id]) rest)) := by
    simp only [es, emittedSegment, hfence, nodes_append, hprev, ← lastDeps_eq hbefore]
    simp only [Segment.final, hsteps, finalSteps, emittedSteps, hdep, dependsOnPrev, map_nil, if_true]
    rfl
  rw [hnodes, hsteps, idsOf_cons]
  refine ⟨?_, ?_, ?_⟩
  · simp only [linked_append, hlinkedFence, hprev, true_and, Linked, hlinked]
  · rw [forward_append, hprev]
    exact ⟨hforwardFence.mono (nil_subset _), names_toList _ _ _, hforward⟩
  · rw [lastOf_append, lastOf_cons]
    obtain ⟨x, hx, hlast⟩ := exists_lastOf (name done first.id)
      (nodes (emittedSteps (some (name done first.id)) (finalSteps all (done ++ [first.id]) rest)))
    refine ⟨x, ?_, hlast⟩
    rw [ids_nodes, ids_emittedSteps, idsOf_finalSteps] at hx
    obtain ⟨l₁, y, l₂, hl, rfl⟩ := mem_numbered.mp (show x ∈ numbered done (first.id :: idsOf rest) from hx)
    exact name_ne _ (hids y (by simp [hl]))

variable {segments : List Segment}

theorem chain_segments (hall : all = done ++ allIds segments)
    (h : ∀ seg ∈ segments, Chained none seg.steps) (hlast : last ≠ some "") :
    let es := emittedSegments last (finalSegments all done segments)
    (Linked last (nodes es) ↔ RepeatAtEnds segments) ∧ Forward [] last (nodes es) ∧ lastOf last (nodes es) ≠ some "" ∧
      numbered done (allIds segments) ⊆ es.map (·.id) := by
  induction segments generalizing done last with
  | nil => exact ⟨iff_of_true trivial trivial, trivial, hlast, fun _ h => h⟩
  | cons seg rest ih =>
    intro es
    obtain ⟨hchained, hrest⟩ := forall_mem_cons.mp h
    rw [allIds_cons] at hall
    obtain ⟨hlinked, hforward, id, hid, hprev⟩ := chain_segment hall hchained hlast
    have hall' : all = (done ++ idsOf seg.steps) ++ allIds rest := by rw [hall, append_assoc]
    obtain ⟨hlinked', hforward', hlast', hsub⟩ := ih hall' hrest (show some id ≠ some "" by simpa using hid)
    simp only [es, finalSegments, emittedSegments, nodes_append, hprev]
    refine ⟨?_, ?_, ?_, ?_⟩
    · rw [linked_append, hprev, hlinked, hlinked', RepeatAtEnds]
    · rw [forward_append, hprev, append_nil, ids_nodes]
      exact ⟨hforward.mono hsub, hforward'⟩
    · rwa [lastOf_append, hprev]
    · rw [allIds_cons, numbered_append, map_append, emittedSegment, map_append, ids_emittedSteps, Segment.final, idsOf_finalSteps]
      intro x hx
      rcases mem_append.mp hx with hx | hx
      · exact mem_append_left _ (mem_append_right _ hx)
      · exact mem_append_right _ (hsub hx)

/-! ## Distinct ids -/

def fenceId? (seg : Segment) : Option String := if seg.destructive then some seg.fenceId else none

def fenceIds (segments : List Segment) : List String := segments.filterMap fenceId?

theorem fenceIds_cons (seg : Segment) (rest : List Segment) :
    fenceIds (seg :: rest) = (fenceId? seg).toList ++ fenceIds rest := by
  unfold fenceIds
  cases hf : fenceId? seg <;> simp [hf]

theorem ids_emittedFence (h : lastDeps last ≠ []) (seg : Segment) :
    (emittedFence last seg).map (·.id) = (fenceId? seg).toList := by
  unfold emittedFence fenceId?
  cases seg.destructive <;> simp [h, Emitted.id]

theorem ids_emittedSegment (seg : Segment) :
    (emittedSegment last seg).map (·.id) = (emittedFence last seg).map (·.id) ++ idsOf seg.steps := by
  rw [emittedSegment, map_append, ids_emittedSteps]

theorem lastDeps_emittedSegment (h : Named seg.steps) (last : Option String) :
    lastDeps (lastOf last (nodes (emittedSegment last seg))) ≠ [] := by
  rw [emittedSegment, nodes_append, lastOf_append, lastOf, ids_nodes, ids_emittedSteps, idsOf, getLast?_map, ← lastId]
  exact h.lastDeps _

theorem ids_emittedSegments (h : ∀ seg ∈ segments, Named seg.steps)
    (hlast : lastDeps last ≠ []) :
    ((emittedSegments last segments).map (·.id)).Perm (fenceIds segments ++ allIds segments) := by
  induction segments generalizing last with
  | nil => exact .refl _
  | cons seg rest ih =>
    obtain ⟨hseg, hrest⟩ := forall_mem_cons.mp h
    have hids := ih hrest (lastDeps_emittedSegment hseg last)
    rw [emittedSegments, map_append, ids_emittedSegment, ids_emittedFence hlast, allIds_cons, fenceIds_cons,
      append_assoc, append_assoc]
    refine List.Perm.append_left _ ((hids.append_left _).trans ?_)
    rw [← append_assoc, ← append_assoc]
    exact perm_append_comm.append_right _

theorem lastDeps_emittedSegments (h : ∀ seg ∈ segments, Named seg.steps)
    (hne : segments ≠ [] ∨ lastDeps last ≠ []) :
    lastDeps (lastOf last (nodes (emittedSegments last segments))) ≠ [] := by
  induction segments generalizing last with
  | nil => exact hne.resolve_left (· rfl)
  | cons seg rest ih =>
    obtain ⟨hseg, hrest⟩ := forall_mem_cons.mp h
    rw [emittedSegments, nodes_append, lastOf_append]
    exact ih hrest (.inr (lastDeps_emittedSegment hseg last))

theorem exists_of_fenceId? {f : String} (h : fenceId? seg = some f) :
    ∃ id ∈ idsOf seg.steps, f = "recover_before_" ++ id := by
  unfold fenceId? at h
  split at h
  · exact ⟨_, mem_map_of_mem (head_mem seg.nonempty), (some.inj h).symm⟩
  · cases h

theorem exists_of_mem_fenceIds {f : String} (h : f ∈ fenceIds segments) :
    ∃ id ∈ allIds segments, f = "recover_before_" ++ id := by
  obtain ⟨seg, hseg, hf⟩ := mem_filterMap.mp h
  obtain ⟨id, hid, rfl⟩ := exists_of_fenceId? hf
  exact ⟨id, mem_flatMap.mpr ⟨seg, hseg, hid⟩, rfl⟩

theorem nodup_fenceIds (h : (allIds segments).Nodup) : (fenceIds segments).Nodup := by
  induction segments with
  | nil => exact nodup_nil
  | cons seg rest ih =>
    rw [allIds_cons] at h
    obtain ⟨-, hrest, hdisjoint⟩ := nodup_append.mp h
    rw [fenceIds_cons, nodup_append]
    refine ⟨?_, ih hrest, fun f hf f' hf' heq => ?_⟩
    · cases fenceId? seg <;> simp
    · obtain ⟨id, hid, rfl⟩ := exists_of_fenceId? (mem_toList.mp hf)
      obtain ⟨id', hid', rfl⟩ := exists_of_mem_fenceIds hf'
      rw [← String.toList_inj, String.toList_append, String.toList_append, append_right_inj, String.toList_inj] at heq
      exact hdisjoint id hid id' hid' heq

theorem ids_emittedSegments_none (h : ∀ seg ∈ segments, Named seg.steps) :
    ((emittedSegments none segments).map (·.id)).Perm (fenceIds segments.tail ++ allIds segments) := by
  cases segments with
  | nil => exact .refl _
  | cons seg rest =>
    obtain ⟨hseg, hrest⟩ := forall_mem_cons.mp h
    have hnone : emittedFence none seg = [] := by simp [emittedFence, lastDeps, dependsOnPrev]
    rw [emittedSegments, map_append, ids_emittedSegment, hnone, allIds_cons]
    refine ((ids_emittedSegments hrest (lastDeps_emittedSegment hseg none)).append_left _).trans ?_
    rw [map_nil, nil_append, ← append_assoc, ← append_assoc]
    exact perm_append_comm.append_right _

theorem nodup_fences_append (segments : List Segment) :
    (fenceIds segments.tail ++ allIds segments).Nodup ↔
      (allIds segments).Nodup ∧ ∀ f ∈ fenceIds segments.tail, f ∉ allIds segments := by
  rw [nodup_append]
  constructor
  · rintro ⟨-, hall, hdisjoint⟩
    exact ⟨hall, fun f hf hmem => hdisjoint f hf f hmem rfl⟩
  · rintro ⟨hall, hfences⟩
    refine ⟨nodup_fenceIds ?_, hall, fun f hf f' hf' heq => hfences f hf (heq ▸ hf')⟩
    cases segments with
    | nil => exact hall
    | cons seg rest =>
      rw [allIds_cons] at hall
      exact (nodup_append.mp hall).2.1

/-! ## Digits -/

/-- No planned step is called `fixture_release`: its id has the number of its scenario. -/
def HasDigit (s : String) : Prop := s.toList.any Char.isDigit = true

theorem hasDigit_iff (s : String) : HasDigit s ↔ ∃ c ∈ s.toList, c.isDigit = true := any_eq_true

theorem HasDigit.append {s : String} (h : HasDigit s) (t : String) : HasDigit (s ++ t) := by
  rw [HasDigit, String.toList_append, any_append, h]
  rfl

section Digits

variable {py : Python} {binds : Bindings} {includeDraft : Bool}

theorem hasDigit_slug {s : String} (h : HasDigit s) : HasDigit (slug py s) := by
  obtain ⟨c, hc, hd⟩ := (hasDigit_iff s).mp h
  have hmem : c ∈ s.toList.map fun ch => if py.isAlnum ch || slugKeep.contains ch then ch else '_' :=
    mem_map.mpr ⟨c, hc, by simp [py.isAlnum_digit c hd]⟩
  have hout : HasDigit (.ofList (s.toList.map fun ch => if py.isAlnum ch || slugKeep.contains ch then ch else '_')) :=
    (hasDigit_iff _).mpr ⟨c, by simpa using hmem, hd⟩
  unfold slug
  simp only
  split
  · next hempty =>
    rw [hempty] at hout
    cases hout
  · exact hout

theorem hasDigit_stepBase (model : RequirementModel) (scen : ScenarioModel) (segIndex : Nat) :
    HasDigit (stepBase py model scen segIndex) := by
  refine hasDigit_slug ?_
  obtain ⟨c, hc⟩ := exists_mem_of_ne_nil _ (Nat.toDigits_ne_nil (b := 10) (n := segIndex))
  exact (hasDigit_iff _).mpr ⟨c, by simp [pad3, hc], Json.isDigit_of_mem_toDigits hc⟩

theorem hasDigit_planScenario (segIndex : Nat) (model : RequirementModel) (scen : ScenarioModel) (prevId : Option String)
    (applied : List (String × String)) :
    ∀ s ∈ (planScenario py binds includeDraft segIndex model scen prevId applied).steps, HasDigit s.id := by
  refine planScenario_induct (P := fun steps _ => ∀ s ∈ steps, HasDigit s.id) (by simp) ?_
  intro steps _ side b cl tail _ h
  exact forall_mem_append.mpr ⟨h, forall_mem_singleton.mpr ((hasDigit_stepBase model scen segIndex).append _)⟩

theorem hasDigit_planned {bundle : BundleModel} {seg : Segment}
    (hseg : seg ∈ plannedSegments py binds includeDraft bundle) : ∀ s ∈ seg.steps, HasDigit s.id := by
  obtain ⟨e, -, segIndex, hsteps, -⟩ := mem_plannedSegments hseg
  rw [hsteps]
  refine foldlRecOn (motive := fun st : SegmentState => ∀ s ∈ st.steps, HasDigit s.id) e.2 _ (by simp)
    fun st h item _ => ?_
  unfold addScenario
  simp only
  split
  · exact h
  · intro s hs
    rcases mem_append.mp hs with hs | hs
    · exact h s hs
    · exact hasDigit_planScenario _ _ _ _ _ s hs

theorem hasDigit_planFlow (py : Python) (binds : Bindings) (includeDraft : Bool) (bundle : BundleModel) :
    ∀ id ∈ allIds (planFlow py binds includeDraft bundle).segments, HasDigit id := by
  intro id hid
  obtain ⟨done, seg, hseg, st, hst, rfl⟩ := mem_allIds_planFlow hid
  have hdigit := hasDigit_planned hseg st hst
  unfold name
  split
  · exact hdigit
  · exact (hdigit.append _).append _

end Digits

/-! ## Well-formed sequences -/

structure FlowPlan.WellFormed (plan : FlowPlan) : Prop where
  distinct : (allIds plan.segments).Nodup
  earlier : ∀ before e after, plan.toYaml = before ++ e :: after → ∀ d ∈ e.dependsOn, d ∈ before.map (·.id)
  acyclic : Kahn.Acyclic (Chain.edges (nodes plan.toYaml))

section WellFormed

variable (py : Python) (binds : Bindings) (includeDraft : Bool) (bundle : BundleModel)

def emitted (plan : FlowPlan) : List Emitted :=
  emittedSegments none plan.segments ++ emittedRelease (lastOf none (nodes (emittedSegments none plan.segments)))

theorem chain_planFlow :
    (Linked none (nodes (emitted (planFlow py binds includeDraft bundle))) ↔
        RepeatAtEnds (plannedSegments py binds includeDraft bundle)) ∧
      Forward [] none (nodes (emitted (planFlow py binds includeDraft bundle))) := by
  have hplanned : ∀ seg ∈ plannedSegments py binds includeDraft bundle, Chained none seg.steps := by
    intro seg hseg
    obtain ⟨e, -, segIndex, hsteps, -⟩ := mem_plannedSegments hseg
    exact hsteps ▸ (sound_planBucket segIndex e.2).chained
  obtain ⟨hlinked, hforward, hlast, -⟩ := chain_segments rfl hplanned (show none ≠ some "" by simp)
  rw [nil_append, ← planFlow_segments] at hlinked hforward hlast
  have hrelease : ∀ {last : Option String}, last ≠ some "" →
      Linked last (nodes (emittedRelease last)) ∧ Forward [] last (nodes (emittedRelease last)) := by
    intro last hlast
    unfold emittedRelease
    split
    · exact ⟨trivial, trivial⟩
    · rw [lastDeps_eq hlast]
      exact ⟨⟨rfl, trivial⟩, names_toList _ _ _, trivial⟩
  simp only [emitted, nodes_append]
  generalize (planFlow py binds includeDraft bundle).segments = segments at *
  constructor
  · rw [linked_append, hlinked]
    exact and_iff_left (hrelease hlast).1
  · rw [forward_append]
    exact ⟨hforward.mono (nil_subset _), (hrelease hlast).2⟩

theorem nodup_planFlow :
    ((emitted (planFlow py binds includeDraft bundle)).map (·.id)).Nodup ↔
      (allIds (planFlow py binds includeDraft bundle).segments).Nodup ∧
        ∀ f ∈ fenceIds (planFlow py binds includeDraft bundle).segments.tail,
          f ∉ allIds (planFlow py binds includeDraft bundle).segments := by
  have hdigit := hasDigit_planFlow py binds includeDraft bundle
  have hids := ids_emittedSegments_none fun seg (hseg : seg ∈ (planFlow py binds includeDraft bundle).segments) =>
    planFlow_named hseg
  rw [emitted, ← nodup_fences_append]
  generalize (planFlow py binds includeDraft bundle).segments = segments at *
  have hfresh : "fixture_release" ∉ fenceIds segments.tail ++ allIds segments := by
    intro hmem
    rcases mem_append.mp hmem with hmem | hmem
    · obtain ⟨id, -, heq⟩ := exists_of_mem_fenceIds hmem
      have := congrArg (fun s => s.toList.head?) heq
      simp at this
    · exact absurd (hdigit _ hmem) (by simp [HasDigit])
  rw [map_append, (hids.append_right _).nodup_iff, nodup_append]
  unfold emittedRelease
  split
  · simp
  · simp only [map_cons, map_nil, nodup_singleton, mem_singleton, true_and, forall_eq]
    exact and_iff_left fun id hid (heq : id = "fixture_release") => hfresh (heq ▸ hid)

theorem mem_of_lastOf {ns : List (Node String)} {x : String} (h : lastOf none ns = some x) : x ∈ ids ns :=
  mem_of_getLast? (by simpa [lastOf] using h)

/-- No id is that of a fence, where `done` were built before the segments. -/
def FencesNew (all done : List String) (segments : List Segment) : Prop :=
  ∀ before seg after, segments = before ++ seg :: after → seg.destructive = true →
    "recover_before_" ++ name (done ++ allIds before) (seg.steps.head seg.nonempty).id ∉ numbered [] all

theorem fenceId?_final (all done : List String) (seg : Segment) : fenceId? (seg.final all done) =
    if seg.destructive then some ("recover_before_" ++ name done (seg.steps.head seg.nonempty).id) else none := by
  obtain ⟨signature, index, steps, destructive, hne⟩ := seg
  cases steps with
  | nil => exact absurd rfl hne
  | cons st rest => rfl

theorem fencesNew_iff (all done : List String) (segments : List Segment) :
    FencesNew all done segments ↔ ∀ f ∈ fenceIds (finalSegments all done segments), f ∉ numbered [] all := by
  induction segments generalizing done with
  | nil => simp [FencesNew, finalSegments, fenceIds]
  | cons seg rest ih =>
    rw [finalSegments, fenceIds_cons, forall_mem_append, ← ih, fenceId?_final]
    constructor
    · intro h
      refine ⟨fun f hf => ?_, fun before seg' after hsplit hd => ?_⟩
      · split at hf
        · next hd =>
          obtain rfl := mem_singleton.mp hf
          simpa using h [] seg rest rfl hd
        · cases hf
      · simpa using h (seg :: before) seg' after (by rw [hsplit, cons_append]) hd
    · rintro ⟨hseg, hrest⟩ before seg' after hsplit hd
      cases before with
      | nil =>
        obtain ⟨rfl, rfl⟩ := List.cons.inj hsplit
        simpa using hseg _ (by rw [if_pos hd]; exact mem_singleton_self _)
      | cons first before =>
        obtain ⟨rfl, rfl⟩ := List.cons.inj hsplit
        simpa using hrest before seg' after rfl hd

theorem fences_planFlow : (∀ first rest, plannedSegments py binds includeDraft bundle = first :: rest →
    FencesNew (allIds (first :: rest)) (idsOf first.steps) rest) ↔
      ∀ f ∈ fenceIds (planFlow py binds includeDraft bundle).segments.tail,
        f ∉ allIds (planFlow py binds includeDraft bundle).segments := by
  rw [planFlow_segments, allIds_finalSegments]
  cases plannedSegments py binds includeDraft bundle with
  | nil => simp [finalSegments, fenceIds]
  | cons first rest => simp [fencesNew_iff, finalSegments]

/-- Ids come again only after the last step of a segment, and none looks numbered or like a fence. No fence is written
before the first segment. -/
theorem planFlow_wellFormed_iff :
    (planFlow py binds includeDraft bundle).WellFormed ↔
      RepeatAtEnds (plannedSegments py binds includeDraft bundle) ∧
        (∀ x n, 0 < n → n < (allIds (plannedSegments py binds includeDraft bundle)).count x →
          suffixed x n ∉ allIds (plannedSegments py binds includeDraft bundle)) ∧
        ∀ first rest, plannedSegments py binds includeDraft bundle = first :: rest →
          FencesNew (allIds (first :: rest)) (idsOf first.steps) rest := by
  have hids := numbered_nodup_iff (allIds (plannedSegments py binds includeDraft bundle))
  rw [← allIds_finalSegments (allIds (plannedSegments py binds includeDraft bundle)), ← planFlow_segments] at hids
  obtain ⟨hlinked, hforward⟩ := chain_planFlow py binds includeDraft bundle
  have hnodup := nodup_planFlow py binds includeDraft bundle
  have hacyclic := hforward.acyclic_iff
  rw [ids_nodes] at hacyclic
  rw [fences_planFlow, ← hids, ← hnodup, ← hlinked, ← hacyclic]
  generalize planFlow py binds includeDraft bundle = plan at *
  have hyaml : plan.toYaml = .clamp :: emitted plan := toYaml_eq plan
  have hedges : edges (nodes plan.toYaml) = edges (nodes (emitted plan)) := by
    rw [hyaml]
    rfl
  constructor
  · intro h
    exact hedges ▸ h.acyclic
  · intro h
    refine ⟨(hnodup.mp (hacyclic.mp h).2).1, fun before e after hsplit d hd => ?_, hedges ▸ h⟩
    rw [hyaml] at hsplit
    cases before with
    | nil =>
      obtain ⟨rfl, -⟩ := List.cons.inj hsplit
      cases hd
    | cons first before =>
      have hsplit : emitted plan = before ++ e :: after := (List.cons.inj hsplit).2
      have hlink := (hacyclic.mp h).1
      rw [hsplit, nodes_append, linked_append] at hlink
      have hdeps : e.dependsOn = (lastOf none (nodes before)).toList := hlink.2.1
      rw [hdeps, mem_toList] at hd
      have hmem := mem_of_lastOf hd
      rw [ids_nodes] at hmem
      exact List.mem_cons_of_mem _ hmem

end WellFormed

def slugBundle : BundleModel := .pa601 [
    { requirementCode := "A/B"
      title := "supply voltage"
      outputConditions := [voltageClause "12 V"]
      scenarios := [{ scenarioId := "A/B-1", seq := 1 }] },
    { requirementCode := "A_B"
      title := "standby voltage"
      outputConditions := [voltageClause "5 V"]
      scenarios := [{ scenarioId := "A_B-1", seq := 1 }] }]

def slugBindings : Bindings :=
  .ofList [(("voltage", .output), { action := "measure_voltage", setupGroup := "measurement" })]

/-- The second step depends on itself. -/
theorem not_wellFormed_slugBundle : ¬ (planFlow compactPython slugBindings false slugBundle).WellFormed := by
  intro h
  have hself := h.earlier [_, _] _ _ rfl "A_B_s001_g000_m_voltage_d1" (by decide)
  revert hself
  decide

end AteStudio.Planner
