import AteStudio.Compiler.Emit
import AteStudio.Compiler.Lookup

/-!
# What `compile` returns and raises

A compiled plan has distinct ids, its references name its own nodes and its dependencies have
no cycle.
-/

namespace AteStudio.Compiler

open List

/-! ## One node -/

variable {st : Tables} {frames : Frames}

theorem resolveTarget_ok_iff {t e : String} :
    resolveTarget st frames t = .ok e ↔ lookupTarget st frames t = some e := by
  unfold resolveTarget
  cases lookupTarget st frames t <;> simp

theorem resolveTargets_ok_iff {ts r : List String} :
    resolveTargets st frames ts = .ok r ↔
      List.Forall₂ (fun t e => lookupTarget st frames t = some e) ts r := by
  unfold resolveTargets
  simp only [mapM_eq_ok_iff, resolveTarget_ok_iff]

variable {err : CompileError}

theorem resolveTargets_error {ts : List String}
    (h : resolveTargets st frames ts = .error err) : err.isValueError = true := by
  obtain ⟨t, _, ht⟩ := mapM_eq_error h
  unfold resolveTarget at ht
  split at ht <;> cases ht
  rfl

theorem resolveReferenceList_ok {v : PyVal} {r : List String}
    (h : resolveReferenceList st frames v = .ok r) {x : String} (hx : x ∈ r) :
    ∃ t, lookupTarget st frames t = some x := by
  unfold resolveReferenceList at h
  split at h
  · obtain ⟨t, _, ht⟩ := Forall₂.exists_left (resolveTargets_ok_iff.mp h) hx
    exact ⟨t, ht⟩
  · cases h

theorem resolveReferenceList_error {v : PyVal} (h : resolveReferenceList st frames v = .error err) :
    err.isValueError = true ∨ err = .typeError ∧ v.iter? = none := by
  unfold resolveReferenceList at h
  split at h
  · exact .inl (resolveTargets_error h)
  · cases h
    exact .inr ⟨rfl, ‹_›⟩

def BadBranch : Leaf → Prop
  | .step s => s.type = some .branch ∧
      ((s.params.getD "then" (.list [])).iter? = none ∨ (s.params.getD "else" (.list [])).iter? = none)
  | .deferred _ => False

structure NodeSpec (st : Tables) (p : List Frame) (inherited : List String) (leaf : Leaf)
    (node : CompiledStep) : Prop where
  id : node.id = idAt p leaf.id
  dependsOn : resolveTargets st (framesOf p) (orElse leaf.dependsOn inherited) = .ok node.dependsOn
  branches : ∀ x ∈ node.thenIds ++ node.elseIds, ∃ t, lookupTarget st (framesOf p) t = some x

variable {node : CompiledStep} {p : List Frame}

theorem emitLeaf_ok {inherited : List String} {leaf : Leaf} (h : emitLeaf st p inherited leaf = .ok node) :
    NodeSpec st p inherited leaf node := by
  cases leaf with
  | deferred l =>
    simp only [emitLeaf, emitDeferred, bind_eq_ok, pure_eq_ok] at h
    obtain ⟨deps, hd, rfl⟩ := h
    exact ⟨rfl, hd, by simp⟩
  | step s =>
    simp only [emitLeaf, emitStep, bind_eq_ok] at h
    obtain ⟨deps, hd, h⟩ := h
    split at h
    · simp only [bind_eq_ok, pure_eq_ok] at h
      obtain ⟨thenIds, ht, elseIds, he, rfl⟩ := h
      refine ⟨rfl, hd, fun x hx => ?_⟩
      rcases mem_append.mp hx with hx | hx
      · exact resolveReferenceList_ok ht hx
      · exact resolveReferenceList_ok he hx
    · rw [pure_eq_ok] at h
      subst h
      exact ⟨rfl, hd, by simp⟩

theorem emitLeaf_error {inherited : List String} {leaf : Leaf} (h : emitLeaf st p inherited leaf = .error err) :
    err.isValueError = true ∨ err = .typeError ∧ BadBranch leaf := by
  cases leaf with
  | deferred l =>
    rcases bind_eq_error.mp h with h | ⟨_, _, h⟩
    · exact .inl (resolveTargets_error h)
    · cases h
  | step s =>
    rcases bind_eq_error.mp h with h | ⟨_, _, h⟩
    · exact .inl (resolveTargets_error h)
    simp only at h
    split at h
    · rename_i hb
      rcases bind_eq_error.mp h with h | ⟨_, _, h⟩
      · rcases resolveReferenceList_error h with h | ⟨h, hv⟩
        · exact .inl h
        · exact .inr ⟨h, hb, .inl hv⟩
      rcases bind_eq_error.mp h with h | ⟨_, _, h⟩
      · rcases resolveReferenceList_error h with h | ⟨h, hv⟩
        · exact .inl h
        · exact .inr ⟨h, hb, .inr hv⟩
      · cases h
    · cases h

theorem inheritedAt_error (h : inheritedAt st p = .error err) : err.isValueError = true := by
  unfold inheritedAt at h
  split at h
  · exact resolveTargets_error h
  · cases h

theorem nodeOf_ok {o : Occ} (h : nodeOf st o = .ok node) :
    ∃ inherited, inheritedAt st o.path = .ok inherited ∧ NodeSpec st o.path inherited o.leaf node := by
  unfold nodeOf at h
  obtain ⟨inherited, hi, h⟩ := bind_eq_ok.mp h
  exact ⟨inherited, hi, emitLeaf_ok h⟩

theorem nodeOf_error {o : Occ} (h : nodeOf st o = .error err) :
    err.isValueError = true ∨ err = .typeError ∧ BadBranch o.leaf := by
  unfold nodeOf at h
  rcases bind_eq_error.mp h with h | ⟨_, _, h⟩
  · exact .inl (inheritedAt_error h)
  · exact emitLeaf_error h

/-! ## Both passes -/

variable {plan : YamlPlan}

theorem expand_eq (h : anyReachesRaw plan.steps = false) :
    expand plan = emitAt (assignPlan plan.steps) [] [] plan.steps := by
  unfold expand emitAt
  rw [h]
  rfl

variable {nodes : List CompiledStep}

section

variable (h : expand plan = .ok nodes)

include h

theorem expand_ok :
    List.Forall₂ (fun o node => nodeOf (assignPlan plan.steps) o = .ok node) (occs plan.steps) nodes := by
  have hraw : anyReachesRaw plan.steps = false := by
    unfold expand at h
    split at h
    · cases h
    · rename_i hr
      simpa using hr
  rw [expand_eq hraw, emitAt_ok_iff _ _ _ _ _ (inheritedAt_nil _)] at h
  exact h.2

theorem expand_ids : nodes.map (·.id) = (occs plan.steps).map Occ.id := by
  have hall : List.Forall₂ (fun o node => o.id = CompiledStep.id node) (occs plan.steps) nodes :=
    (expand_ok h).imp fun o node hn => by
      obtain ⟨_, _, hs⟩ := nodeOf_ok hn
      exact hs.id.symm
  rw [← List.forall₂_eq_eq_eq, List.forall₂_map_left_iff, List.forall₂_map_right_iff]
  exact hall.flip.imp fun _ _ => Eq.symm

theorem lookup_mem_ids {t e : String} (ht : lookupTarget (assignPlan plan.steps) frames t = some e) :
    e ∈ nodes.map (·.id) := by
  obtain ⟨o, ho, rfl, _⟩ := lookup_sound ht
  rw [expand_ids h]
  exact mem_map_of_mem ho

theorem expand_closed (hn : node ∈ nodes) {x : String}
    (hx : x ∈ node.dependsOn ++ node.thenIds ++ node.elseIds) : x ∈ nodes.map (·.id) := by
  obtain ⟨o, _, ho⟩ := Forall₂.exists_left (expand_ok h) hn
  obtain ⟨_, _, hs⟩ := nodeOf_ok ho
  rw [append_assoc, mem_append] at hx
  rcases hx with hx | hx
  · obtain ⟨t, _, ht⟩ := Forall₂.exists_left (resolveTargets_ok_iff.mp hs.dependsOn) hx
    exact lookup_mem_ids h ht
  · obtain ⟨t, ht⟩ := hs.branches x hx
    exact lookup_mem_ids h ht

end

theorem expand_error (hraw : anyReachesRaw plan.steps = false) (h : expand plan = .error err) :
    err.isValueError = true ∨ err = .typeError ∧ ∃ o ∈ occs plan.steps, BadBranch o.leaf := by
  rw [expand_eq hraw] at h
  rcases emitAt_error _ _ _ _ (inheritedAt_nil _) h with ⟨c, _, hc⟩ | ⟨o, ho, hn⟩
  · exact .inl (resolveTargets_error hc)
  · rcases nodeOf_error hn with h | ⟨h, hb⟩
    · exact .inl h
    · exact .inr ⟨h, o, ho, hb⟩

/-! ## The cycle check -/

section

variable (h : ∀ node ∈ nodes, ∀ x ∈ node.dependsOn, x ∈ nodes.map (·.id))

include h

theorem depEdges_closed : ∀ e ∈ depEdges nodes, e.1 ∈ nodes.map (·.id) ∧ e.2 ∈ nodes.map (·.id) := by
  intro e he
  unfold depEdges at he
  obtain ⟨node, hn, he⟩ := mem_flatMap.mp he
  obtain ⟨dep, hd, rfl⟩ := mem_map.mp he
  exact ⟨h node hn dep hd, mem_map_of_mem hn⟩

theorem checkCycles_cases : (¬ (nodes.map (·.id)).Nodup ∧ ∃ dup, checkCycles nodes = .error (.duplicateIds dup)) ∨
    ((nodes.map (·.id)).Nodup ∧ Kahn.Acyclic (depEdges nodes) ∧ checkCycles nodes = .ok ()) ∨
    ((nodes.map (·.id)).Nodup ∧ ¬ Kahn.Acyclic (depEdges nodes) ∧
      ∃ cyclic, checkCycles nodes = .error (.circularDependency cyclic)) := by
  have hclosed := depEdges_closed h
  unfold checkCycles
  by_cases hnd : (nodes.map (·.id)).Nodup
  · have hfind : (depEdges nodes).find? (fun e => e.1 ∉ nodes.map (·.id)) = none := by
      rw [find?_eq_none]
      intro e he
      simpa using (hclosed e he).1
    simp only [hnd, if_true, hfind]
    generalize hstart : ((nodes.map (·.id)).filter fun id =>
      decide (Kahn.indegree (depEdges nodes) id = 0)).insertionSort (· ≤ ·) = start
    have hkahn := Kahn.run_length_iff hnd
      (show start.Nodup from hstart ▸ (perm_insertionSort _ _).nodup_iff.mpr (hnd.filter _)) hclosed (by
        intro y
        rw [← hstart, (perm_insertionSort _ _).mem_iff]
        simp)
    by_cases hac : Kahn.Acyclic (depEdges nodes)
    · exact .inr (.inl ⟨trivial, hac, by rw [if_neg (not_not.mpr (hkahn.mpr hac))]⟩)
    · exact .inr (.inr ⟨trivial, hac, _, by rw [if_pos (mt hkahn.mp hac)]⟩)
  · simp [hnd]

end

theorem compile_ok_iff :
    compile plan = .ok nodes ↔
      expand plan = .ok nodes ∧ (nodes.map (·.id)).Nodup ∧ Kahn.Acyclic (depEdges nodes) := by
  unfold compile
  simp only [bind_eq_ok, pure_eq_ok]
  constructor
  · rintro ⟨nodes', he, _, hc, rfl⟩
    rcases checkCycles_cases fun node hn x hx => expand_closed he hn (by simp [hx]) with
      ⟨_, _, h⟩ | ⟨hnd, hac, _⟩ | ⟨_, _, _, h⟩
    · rw [h] at hc; cases hc
    · exact ⟨he, hnd, hac⟩
    · rw [h] at hc; cases hc
  · rintro ⟨he, hnd, hac⟩
    refine ⟨nodes, he, (), ?_, rfl⟩
    rcases checkCycles_cases fun node hn x hx => expand_closed he hn (by simp [hx]) with
      ⟨h, _⟩ | ⟨_, _, h⟩ | ⟨_, h, _⟩
    · exact absurd hnd h
    · exact h
    · exact absurd hac h

/-! ## Soundness -/

structure WellCompiled (nodes : List CompiledStep) : Prop where
  ids : (nodes.map (·.id)).Nodup
  closed : ∀ node ∈ nodes, ∀ x ∈ node.dependsOn ++ node.thenIds ++ node.elseIds, x ∈ nodes.map (·.id)
  acyclic : Kahn.Acyclic (depEdges nodes)

def loopPlan : YamlPlan :=
  { name := "plan", version := "1", steps := [
    .loop { id := "L", loopType := .forLoop, count := some 2 } [.leaf { id := "x" }],
    .leaf { id := "y", dependsOn := ["L"] }] }

/-- One node for each leaf of the unrolled plan, in its order, from its own place in the plan. -/
theorem compile_unrolls (h : compile plan = .ok nodes) :
    List.Forall₂ (fun o node => node.id = o.id ∧ nodeOf (assignPlan plan.steps) o = .ok node) (occs plan.steps) nodes := by
  refine (expand_ok (compile_ok_iff.mp h).1).imp fun o node hnode => ⟨?_, hnode⟩
  obtain ⟨_, _, hspec⟩ := nodeOf_ok hnode
  exact hspec.id

theorem compile_unrolls_loopPlan : ∃ nodes, compile loopPlan = .ok nodes ∧
    List.Forall₂ (fun o node => node.id = o.id ∧ nodeOf (assignPlan loopPlan.steps) o = .ok node)
      (occs loopPlan.steps) nodes :=
  ⟨_, rfl, compile_unrolls rfl⟩

/-- `then:` without a value, which YAML reads as null. -/
def nullBranchPlan : YamlPlan :=
  { name := "plan", version := "1", steps := [
    .leaf { id := "b", type := some .branch, params := (∅ : Dict String PyVal).set "then" .none }] }

end AteStudio.Compiler
