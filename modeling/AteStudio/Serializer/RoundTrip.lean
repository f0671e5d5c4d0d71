import AteStudio.Lib.Forest
import AteStudio.Serializer.Fields

/-!
# A graph is read back as it was written

The nodes of a well-formed graph are a forest in preorder.
-/

namespace AteStudio.Serializer

open Forest List

/-! ## Graphs -/

structure GraphNode.Same (a b : GraphNode) : Prop where
  id : a.id = b.id
  parent : a.parent = b.parent
  data : ∀ k, Option.Rel PyVal.Same (a.data.get? k) (b.data.get? k)

def Siblings (g : SequenceGraph) : Prop :=
  ∀ e ∈ g.edges, ∃ a ∈ g.nodes, ∃ b ∈ g.nodes, a.id = e.source ∧ b.id = e.target ∧ a.parent = b.parent

structure WellFormed (g : SequenceGraph) : Prop where
  distinct : (g.nodes.map GraphNode.id).Nodup
  named : ∀ n ∈ g.nodes, n.data.get? "id" = some (.str n.id)
  fields : ∀ n ∈ g.nodes, HasFields stepFields n.data ∨ HasFields loopFields n.data
  loops : ∀ n ∈ g.nodes, ∀ child ∈ g.nodes, child.parent = some n.id → n.data.contains "loop_type" = true
  nested : Nested GraphNode.id GraphNode.parent g.nodes
  siblings : Siblings g
  bare : ∀ e ∈ g.edges, e.data = ∅

def sources (g : SequenceGraph) (target : String) : List String :=
  (g.edges.filter fun e => e.target = target).map GraphEdge.source

def inEdges (g : SequenceGraph) (n : GraphNode) : List GraphEdge :=
  ((sources g n.id).insertionSort (· ≤ ·)).map fun s => { source := s, target := n.id }

variable {g : SequenceGraph}

theorem childDepMap_eq (hdistinct : (g.nodes.map GraphNode.id).Nodup) (hsiblings : Siblings g)
    {id : String} {n : GraphNode} (hn : n ∈ childNodes g id) :
    (childDepMap g (childNodes g id)).getD n.id [] = sources g n.id := by
  unfold childDepMap sources
  rw [getD_depMap, filter_filter]
  congr 1
  apply filter_congr
  intro e he
  simp only [decide_eq_decide, Bool.and_eq_decide, decide_eq_true_eq]
  refine and_iff_left_of_imp ?_
  intro htarget
  obtain ⟨a, ha, b, hb, hsource, hb', hparent⟩ := hsiblings e he
  have hn' : n ∈ g.nodes ∧ n.parent = some id := by simpa [childNodes] using hn
  obtain rfl : b = n := inj_on_of_nodup_map hdistinct hb hn'.1 (hb'.trans htarget)
  have hsibling : a ∈ childNodes g id := by simp [childNodes, ha, hparent, hn'.2]
  exact ⟨hsource ▸ mem_map_of_mem hsibling, htarget ▸ mem_map_of_mem hn⟩

/-! ## One entry -/

theorem mapM_str (xs : List String) : xs.mapM (PyVal.str? ∘ PyVal.str) = some xs := by
  induction xs with
  | nil => rfl
  | cons x xs ih => simp [PyVal.str?, ih]

section Entry

variable {d : Dict String PyVal} {id : String} {dependsOn : List String}

section

variable (parent : Option String) (hid : d.get? "id" = some (.str id))
  (hdeps : d.get? "depends_on" = some (stringList dependsOn))

include hid hdeps

theorem yamlToEntry_eq : yamlToEntry d.toPy parent =
      some (⟨id, if (d.get? "loop_type").isSome then yamlToLoopData d.toPy else yamlToStepData d.toPy, parent⟩,
        dependsOn.map fun s => { source := s, target := id }) := by
  simp [yamlToEntry, PyVal.getD, hid, hdeps, PyVal.str?, stringList, PyVal.iter?, mapM_str]

theorem yamlToNode_of_step (htype : d.get? "loop_type" = none) : yamlToNode d.toPy parent =
      some ([⟨id, yamlToStepData d.toPy, parent⟩], dependsOn.map fun s => { source := s, target := id }) := by
  have hentry := yamlToEntry_eq parent hid hdeps
  rw [htype] at hentry
  rw [← d.get?_toPy] at htype
  unfold Dict.toPy at *
  simp [yamlToNode, hentry, htype]

theorem yamlToNode_of_loop {v : PyVal} (htype : d.get? "loop_type" = some v)
    {nodes : List GraphNode} {edges : List GraphEdge}
    (hnested : stepsOf (d.get? "steps") (some id) = some (nodes, edges)) :
    yamlToNode d.toPy parent = some (⟨id, yamlToLoopData d.toPy, parent⟩ :: nodes,
      (dependsOn.map fun s => { source := s, target := id }) ++ edges) := by
  have hentry := yamlToEntry_eq parent hid hdeps
  rw [htype] at hentry
  rw [← d.get?_toPy] at htype hnested
  unfold Dict.toPy at *
  rw [← nestedSteps_eq] at hnested
  simp [yamlToNode, hentry, htype, hnested]

end

end Entry

section Node

variable {a : GraphNode} (hid : a.data.get? "id" = some (.str a.id)) (dependsOn : List String)

include hid

theorem read_step (hdata : HasFields stepFields a.data) :
    ∃ a', yamlToNode (stepToYaml a dependsOn).toPy a.parent =
      some ([a'], dependsOn.map fun s => { source := s, target := a.id }) ∧ a.Same a' := by
  obtain ⟨hid', _, hdeps, htype⟩ := get?_stepToYaml_head a dependsOn
  rw [Dict.getD, hid, Option.getD_some] at hid'
  exact ⟨_, yamlToNode_of_step a.parent hid' hdeps htype, rfl, rfl,
    readFields_same (by decide) hdata (step_fields hdata dependsOn)⟩

theorem read_loop (hdata : HasFields loopFields a.data) {d : Dict String PyVal}
    (hhead : ∀ k, k ≠ "steps" → d.get? k = (loopHead a dependsOn).get? k) {nodes : List GraphNode}
    {edges : List GraphEdge} (hnested : stepsOf (d.get? "steps") (some a.id) = some (nodes, edges)) :
    ∃ a', yamlToNode d.toPy a.parent =
      some (a' :: nodes, (dependsOn.map fun s => { source := s, target := a.id }) ++ edges) ∧ a.Same a' := by
  obtain ⟨hid', htype, hdeps, _⟩ := get?_loopHead_head a dependsOn
  rw [Dict.getD, hid, Option.getD_some] at hid'
  rw [← hhead _ (by decide)] at hid' htype hdeps
  refine ⟨_, yamlToNode_of_loop a.parent hid' hdeps htype hnested, rfl, rfl, readFields_same (by decide) hdata ?_⟩
  intro f hf v hv
  have hsteps : ∀ f ∈ loopFields, f.1 ≠ "steps" := by simp [loopFields]
  rw [PyVal.getD, Dict.get?_toPy, hhead _ (hsteps f hf)]
  exact loop_fields hdata dependsOn f hf v hv

end Node

/-! ## One scope -/

section Scope

variable {g : SequenceGraph} (h : WellFormed g)

include h

theorem WellFormed.loop_iff {a : GraphNode} (ha : a ∈ g.nodes) :
    (a.data.contains "loop_type" = true ∧ HasFields loopFields a.data) ∨
      (a.data.contains "loop_type" = false ∧ HasFields stepFields a.data) := by
  rcases h.fields a ha with hstep | hloop
  · exact .inr ⟨hstep.get?_isSome "loop_type", hstep⟩
  · exact .inl ⟨hloop.get?_isSome "loop_type", hloop⟩

end Scope

def ReadsBack (g : SequenceGraph) (p : Option String) (part : List GraphNode) : Prop :=
  ∀ (fuel : Nat) (deps : Dict String (List String)), part.length ≤ fuel →
    (∀ n ∈ part, n.parent = p → deps.getD n.id [] = sources g n.id) →
    ∃ entries nodes, (childrenOf GraphNode.parent part p).mapM (fun n => nodeToYaml g fuel n deps) = some entries ∧
      yamlToNodes entries p = some (nodes, part.flatMap (inEdges g)) ∧ List.Forall₂ GraphNode.Same part nodes

section ReadsBack

variable {g : SequenceGraph} {a : GraphNode} {body : List GraphNode}

theorem ReadsBack.eq_nil {p : Option String} (hbody : ReadsBack g p body)
    (h : childrenOf GraphNode.parent body p = []) : body = [] := by
  have hdeps : ∀ n ∈ body, n.parent = p → (∅ : Dict String (List String)).getD n.id [] = sources g n.id := by
    intro n hn hp
    exact absurd (mem_childrenOf.mpr ⟨hn, hp⟩) (by simp [h])
  obtain ⟨entries, nodes, hwrite, hread, hsame⟩ := hbody body.length ∅ le_rfl hdeps
  rw [h, mapM_nil] at hwrite
  cases hwrite
  rw [yamlToNodes] at hread
  obtain ⟨rfl, -⟩ := Prod.mk.inj (Option.some.inj hread)
  exact List.forall₂_nil_right_iff.mp hsame

theorem ReadsBack.node (h : WellFormed g) (ha : a ∈ g.nodes)
    (hchildren : childNodes g a.id = childrenOf GraphNode.parent body (some a.id))
    (hbody : ReadsBack g (some a.id) body) {fuel : Nat} (hfuel : body.length ≤ fuel)
    {deps : Dict String (List String)} (hdeps : deps.getD a.id [] = sources g a.id) :
    ∃ entry a' nodes, nodeToYaml g (fuel + 1) a deps = some entry ∧
      yamlToNode entry a.parent = some (a' :: nodes, inEdges g a ++ body.flatMap (inEdges g)) ∧
      a.Same a' ∧ List.Forall₂ GraphNode.Same body nodes := by
  have hid := h.named a ha
  have hnil (hempty : childNodes g a.id = []) : body = [] := hbody.eq_nil (hchildren ▸ hempty)
  unfold nodeToYaml
  simp only [hdeps]
  rcases h.loop_iff ha with ⟨hloop, hdata⟩ | ⟨hloop, hdata⟩
  · rw [if_pos hloop]
    unfold loopToYaml
    by_cases hempty : childNodes g a.id = []
    · obtain rfl := hnil hempty
      have hsteps := (get?_loopHead_head a ((sources g a.id).insertionSort (· ≤ ·))).2.2.2
      obtain ⟨a', hread, hsame⟩ := read_loop hid _ hdata (fun _ _ => rfl) (by rw [hsteps]; rfl)
      exact ⟨_, a', [], by rw [hempty]; rfl, by simpa [inEdges] using hread, hsame, .nil⟩
    · have hchild : ∀ n ∈ body, n.parent = some a.id →
          (childDepMap g (childNodes g a.id)).getD n.id [] = sources g n.id := by
        intro n hn hp
        exact childDepMap_eq h.distinct h.siblings (hchildren ▸ mem_childrenOf.mpr ⟨hn, hp⟩)
      obtain ⟨entries, nodes, hwrite, hread, hsame⟩ := hbody fuel _ hfuel hchild
      rw [← hchildren] at hwrite
      obtain ⟨a', hread', hsame'⟩ := read_loop hid ((sources g a.id).insertionSort (· ≤ ·)) hdata
        (fun k hk => Dict.get?_set_of_ne _ (PyVal.list entries) hk)
        (by rw [Dict.get?_set_self, stepsOf, yamlSteps, hread])
      exact ⟨_, a', nodes, by rw [if_neg (by simpa using hempty), hwrite]; rfl, hread', hsame', hsame⟩
  · have hempty : childNodes g a.id = [] := by
      by_contra hne
      obtain ⟨child, hchild⟩ := exists_mem_of_ne_nil _ hne
      have hchild' : child ∈ g.nodes ∧ child.parent = some a.id := by simpa [childNodes] using hchild
      exact absurd (h.loops a ha child hchild'.1 hchild'.2) (by simp [hloop])
    obtain rfl := hnil hempty
    obtain ⟨a', hread, hsame⟩ := read_step hid ((sources g a.id).insertionSort (· ≤ ·)) hdata
    exact ⟨_, a', [], by rw [if_neg (by simp [hloop])], by simpa [inEdges] using hread, hsame, .nil⟩

end ReadsBack

theorem WellFormed.readsBack (h : WellFormed g) : ReadsBack g none g.nodes := by
  refine (h.nested.isForest h.distinct).scope_induction h.distinct ?_ ?_
  · intro p fuel deps _ _
    exact ⟨[], [], rfl, rfl, .nil⟩
  · intro p a body rest ha hp _ hchildren hroots hbody hrest fuel deps hfuel hdeps
    simp only [length_cons, length_append] at hfuel
    obtain ⟨fuel, rfl⟩ : ∃ n, fuel = n + 1 := ⟨fuel - 1, by omega⟩
    obtain ⟨entry, a', nodes, hwrite, hread, hsame, hsames⟩ :=
      hbody.node h ha hchildren (by omega : body.length ≤ fuel) (hdeps a (by simp) hp)
    obtain ⟨entries, nodes', hwrites, hreads, hsames'⟩ :=
      hrest (fuel + 1) deps (by omega) fun n hn => hdeps n (by simp [hn])
    refine ⟨entry :: entries, a' :: (nodes ++ nodes'), ?_, ?_, .cons hsame (rel_append hsames hsames')⟩
    · rw [hroots, mapM_cons, hwrite, hwrites]
      rfl
    · rw [hp] at hread
      simp [yamlToNodes, hread, hreads]

/-! ## The whole graph -/

theorem WellFormed.mem_inEdges (h : WellFormed g) (e : GraphEdge) : e ∈ g.nodes.flatMap (inEdges g) ↔ e ∈ g.edges := by
  simp only [mem_flatMap, inEdges, sources, mem_map, mem_insertionSort, mem_filter, decide_eq_true_eq]
  constructor
  · rintro ⟨n, _, _, ⟨e', ⟨he', htarget⟩, rfl⟩, rfl⟩
    have hbare := h.bare e' he'
    obtain ⟨source, target, data⟩ := e'
    simp only at htarget hbare
    subst htarget hbare
    exact he'
  · intro he
    obtain ⟨_, _, b, hb, _, htarget, _⟩ := h.siblings e he
    refine ⟨b, hb, e.source, ⟨e, ⟨he, htarget.symm⟩, rfl⟩, ?_⟩
    rw [htarget, ← h.bare e he]

/-- The same nodes in the same order, and the same edges. -/
theorem deserialize_serialize (g : SequenceGraph) (name version : String) (h : WellFormed g) :
    ∃ yaml g', serializePlan g name version = some yaml ∧ deserializePlan yaml = some g' ∧
      List.Forall₂ GraphNode.Same g.nodes g'.nodes ∧ ∀ e, e ∈ g'.edges ↔ e ∈ g.edges := by
  obtain ⟨entries, nodes, hwrite, hread, hsame⟩ :=
    h.readsBack g.nodes.length (depMap g.edges) le_rfl fun n _ _ => getD_depMap g.edges n.id
  refine ⟨.dict [(.str "name", .str name), (.str "version", .str version), (.str "steps", .list entries)],
    ⟨nodes, g.nodes.flatMap (inEdges g)⟩, ?_, ?_, hsame, h.mem_inEdges⟩
  · unfold childrenOf at hwrite
    simp [serializePlan, hwrite]
  · have hnested : nestedSteps [(.str "name", .str name), (.str "version", .str version),
        (.str "steps", .list entries)] none = yamlToNodes entries none := by
      simp [nestedSteps, PyVal.str?, yamlSteps]
    simp [deserializePlan, hnested, hread]

def loopGraph : SequenceGraph where
  nodes := [
    { id := "L", data := yamlToLoopData (.dict [(.str "id", .str "L"), (.str "count", .int 2)]) },
    { id := "x", data := yamlToStepData (.dict [(.str "id", .str "x"), (.str "retry", .int 1)]), parent := some "L" },
    { id := "z", data := yamlToStepData (.dict [(.str "id", .str "z"), (.str "params", .dict [])]) }]
  edges := [{ source := "L", target := "z" }]

theorem loopGraph_nested : Nested GraphNode.id GraphNode.parent loopGraph.nodes where
  before := by
    intro pre x post hl k hk
    rcases pre with _ | ⟨n, _ | ⟨n', _ | ⟨n'', pre⟩⟩⟩ <;> simp_all [loopGraph]
    all_goals grind
  contiguous := by
    intro pre a mid x post hl hx
    -- Only the loop is followed by two nodes, and the second one has no parent.
    rcases mid with _ | ⟨m, mid⟩
    · simp
    have hlen := congrArg List.length hl
    simp only [loopGraph, length_cons, length_append, length_nil] at hlen
    obtain ⟨rfl, rfl, rfl⟩ : pre = [] ∧ mid = [] ∧ post = [] := by
      refine ⟨?_, ?_, ?_⟩ <;> apply eq_nil_of_length_eq_zero <;> omega
    simp only [loopGraph, nil_append, cons_append, List.cons.injEq, and_true] at hl
    obtain ⟨-, -, rfl⟩ := hl
    cases hx <;> contradiction

theorem loopGraph_wellFormed : WellFormed loopGraph where
  distinct := by decide
  named := by
    simp [loopGraph, yamlToLoopData, yamlToStepData, readFields, loopFields, stepFields, Dict.get?, PyVal.getD,
      PyVal.get?, PyVal.str?]
  fields := by
    simp only [loopGraph, forall_mem_cons, not_mem_nil, false_implies, implies_true, and_true]
    refine ⟨.inr (readFields_hasFields _ ?_), .inl (readFields_hasFields _ ?_), .inl (readFields_hasFields _ ?_)⟩ <;>
      simp [loopFields, stepFields, PyVal.getD, PyVal.get?, PyVal.str?]
  loops := by decide
  nested := loopGraph_nested
  siblings := by simp [Siblings, loopGraph]
  bare := by simp [loopGraph]

theorem deserialize_serialize_loopGraph : ∃ yaml g', serializePlan loopGraph "plan" "3.0" = some yaml ∧
    deserializePlan yaml = some g' ∧ List.Forall₂ GraphNode.Same loopGraph.nodes g'.nodes ∧
      ∀ e, e ∈ g'.edges ↔ e ∈ loopGraph.edges :=
  deserialize_serialize loopGraph "plan" "3.0" loopGraph_wellFormed

end AteStudio.Serializer
