import AteStudio.Frontend.Import

/-!
# Import and export

A loop in a loop comes out beside it, a step belongs to the first box its corner is in, and the edges that order the
canvas are read as preconditions.
-/

namespace AteStudio.Frontend

open List Entry

/-! ## Sequences -/

/-- Each precondition names a step of the scope, and there is no cycle. -/
structure ScopeOk (es : List Entry) : Prop where
  named : ∀ s ∈ childSteps es, ∀ p ∈ s.preconditions, p ∈ (childSteps es).map (·.id)
  acyclic : Kahn.Acyclic ((childSteps es).flatMap fun s => s.preconditions.map fun p => (p, s.id))

mutual

def ScopedIn : Entry → Prop
  | .step _ => True
  | .loop _ steps => ScopeOk steps ∧ ScopedAll steps

def ScopedAll : List Entry → Prop
  | [] => True
  | e :: es => ScopedIn e ∧ ScopedAll es

end

def Scoped (es : List Entry) : Prop := ScopeOk es ∧ ScopedAll es

/-- Ids that the nodes can have. -/
structure PlainNames (sequence : YamlSequence) : Prop where
  -- A node without an id is given one.
  named : "" ∉ allIds sequence.steps
  scope : sequence.scopeVariables.keys ≠ [] → "variables-scope" ∉ allIds sequence.steps

/-- The graph is exported with the same containment tree and the same preconditions. -/
def Keeps (sequence : YamlSequence) (g : Graph) : Prop :=
  ∃ exported, graphToYaml g = some exported ∧ (cells none exported.steps).Perm (cells none sequence.steps)

def loopIds (es : List Entry) : List String :=
  es.filterMap fun
    | .loop l _ => some l.id
    | .step _ => none

def containerAt (place : Placement) (es : List Entry) (point : ℚ × ℚ) : Option String :=
  (loopIds es).find? fun c => inBox (place c) point

structure Kept (place : Placement) (es : List Entry) : Prop where
  flat : Flat es
  -- The steps of a loop are drawn at the same places in every loop.
  inside : ∀ l steps, .loop l steps ∈ es → ∀ i : Nat, i < steps.length →
    containerAt place es (20 + 240 * (i : ℚ), 40) = some l.id
  outside : ∀ s, .step s ∈ es → containerAt place es (place s.id) = none
  -- An edge at an id that contains `loop-back` is no precondition.
  shown : ∀ s, .step s ∈ es → ∀ p ∈ s.preconditions, Shown p s.id
  shownInside : ∀ l steps, .loop l steps ∈ es → ∀ s ∈ childSteps steps, ∀ p ∈ s.preconditions, Shown p s.id
  -- The edge from the last step of a loop to the first is one, unless it has such an end.
  back : ∀ l steps, .loop l steps ∈ es → ∀ e ∈ loopBackEdges (sortedChildSteps steps), ¬ Shown e.source e.target
  -- A step follows none of the entries that are connected with the next one, unless it waits for it.
  follows : ∀ current s, [current, .step s] <:+: es → Shown current.id s.id →
    ∃ t, current = .step t ∧ (t.preconditions ≠ [] ∨ t.id ∈ s.preconditions)

variable {es : List Entry}

theorem ScopedAll.loop (h : ScopedAll es) {l : YamlLoop} {steps : List Entry}
    (hl : .loop l steps ∈ es) : ScopeOk steps := by
  induction es with
  | nil => cases hl
  | cons e es ih =>
    rw [ScopedAll] at h
    rcases mem_cons.mp hl with rfl | hl
    · rw [ScopedIn] at h
      exact h.1.1
    · exact ih h.2 hl

theorem mem_childSteps {s : YamlStep} : s ∈ childSteps es ↔ .step s ∈ es := by
  rw [childSteps, mem_filterMap]
  constructor
  · rintro ⟨e, he, hs⟩
    cases e with
    | step t =>
      cases hs
      exact he
    | loop l steps => cases hs
  · exact fun h => ⟨_, h, rfl⟩

theorem ScopeOk.first {steps : List Entry} (h : ScopeOk steps) (hnodup : ((childSteps steps).map (·.id)).Nodup)
    {first : YamlStep} {rest : List YamlStep} (hsorted : sortedChildSteps steps = first :: rest) :
    first.preconditions = [] := by
  have hperm := sortedChildSteps_perm hnodup
  have hfirst : first ∈ childSteps steps := hperm.mem_iff.mp (hsorted ▸ mem_cons_self)
  have hne : (childSteps steps).map (·.id) ≠ [] := ne_nil_of_mem (mem_map_of_mem hfirst)
  obtain ⟨m, hm, hmin⟩ := h.acyclic.exists_first hne
  obtain ⟨s, hs, rfl⟩ := mem_map.mp hm
  have hfree : s.preconditions = [] := by
    refine eq_nil_iff_forall_not_mem.mpr fun p hp => ?_
    have hedge : (p, s.id) ∈ (childSteps steps).flatMap fun s => s.preconditions.map fun p => (p, s.id) :=
      mem_flatMap.mpr ⟨s, hs, mem_map_of_mem hp⟩
    exact hmin _ hedge rfl (h.named s hs p hp)
  obtain ⟨first', rest', hsorted', hfirst'⟩ := sortBy_head
    (fun s => (childPreconditionMap (childSteps steps)).getD s.id []) hnodup hs
    ((getD_childPreconditionMap hnodup hs).trans hfree)
  have heq : first' = first := (List.cons.inj (hsorted'.symm.trans hsorted)).1
  rw [heq, getD_childPreconditionMap hnodup hfirst] at hfirst'
  exact hfirst'

/-! ## The canvas -/

def placedVariables (place : Placement) (sequence : YamlSequence) : List NodeConfig :=
  (variableNodes sequence.scopeVariables).map fun n => { n with x := (place n.id).1, y := (place n.id).2 }

def drawnData (place : Placement) (sequence : YamlSequence) : GraphData where
  nodes := (slots place sequence.steps).map (·.config) ++ placedVariables place sequence
  edges := addSequentialEdges (sequence.steps.flatMap childEdges ++ (childSteps sequence.steps).flatMap preconditionEdges)
    sequence.steps

section Slots

variable {place : Placement} {sequence : YamlSequence}

theorem mem_placedVariables {n : NodeConfig} (hn : n ∈ placedVariables place sequence) :
    ∃ values, n.data = .scopeVariables values := by
  obtain ⟨m, hm, rfl⟩ := mem_map.mp hn
  unfold variableNodes at hm
  split at hm
  · cases hm
  · cases mem_singleton.mp hm
    exact ⟨_, rfl⟩

theorem mem_drawnData {n : NodeConfig} (hn : n ∈ (drawnData place sequence).nodes) :
    (∃ slot ∈ slots place sequence.steps, slot.config = n) ∨ ∃ values, n.data = .scopeVariables values := by
  rcases mem_append.mp hn with hn | hn
  · exact .inl (mem_map.mp hn)
  · exact .inr (mem_placedVariables hn)

theorem nodeCells_slot {g : Graph} {slot : Slot} (hslot : slot ∈ slots place sequence.steps) (nodes : List NodeConfig) :
    nodeCells g (addNode nodes slot.config) = [exportedCell g (addNode nodes slot.config)] := by
  obtain ⟨_, _, _, s, rfl⟩ | ⟨_, _, l, rfl⟩ := mem_slots hslot <;> rfl

theorem nodeCells_drawn (g : Graph) :
    ((drawnData place sequence).nodes.map (addNode (drawnData place sequence).nodes)).flatMap (nodeCells g) =
      (slots place sequence.steps).map fun slot =>
        exportedCell g (addNode (drawnData place sequence).nodes slot.config) := by
  generalize hnodes : (drawnData place sequence).nodes = nodes
  have hsplit : nodes = (slots place sequence.steps).map (·.config) ++ placedVariables place sequence := hnodes.symm
  have hvariables : (placedVariables place sequence).flatMap (fun n => nodeCells g (addNode nodes n)) = [] := by
    refine flatMap_eq_nil_iff.mpr fun n hn => ?_
    obtain ⟨values, hvalues⟩ := mem_placedVariables hn
    simp [nodeCells, addNode, hvalues]
  rw [flatMap_map, map_eq_flatMap]
  calc nodes.flatMap (fun n => nodeCells g (addNode nodes n))
      = ((slots place sequence.steps).map (·.config) ++ placedVariables place sequence).flatMap fun n =>
          nodeCells g (addNode nodes n) := congrArg _ hsplit
    _ = (slots place sequence.steps).flatMap fun slot => [exportedCell g (addNode nodes slot.config)] := by
      rw [flatMap_append, hvariables, append_nil, flatMap_map]
      exact flatMap_congr fun slot hslot => nodeCells_slot hslot nodes

theorem map_perm_map_iff {α : Type} {f k : α → Cell} {xs : List α} (hid : ∀ x ∈ xs, (f x).id = (k x).id)
    (hnodup : (xs.map fun x => (k x).id).Nodup) : (xs.map f).Perm (xs.map k) ↔ ∀ x ∈ xs, f x = k x := by
  constructor
  · intro hperm x hx
    obtain ⟨y, hy, heq⟩ := mem_map.mp (hperm.mem_iff.mp (mem_map_of_mem hx))
    have hxy : y = x := inj_on_of_nodup_map hnodup hy hx (by rw [heq, hid x hx])
    rw [← heq, hxy]
  · intro h
    exact List.Perm.of_eq (map_congr_left h)

theorem containerNodeIds_drawn : containerNodeIds (drawnData place sequence).nodes = loopIds sequence.steps := by
  have hvariables : (placedVariables place sequence).filter (·.data.isLoop) = [] := by
    refine filter_eq_nil_iff.mpr fun n hn => ?_
    obtain ⟨values, hvalues⟩ := mem_placedVariables hn
    simp [hvalues, NodeData.isLoop]
  rw [containerNodeIds, drawnData, filter_append, hvariables, append_nil]
  induction sequence.steps with
  | nil => rfl
  | cons e es ih =>
    rw [slots, flatMap_cons, map_append, filter_append, map_append, ← slots, ih]
    cases e with
    | step s => rfl
    | loop l steps =>
      have hchildren : ((slotsOf place (.loop l steps)).tail.map (·.config)).filter (·.data.isLoop) = [] := by
        rw [slotsOf, tail_cons]
        refine filter_eq_nil_iff.mpr fun n hn => ?_
        obtain ⟨slot, hslot, rfl⟩ := mem_map.mp hn
        obtain ⟨⟨s, i⟩, -, rfl⟩ := mem_map.mp hslot
        exact Bool.false_ne_true
      rw [slotsOf, tail_cons] at hchildren
      rw [slotsOf, map_cons, filter_cons_of_pos rfl, hchildren]
      rfl

theorem mem_loopIds {es : List Entry} {id : String} : id ∈ loopIds es ↔ ∃ l steps, .loop l steps ∈ es ∧ l.id = id := by
  rw [loopIds, mem_filterMap]
  constructor
  · rintro ⟨e, he, hid⟩
    cases e with
    | step s => cases hid
    | loop l steps => exact ⟨l, steps, he, Option.some.inj hid⟩
  · rintro ⟨l, steps, hl, rfl⟩
    exact ⟨_, hl, rfl⟩

variable {source target container : String}

theorem entry_mem_allIds {e : Entry} (he : e ∈ sequence.steps) : e.id ∈ allIds sequence.steps := by
  rw [allIds_eq]
  exact mem_flatMap.mpr ⟨e, he, id_mem_idsOf e⟩

theorem links_drawn : Links (drawnData place sequence).edges source target ↔
    ((∃ e ∈ sequence.steps, Links (childEdges e) source target) ∨
      ∃ s, .step s ∈ sequence.steps ∧ source ∈ s.preconditions ∧ s.id = target) ∨
    ∃ current next, [current, next] <:+: sequence.steps ∧ current.isFree = true ∧ current.id = source ∧
      next.id = target := by
  have hpre (s : YamlStep) (hs : .step s ∈ sequence.steps) (p : String) (hp : p ∈ s.preconditions) :
      Links (sequence.steps.flatMap childEdges ++ (childSteps sequence.steps).flatMap preconditionEdges) p s.id :=
    links_append.mpr (.inr (links_flatMap.mpr ⟨s, mem_childSteps.mpr hs, links_preconditionEdges.mpr ⟨hp, rfl⟩⟩))
  rw [drawnData, links_addSequentialEdges hpre, links_append, links_flatMap, links_flatMap]
  simp only [links_preconditionEdges, mem_childSteps]

theorem mem_children {n : NodeConfig} (hn : n ∈ (drawnData place sequence).nodes) {container : String}
    (hparent : parentOf (drawnData place sequence).nodes n = some container) :
    n.id ∈ ((importData (drawnData place sequence)).children container).map (·.id) :=
  mem_map.mpr ⟨addNode _ n, mem_filter.mpr ⟨mem_importData.mpr ⟨n, hn, rfl⟩, decide_eq_true hparent⟩, rfl⟩

theorem childSlot_mem (hl : .loop l steps ∈ sequence.steps) {s : YamlStep} {i : Nat}
    (hs : (s, i) ∈ (sortedChildSteps steps).zipIdx) : childSlot l s i ∈ slots place sequence.steps :=
  mem_flatMap.mpr ⟨_, hl, mem_cons_of_mem _ (mem_map.mpr ⟨(s, i), hs, rfl⟩)⟩

end Slots

structure Drawable (sequence : YamlSequence) : Prop where
  flat : Flat sequence.steps
  ids : (allIds sequence.steps).Nodup
  names : PlainNames sequence
  scopes : Scoped sequence.steps

section Drawn

variable {place : Placement} {sequence : YamlSequence} {s : YamlStep} (hd : Drawable sequence)

include hd

theorem nodup_drawn (place : Placement) : (((slots place sequence.steps).map (·.config.id)) ++
    (variableNodes sequence.scopeVariables).map (·.id)).Nodup := by
  have hslots := (map_id_slots place hd.flat hd.ids).nodup_iff.mpr hd.ids
  unfold variableNodes
  split
  · simpa using hslots
  · next hkeys =>
    refine nodup_append.mpr ⟨hslots, nodup_singleton _, ?_⟩
    rintro id hid _ hscope rfl
    rw [(map_id_slots place hd.flat hd.ids).mem_iff] at hid
    cases mem_singleton.mp hscope
    exact hd.names.scope (by simpa using hkeys) hid

theorem yamlToGraphData_flat : yamlToGraphData place sequence = .ok (drawnData place sequence) := by
  have hnodup : ((sequence.steps.flatMap drawnNodes ++ variableNodes sequence.scopeVariables).map (·.id)).Nodup := by
    rw [map_append, map_id_drawnNodes place]
    exact nodup_drawn hd place
  have hvariables : (variableNodes sequence.scopeVariables).map (layoutNode place
      (sequence.steps.flatMap drawnNodes ++ variableNodes sequence.scopeVariables)) = placedVariables place sequence := by
    refine map_congr_left fun n hn => ?_
    have horigin : n.x = 0 ∧ n.y = 0 := by
      unfold variableNodes at hn
      split at hn
      · cases hn
      · cases mem_singleton.mp hn
        exact ⟨rfl, rfl⟩
    exact layoutNode_origin hnodup (mem_append_right _ hn) horigin.1 horigin.2
  rw [yamlToGraphData, createEntries_flat hd.flat]
  simp only [bind, Except.bind, pure, Except.pure, autoLayout, map_append,
    map_layoutNode hnodup (subset_append_left _ _), hvariables]
  rfl

theorem nodup_drawnData (place : Placement) : ((drawnData place sequence).nodes.map (·.id)).Nodup := by
  rw [drawnData, map_append, map_map, placedVariables, map_map]
  exact nodup_drawn hd place

theorem importData_drawn_shallow : (importData (drawnData place sequence)).Shallow := by
  refine importData_shallow (nodup_drawnData hd place) fun n hn => ?_
  rcases mem_drawnData hn with ⟨slot, hslot, rfl⟩ | ⟨values, hvalues⟩
  · exact slot_data hslot
  · rw [hvalues]
    exact ⟨nofun, nofun⟩

abbrev comesOut (place : Placement) (sequence : YamlSequence) (n : NodeConfig) : Cell :=
  exportedCell (importData (drawnData place sequence)) (addNode (drawnData place sequence).nodes n)

theorem keeps_iff_slots : Keeps sequence (importData (drawnData place sequence)) ↔
    ∀ slot ∈ slots place sequence.steps, comesOut place sequence slot.config = slot.cell := by
  obtain ⟨exported, hexport, hperm⟩ := graphToYaml_cells (importData_drawn_shallow hd)
  have hexported := hperm.trans ((importData_nodes (drawnData place sequence)).flatMap_right _)
  rw [nodeCells_drawn] at hexported
  have hcells := map_cell_slots place hd.flat hd.ids
  have hnodup : ((slots place sequence.steps).map fun slot => slot.cell.id).Nodup := by
    rw [← map_congr_left fun slot hslot => slot_id hslot]
    exact (map_id_slots place hd.flat hd.ids).nodup_iff.mpr hd.ids
  rw [← map_perm_map_iff (fun _ hslot => slot_id hslot) hnodup]
  constructor
  · rintro ⟨exported', hexport', hkeeps⟩
    cases hexport.symm.trans hexport'
    exact hexported.symm.trans (hkeeps.trans hcells.symm)
  · intro hslots
    exact ⟨exported, hexport, hexported.trans (hslots.trans hcells)⟩

theorem parentOf_drawn {x y : ℚ} (hs : s.id ∉ loopIds sequence.steps) :
    parentOf (drawnData place sequence).nodes (stepNode x y s) = containerAt place sequence.steps (x, y) := by
  have hnot : (stepNode x y s).id ∉ loopIds sequence.steps := hs
  unfold parentOf containerAt
  rw [containerNodeIds_drawn, if_neg hnot]
  refine find?_congr fun c hc => ?_
  obtain ⟨l, steps, hl, rfl⟩ := mem_loopIds.mp hc
  have hmem : loopNode (place l.id).1 (place l.id).2 l ∈ (drawnData place sequence).nodes := by
    refine mem_append_left _ (mem_map.mpr ⟨⟨_, ⟨l.id, none, none⟩⟩, ?_, rfl⟩)
    exact mem_flatMap.mpr ⟨_, hl, mem_cons_self⟩
  have hfind := find?_of_mem (nodup_drawnData hd place) hmem
  rw [show (loopNode (place l.id).1 (place l.id).2 l).id = l.id from rfl] at hfind
  rw [hfind]
  rfl

theorem step_not_loop (hs : .step s ∈ sequence.steps) : s.id ∉ loopIds sequence.steps := by
  intro hmem
  obtain ⟨l, steps, hl, hid⟩ := mem_loopIds.mp hmem
  cases entry_eq_of_id hd.ids hl hs hid

variable {steps : List Entry} {l : YamlLoop}

theorem perm_childSteps (hl : .loop l steps ∈ sequence.steps) : (sortedChildSteps steps).Perm (childSteps steps) :=
  sortedChildSteps_perm (nodup_childSteps hd.flat hd.ids hl)

theorem child_not_loop (hl : .loop l steps ∈ sequence.steps)
    (hs : s ∈ childSteps steps) : s.id ∉ loopIds sequence.steps := by
  intro hmem
  obtain ⟨l', steps', hl', hid⟩ := mem_loopIds.mp hmem
  exact child_ne_entry hd.flat hd.ids hl hs hl' hid

/-! ### Edges -/

theorem child_mem_allIds (hl : .loop l steps ∈ sequence.steps)
    (hs : s ∈ childSteps steps) : s.id ∈ allIds sequence.steps := by
  rw [allIds_eq]
  exact mem_flatMap.mpr ⟨_, hl, child_mem_idsOf hd.flat hl hs⟩

theorem standard_edges : ∀ e ∈ (drawnData place sequence).edges, Standard (allIds sequence.steps) e := by
  refine forall_addSequentialEdges ?_ fun a ha b hb => ⟨entry_mem_allIds ha, entry_mem_allIds hb, rfl, rfl, rfl⟩
  rw [forall_mem_append]
  constructor
  · intro e he
    obtain ⟨entry, hentry, he⟩ := mem_flatMap.mp he
    cases entry with
    | step s => cases he
    | loop l steps =>
      have hperm := perm_childSteps hd hentry
      rcases mem_append.mp he with he | he
      · obtain ⟨s, hs, he⟩ := mem_flatMap.mp he
        obtain ⟨p, hp, rfl⟩ := mem_map.mp he
        have hs := hperm.mem_iff.mp hs
        obtain ⟨t, ht, rfl⟩ := mem_map.mp ((hd.scopes.2.loop hentry).named s hs p hp)
        exact ⟨child_mem_allIds hd hentry ht, child_mem_allIds hd hentry hs, rfl, rfl, rfl⟩
      · obtain ⟨first, hfirst, last, hlast, rfl⟩ := loopBackEdges_mem he
        exact ⟨child_mem_allIds hd hentry (hperm.mem_iff.mp hlast),
          child_mem_allIds hd hentry (hperm.mem_iff.mp hfirst), rfl, rfl, rfl⟩
  · intro e he
    obtain ⟨s, hs, he⟩ := mem_flatMap.mp he
    obtain ⟨p, hp, rfl⟩ := mem_map.mp he
    obtain ⟨t, ht, rfl⟩ := mem_map.mp (hd.scopes.1.named s hs p hp)
    exact ⟨entry_mem_allIds (mem_childSteps.mp ht), entry_mem_allIds (mem_childSteps.mp hs), rfl, rfl, rfl⟩

theorem hasNode_drawn {id : String} (hid : id ∈ allIds sequence.steps) :
    (importData (drawnData place sequence)).hasNode id = true := by
  rw [← (map_id_slots place hd.flat hd.ids).mem_iff] at hid
  obtain ⟨slot, hslot, rfl⟩ := mem_map.mp hid
  refine any_eq_true.mpr ⟨_, mem_importData.mpr ⟨slot.config, ?_, rfl⟩, decide_eq_true rfl⟩
  exact mem_append_left _ (mem_map_of_mem hslot)

theorem isPrecondition_drawn {e : EdgeConfig} (he : e ∈ (drawnData place sequence).edges) :
    isPrecondition (importData (drawnData place sequence)) (addEdge e) = true ↔ Shown e.source e.target :=
  (standard_edges hd e he).isPrecondition_iff fun _ hid => hasNode_drawn hd hid

variable {source target : String}

theorem mem_preconditionsIn_none :
    source ∈ (preconditionsIn (importData (drawnData place sequence)) none).getD target [] ↔
      Links (drawnData place sequence).edges source target ∧ Shown source target := by
  rw [preconditionsIn, mem_buildPreconditionMap]
  constructor
  · rintro ⟨_, he, hcounts, rfl, rfl⟩
    obtain ⟨e, hdrawn, rfl⟩ := mem_map.mp he
    exact ⟨⟨e, hdrawn, rfl, rfl⟩, (isPrecondition_drawn hd hdrawn).mp hcounts⟩
  · rintro ⟨⟨e, he, rfl, rfl⟩, hshown⟩
    exact ⟨addEdge e, mem_map_of_mem he, (isPrecondition_drawn hd he).mpr hshown, rfl, rfl⟩

theorem mem_preconditionsIn_some {container : String} :
    source ∈ (preconditionsIn (importData (drawnData place sequence)) (some container)).getD target [] ↔
      (Links (drawnData place sequence).edges source target ∧ Shown source target) ∧
      source ∈ ((importData (drawnData place sequence)).children container).map (·.id) ∧
      target ∈ ((importData (drawnData place sequence)).children container).map (·.id) := by
  rw [preconditionsIn, mem_buildPreconditionMap]
  constructor
  · rintro ⟨_, he, hcounts, rfl, rfl⟩
    obtain ⟨he, hinside⟩ := mem_filter.mp he
    obtain ⟨e, hdrawn, rfl⟩ := mem_map.mp he
    exact ⟨⟨⟨e, hdrawn, rfl, rfl⟩, (isPrecondition_drawn hd hdrawn).mp hcounts⟩, of_decide_eq_true hinside⟩
  · rintro ⟨⟨⟨e, he, rfl, rfl⟩, hshown⟩, hinside⟩
    exact ⟨addEdge e, mem_filter.mpr ⟨mem_map_of_mem he, decide_eq_true hinside⟩,
      (isPrecondition_drawn hd he).mpr hshown, rfl, rfl⟩

theorem links_childEdges (hl : .loop l steps ∈ sequence.steps) : Links (childEdges (.loop l steps)) source target ↔
      (∃ s ∈ childSteps steps, source ∈ s.preconditions ∧ s.id = target) ∨
        Links (loopBackEdges (sortedChildSteps steps)) source target := by
  rw [childEdges, links_append, links_flatMap]
  simp only [links_preconditionEdges, (perm_childSteps hd hl).mem_iff]

theorem target_childEdges {e : Entry} (he : e ∈ sequence.steps)
    (h : Links (childEdges e) source target) : ∃ l steps, e = .loop l steps ∧ ∃ s ∈ childSteps steps, s.id = target := by
  cases e with
  | step s =>
    obtain ⟨_, he, -⟩ := h
    cases he
  | loop l steps =>
    refine ⟨l, steps, rfl, ?_⟩
    rcases (links_childEdges hd he).mp h with ⟨s, hs, -, hid⟩ | ⟨e, hback, -, rfl⟩
    · exact ⟨s, hs, hid⟩
    · obtain ⟨first, hfirst, last, -, rfl⟩ := loopBackEdges_mem hback
      exact ⟨first, (perm_childSteps hd he).mem_iff.mp hfirst, rfl⟩

theorem links_step (hs : .step s ∈ sequence.steps) :
    Links (drawnData place sequence).edges source s.id ↔ source ∈ s.preconditions ∨
      ∃ current, [current, .step s] <:+: sequence.steps ∧ current.isFree = true ∧ current.id = source := by
  rw [links_drawn]
  constructor
  · rintro ((⟨e, he, h⟩ | ⟨t, ht, hsource, hid⟩) | ⟨current, next, hpair, hfree, hid, hnext⟩)
    · obtain ⟨l, steps, rfl, t, ht, hid⟩ := target_childEdges hd he h
      exact absurd hid.symm (child_ne_entry hd.flat hd.ids he ht hs)
    · cases entry_eq_of_id hd.ids ht hs hid
      exact .inl hsource
    · have hmem : next ∈ sequence.steps := hpair.subset (by simp)
      cases entry_eq_of_id hd.ids hmem hs hnext
      exact .inr ⟨current, hpair, hfree, hid⟩
  · rintro (hsource | ⟨current, hpair, hfree, hid⟩)
    · exact .inl (.inr ⟨s, hs, hsource, rfl⟩)
    · exact .inr ⟨current, .step s, hpair, hfree, hid, rfl⟩

theorem links_child (hl : .loop l steps ∈ sequence.steps) (hs : s ∈ childSteps steps) :
    Links (drawnData place sequence).edges source s.id ↔
      source ∈ s.preconditions ∨ Links (loopBackEdges (sortedChildSteps steps)) source s.id := by
  have hbody : Links (childEdges (.loop l steps)) source s.id ↔
      source ∈ s.preconditions ∨ Links (loopBackEdges (sortedChildSteps steps)) source s.id := by
    rw [links_childEdges hd hl]
    refine or_congr_left ⟨?_, fun h => ⟨s, hs, h, rfl⟩⟩
    rintro ⟨t, ht, hsource, hid⟩
    obtain ⟨-, -, rfl⟩ := child_eq_of_id hd.flat hd.ids hl hl ht hs hid
    exact hsource
  rw [← hbody, links_drawn]
  constructor
  · rintro ((⟨e, he, h⟩ | ⟨t, ht, hsource, hid⟩) | ⟨current, next, hpair, hfree, hid, hnext⟩)
    · obtain ⟨l', steps', rfl, t, ht, hid⟩ := target_childEdges hd he h
      obtain ⟨rfl, rfl, -⟩ := child_eq_of_id hd.flat hd.ids he hl ht hs hid
      exact h
    · exact absurd hid (child_ne_entry hd.flat hd.ids hl hs ht)
    · have hmem : next ∈ sequence.steps := hpair.subset (by simp)
      exact absurd hnext (child_ne_entry hd.flat hd.ids hl hs hmem)
  · exact fun h => .inl (.inl ⟨_, hl, h⟩)

/-! ### Slots -/

theorem exportedCell_stepNode {x y : ℚ} (hs : s.id ∉ loopIds sequence.steps) {parent : Option String} :
    comesOut place sequence (stepNode x y s) = stepCell parent s ↔
      containerAt place sequence.steps (x, y) = parent ∧
        ∀ p, p ∈ (preconditionsIn (importData (drawnData place sequence)) parent).getD s.id [] ↔ p ∈ s.preconditions := by
  have hcell : comesOut place sequence (stepNode x y s) = ⟨s.id, containerAt place sequence.steps (x, y),
        some ((preconditionsIn (importData (drawnData place sequence))
          (containerAt place sequence.steps (x, y))).getD s.id []).toFinset⟩ := by
    rw [← parentOf_drawn hd hs]
    rfl
  rw [hcell, stepCell, Cell.mk.injEq]
  simp only [true_and, Option.some.injEq]
  refine and_congr_right fun hparent => ?_
  rw [hparent, Finset.ext_iff]
  simp only [mem_toFinset]

theorem mem_childSteps_of_sorted (hl : .loop l steps ∈ sequence.steps) {i : Nat}
    (hs : (s, i) ∈ (sortedChildSteps steps).zipIdx) : s ∈ childSteps steps :=
  (perm_childSteps hd hl).mem_iff.mp (fst_mem_of_mem_zipIdx hs)

theorem child_mem_children (hl : .loop l steps ∈ sequence.steps)
    {i : Nat} (hs : (s, i) ∈ (sortedChildSteps steps).zipIdx)
    (hat : containerAt place sequence.steps (20 + 240 * (i : ℚ), 40) = some l.id) :
    s.id ∈ ((importData (drawnData place sequence)).children l.id).map (·.id) := by
  have hchild := mem_childSteps_of_sorted hd hl hs
  have hmem : (childSlot l s i).config ∈ (drawnData place sequence).nodes :=
    mem_append_left _ (mem_map_of_mem (childSlot_mem hl hs))
  exact mem_children hmem ((parentOf_drawn hd (child_not_loop hd hl hchild)).trans hat)

theorem step_comes_out (hs : .step s ∈ sequence.steps) :
    comesOut place sequence (stepNode (place s.id).1 (place s.id).2 s) = stepCell none s ↔
      containerAt place sequence.steps (place s.id) = none ∧ (∀ p ∈ s.preconditions, Shown p s.id) ∧
        ∀ current, [current, .step s] <:+: sequence.steps → Shown current.id s.id →
          ∃ t, current = .step t ∧ (t.preconditions ≠ [] ∨ t.id ∈ s.preconditions) := by
  rw [exportedCell_stepNode hd (step_not_loop hd hs)]
  refine and_congr_right fun _ => ?_
  simp only [mem_preconditionsIn_none hd, links_step hd hs]
  constructor
  · intro h
    refine ⟨fun p hp => ((h p).mpr hp).2, fun current hpair hshown => ?_⟩
    cases hfree : current.isFree with
    | false =>
      cases current with
      | loop l steps => cases hfree
      | step t => exact ⟨t, rfl, .inl (by simpa [isFree] using hfree)⟩
    | true =>
      have hwaits := (h current.id).mp ⟨.inr ⟨current, hpair, hfree, rfl⟩, hshown⟩
      -- Only a step can be waited for.
      obtain ⟨t, ht, hid⟩ := mem_map.mp (hd.scopes.1.named s (mem_childSteps.mpr hs) _ hwaits)
      have hcurrent : current ∈ sequence.steps := hpair.subset (by simp)
      cases entry_eq_of_id hd.ids (mem_childSteps.mp ht) hcurrent hid
      exact ⟨t, rfl, .inr hwaits⟩
  · rintro ⟨hshown, h⟩ p
    refine ⟨?_, fun hp => ⟨.inl hp, hshown p hp⟩⟩
    rintro ⟨hp | ⟨current, hpair, hfree, rfl⟩, hcounts⟩
    · exact hp
    · obtain ⟨t, rfl, hbusy | hwaits⟩ := h current hpair hcounts
      · exact absurd (isEmpty_iff.mp hfree) hbusy
      · exact hwaits

section LoopSteps

variable {l : YamlLoop} {steps : List Entry} (hl : .loop l steps ∈ sequence.steps) {i : Nat}

include hl in
theorem exportedCell_childSlot (hs : (s, i) ∈ (sortedChildSteps steps).zipIdx) :
    comesOut place sequence (childSlot l s i).config = stepCell (some l.id) s ↔
      containerAt place sequence.steps (20 + 240 * (i : ℚ), 40) = some l.id ∧
        ∀ p, p ∈ (preconditionsIn (importData (drawnData place sequence)) (some l.id)).getD s.id [] ↔
          p ∈ s.preconditions :=
  exportedCell_stepNode hd
    (child_not_loop hd hl (mem_childSteps_of_sorted hd hl hs))

include hl in
theorem length_sorted : (sortedChildSteps steps).length = steps.length := by
  conv_rhs => rw [eq_map_step (hd.flat l steps hl), length_map]
  exact (perm_childSteps hd hl).length_eq

include hl in
theorem exists_zipIdx (hs : s ∈ childSteps steps) : ∃ i, (s, i) ∈ (sortedChildSteps steps).zipIdx := by
  obtain ⟨i, hi⟩ := mem_iff_getElem?.mp ((perm_childSteps hd hl).mem_iff.mpr hs)
  exact ⟨i, mem_zipIdx_iff_getElem?.mpr hi⟩

include hl in
/-- The first step waits for nothing, so the edge back to it is one too many. -/
theorem back_hidden (h : ∀ s i, (s, i) ∈ (sortedChildSteps steps).zipIdx →
      comesOut place sequence (childSlot l s i).config = stepCell (some l.id) s)
    {e : EdgeConfig} (he : e ∈ loopBackEdges (sortedChildSteps steps)) : ¬ Shown e.source e.target := by
  intro hshown
  have hmem {s : YamlStep} (hs : s ∈ childSteps steps) :
      s.id ∈ ((importData (drawnData place sequence)).children l.id).map (·.id) := by
    obtain ⟨i, hi⟩ := exists_zipIdx hd hl hs
    exact child_mem_children hd hl hi ((exportedCell_childSlot hd hl hi).mp (h s i hi)).1
  match hsorted : sortedChildSteps steps with
  | [] | [_] =>
    rw [hsorted] at he
    cases he
  | first :: second :: rest =>
    have hback := he
    rw [hsorted] at hback
    cases mem_singleton.mp hback
    have hperm := perm_childSteps hd hl
    have hchild {s : YamlStep} (hs : s ∈ first :: second :: rest) : s ∈ childSteps steps :=
      hperm.mem_iff.mp (hsorted ▸ hs)
    have hfirst := hchild mem_cons_self
    have hlast := hchild (mem_cons_of_mem _ (getLast_mem (cons_ne_nil second rest)))
    obtain ⟨i, hi⟩ := exists_zipIdx hd hl hfirst
    have hwaits := (((exportedCell_childSlot hd hl hi).mp (h first i hi)).2 _).mp
      ((mem_preconditionsIn_some hd).mpr ⟨⟨(links_child hd hl hfirst).mpr (.inr ⟨_, he, rfl, rfl⟩), hshown⟩,
        hmem hlast, hmem hfirst⟩)
    rw [(hd.scopes.2.loop hl).first (nodup_childSteps hd.flat hd.ids hl) hsorted] at hwaits
    cases hwaits

include hl in
theorem loop_comes_out :
    (∀ s i, (s, i) ∈ (sortedChildSteps steps).zipIdx →
        comesOut place sequence (childSlot l s i).config = stepCell (some l.id) s) ↔
      (∀ i : Nat, i < steps.length → containerAt place sequence.steps (20 + 240 * (i : ℚ), 40) = some l.id) ∧
        (∀ s ∈ childSteps steps, ∀ p ∈ s.preconditions, Shown p s.id) ∧
        ∀ e ∈ loopBackEdges (sortedChildSteps steps), ¬ Shown e.source e.target := by
  constructor
  · intro h
    have hslot {s : YamlStep} {i : Nat} (hs : (s, i) ∈ (sortedChildSteps steps).zipIdx) :=
      (exportedCell_childSlot hd hl hs).mp (h s i hs)
    refine ⟨fun i hi => ?_, fun s hs p hp => ?_, fun e => back_hidden hd hl h⟩
    · rw [← length_sorted hd hl] at hi
      exact (hslot (mem_zipIdx_iff_getElem?.mpr (getElem?_eq_getElem hi))).1
    · obtain ⟨i, hi⟩ := exists_zipIdx hd hl hs
      exact ((mem_preconditionsIn_some hd).mp (((hslot hi).2 p).mpr hp)).1.2
  · rintro ⟨hinside, hshown, hback⟩ s i hs
    have hat {t : YamlStep} {j : Nat} (ht : (t, j) ∈ (sortedChildSteps steps).zipIdx) :
        containerAt place sequence.steps (20 + 240 * (j : ℚ), 40) = some l.id := by
      obtain ⟨hj, -⟩ := List.getElem?_eq_some_iff.mp (mem_zipIdx_iff_getElem?.mp ht)
      exact hinside j (length_sorted hd hl ▸ hj)
    have hmem {t : YamlStep} (ht : t ∈ childSteps steps) :
        t.id ∈ ((importData (drawnData place sequence)).children l.id).map (·.id) := by
      obtain ⟨j, hj⟩ := exists_zipIdx hd hl ht
      exact child_mem_children hd hl hj (hat hj)
    have hchild := mem_childSteps_of_sorted hd hl hs
    refine (exportedCell_childSlot hd hl hs).mpr ⟨hat hs, fun p => ?_⟩
    rw [mem_preconditionsIn_some hd, links_child hd hl hchild]
    constructor
    · rintro ⟨⟨hp | ⟨e, he, rfl, htarget⟩, hcounts⟩, -⟩
      · exact hp
      · exact absurd (htarget ▸ hcounts) (hback e he)
    · intro hp
      obtain ⟨t, ht, rfl⟩ := mem_map.mp ((hd.scopes.2.loop hl).named s hchild p hp)
      exact ⟨⟨.inl hp, hshown s hchild _ hp⟩, hmem ht, hmem hchild⟩

end LoopSteps

theorem keeps_drawn_iff : Keeps sequence (importData (drawnData place sequence)) ↔ Kept place sequence.steps := by
  rw [keeps_iff_slots hd]
  constructor
  · intro h
    have hstep (s : YamlStep) (hs : .step s ∈ sequence.steps) := (step_comes_out hd hs).mp
      (h ⟨_, stepCell none s⟩ (mem_flatMap.mpr ⟨_, hs, mem_singleton.mpr rfl⟩))
    have hloop (l : YamlLoop) (steps : List Entry) (hl : .loop l steps ∈ sequence.steps) :=
      (loop_comes_out hd hl).mp fun s i hs => h _ (childSlot_mem hl hs)
    exact {
      flat := hd.flat
      inside := fun l steps hl => (hloop l steps hl).1
      outside := fun s hs => (hstep s hs).1
      shown := fun s hs => (hstep s hs).2.1
      shownInside := fun l steps hl => (hloop l steps hl).2.1
      back := fun l steps hl => (hloop l steps hl).2.2
      follows := fun current s hpair => (hstep s (hpair.subset (by simp))).2.2 current hpair }
  · intro h slot hslot
    obtain ⟨e, he, hslot⟩ := mem_flatMap.mp hslot
    cases e with
    | step s =>
      cases mem_singleton.mp hslot
      exact (step_comes_out hd he).mpr ⟨h.outside s he, h.shown s he, fun current => h.follows current s⟩
    | loop l steps =>
      rcases mem_cons.mp hslot with rfl | hslot
      · have hparent : parentOf (drawnData place sequence).nodes (loopNode (place l.id).1 (place l.id).2 l) = none := by
          refine if_pos ?_
          rw [containerNodeIds_drawn]
          exact mem_loopIds.mpr ⟨l, steps, he, rfl⟩
        rw [comesOut, exportedCell, addNode, hparent]
        rfl
      · obtain ⟨⟨s, i⟩, hs, rfl⟩ := mem_map.mp hslot
        exact (loop_comes_out hd he).mpr ⟨h.inside l steps he, h.shownInside l steps he, h.back l steps he⟩ s i hs

end Drawn

/-! ## Every sequence -/

theorem flat_of_keeps {sequence : YamlSequence} {data : GraphData} (h : Keeps sequence (importData data)) :
    Flat sequence.steps := by
  intro l steps hl e he
  cases e with
  | step s => rfl
  | loop inner body =>
    obtain ⟨exported, hexport, hperm⟩ := h
    have hinner : ⟨inner.id, some l.id, none⟩ ∈ cells none sequence.steps := by
      rw [cells_eq]
      refine mem_flatMap.mpr ⟨_, hl, mem_cons_of_mem _ ?_⟩
      rw [cells_eq]
      exact mem_flatMap.mpr ⟨_, he, mem_cons_self⟩
    have hparent := parent_of_loopCell (fun n hn => isLoop_of_parent hn) hexport (hperm.mem_iff.mpr hinner) rfl
    cases hparent

/-- Exactly when loops hold only steps, each in its own box, and the edges that count are the preconditions. -/
theorem importYamlToGraph_keeps_iff (place : Placement) (sequence : YamlSequence) (g : Graph)
    (hids : (allIds sequence.steps).Nodup) (hscoped : Scoped sequence.steps) (hnames : PlainNames sequence)
    (himport : importYamlToGraph place sequence = .ok g) : Keeps sequence g ↔ Kept place sequence.steps := by
  obtain ⟨data, hdata, rfl⟩ : ∃ data, yamlToGraphData place sequence = .ok data ∧ importData data = g := by
    unfold importYamlToGraph at himport
    cases hdata : yamlToGraphData place sequence with
    | error message =>
      rw [hdata] at himport
      cases himport
    | ok data =>
      rw [hdata] at himport
      exact ⟨data, rfl, Except.ok.inj himport⟩
  have hdrawn (hflat : Flat sequence.steps) : data = drawnData place sequence :=
    Except.ok.inj (hdata.symm.trans (yamlToGraphData_flat ⟨hflat, hids, hnames, hscoped⟩))
  constructor
  · intro h
    have hflat := flat_of_keeps h
    rw [hdrawn hflat] at h
    exact (keeps_drawn_iff ⟨hflat, hids, hnames, hscoped⟩).mp h
  · intro h
    rw [hdrawn h.flat]
    exact (keeps_drawn_iff ⟨h.flat, hids, hnames, hscoped⟩).mpr h

theorem scopeOk_of_free (h : ∀ s ∈ childSteps es, s.preconditions = []) : ScopeOk es := by
  refine ⟨fun s hs p hp => ?_, Kahn.acyclic_of_rank (fun _ => 0) fun e he => ?_⟩
  · rw [h s hs] at hp
    cases hp
  · obtain ⟨s, hs, he⟩ := mem_flatMap.mp he
    rw [h s hs] at he
    cases he

def burnInSequence : YamlSequence :=
  { steps := [
    .step { id := "self_test" },
    .loop { id := "burn_in", loopType := "FOR", count := some 3 } [.step { id := "measure" }]] }

def cornerPlacement : Placement := fun id => if id = "burn_in" then (20, 20) else (20, 340)

theorem loop_burnInSequence {l : YamlLoop} {steps : List Entry} (h : .loop l steps ∈ burnInSequence.steps) :
    l.id = "burn_in" ∧ steps = [.step { id := "measure" }] := by
  have h : loop l steps ∈ [step _, loop _ _] := h
  simp only [mem_cons, not_mem_nil, or_false, reduceCtorEq, false_or, loop.injEq] at h
  exact ⟨h.1 ▸ rfl, h.2⟩

theorem step_burnInSequence {s : YamlStep} (h : .step s ∈ burnInSequence.steps) : s = { id := "self_test" } := by
  have h : step s ∈ [step _, loop _ _] := h
  simpa only [mem_cons, not_mem_nil, or_false, reduceCtorEq, step.injEq] using h

theorem kept_burnInSequence : Kept cornerPlacement burnInSequence.steps where
  flat l steps hl := by simp [(loop_burnInSequence hl).2, isLoop]
  inside l steps hl i hi := by
    obtain ⟨hid, rfl⟩ := loop_burnInSequence hl
    cases Nat.lt_one_iff.mp hi
    rw [hid]
    decide +kernel
  outside s hs := by
    rw [step_burnInSequence hs]
    decide +kernel
  shown s hs := by simp [step_burnInSequence hs]
  shownInside l steps hl := by simp [(loop_burnInSequence hl).2, childSteps, step?]
  back l steps hl := by
    obtain ⟨-, rfl⟩ := loop_burnInSequence hl
    intro e he
    cases he
  follows current s hpair := by
    have hpair : [current, .step s] <:+: [step _, loop _ _] := hpair
    rw [infix_pair_iff] at hpair
    simp [infix_cons_iff] at hpair

theorem scoped_burnInSequence : Scoped burnInSequence.steps := by
  refine ⟨scopeOk_of_free ?_, trivial, ⟨scopeOk_of_free ?_, trivial, trivial⟩, trivial⟩
  · simp [burnInSequence, childSteps, step?]
  · simp [childSteps, step?]

theorem plainNames_burnInSequence : PlainNames burnInSequence :=
  ⟨by decide +kernel, fun h => absurd rfl h⟩

theorem importYamlToGraph_keeps_burnInSequence :
    ∃ g, importYamlToGraph cornerPlacement burnInSequence = .ok g ∧ Keeps burnInSequence g :=
  ⟨_, rfl, (importYamlToGraph_keeps_iff _ _ _ (by decide +kernel) scoped_burnInSequence plainNames_burnInSequence rfl).mpr
    kept_burnInSequence⟩

def nestedSequence : YamlSequence :=
  { steps := [
    .loop { id := "temperatures", loopType := "FOREACH", collection := some "temps" } [
      .loop { id := "burn_in", loopType := "FOR", count := some 3 } [.step { id := "measure" }]]] }

/-- The inner loop comes out at the top level. -/
theorem not_keeps_nestedSequence : (allIds nestedSequence.steps).Nodup ∧ Scoped nestedSequence.steps ∧
    ∃ g, importYamlToGraph cornerPlacement nestedSequence = .ok g ∧ ¬ Keeps nestedSequence g := by
  refine ⟨by decide +kernel, ⟨scopeOk_of_free ?_, ⟨scopeOk_of_free ?_, ⟨scopeOk_of_free ?_, trivial, trivial⟩, trivial⟩,
    trivial⟩, _, rfl, fun h => ?_⟩
  · simp [nestedSequence, childSteps, step?]
  · simp [childSteps, step?]
  · simp [childSteps, step?]
  · have hflat := flat_of_keeps h _ _ List.mem_cons_self _ List.mem_cons_self
    cases hflat

end AteStudio.Frontend
