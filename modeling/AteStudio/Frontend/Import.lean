import AteStudio.Frontend.Export

/-! # What `importYamlToGraph` draws -/

namespace AteStudio.Frontend

open List

/-! ## Sequences without loops in loops -/

def Flat (es : List Entry) : Prop := ∀ l steps, .loop l steps ∈ es → ∀ e ∈ steps, e.isLoop = false

variable {steps : List Entry}

theorem eq_map_step (h : ∀ e ∈ steps, e.isLoop = false) : steps = (childSteps steps).map .step := by
  induction steps with
  | nil => rfl
  | cons e steps ih =>
    rw [forall_mem_cons] at h
    cases e with
    | step s => exact congrArg (Entry.step s :: ·) (ih h.2)
    | loop l steps => cases h.1

variable {es : List Entry} {e : Entry}

theorem Flat.tail (h : Flat (e :: es)) : Flat es :=
  fun l steps hmem => h l steps (mem_cons_of_mem _ hmem)

def stepCell (parent : Option String) (s : YamlStep) : Cell := ⟨s.id, parent, some s.preconditions.toFinset⟩

theorem cells_steps (parent : Option String) (h : ∀ e ∈ steps, e.isLoop = false) :
    cells parent steps = (childSteps steps).map (stepCell parent) := by
  conv_lhs => rw [eq_map_step h, cells_eq, flatMap_map]
  exact map_eq_flatMap.symm

def allIds (es : List Entry) : List String := (cells none es).map (·.id)

def idsOf (e : Entry) : List String := (cellsOf none e).map (·.id)

theorem allIds_eq (es : List Entry) : allIds es = es.flatMap idsOf := by
  rw [allIds, cells_eq, map_flatMap]
  rfl

theorem idsOf_loop (l : YamlLoop) (h : ∀ e ∈ steps, e.isLoop = false) :
    idsOf (.loop l steps) = l.id :: (childSteps steps).map (·.id) := by
  rw [idsOf, cellsOf, cells_steps _ h, map_cons, map_map]
  rfl

theorem id_mem_idsOf (e : Entry) : e.id ∈ idsOf e := by
  cases e <;> simp [idsOf, cellsOf, Entry.id]

theorem eq_of_mem_flatMap {α β : Type} {f : α → List β} {xs : List α} (h : (xs.flatMap f).Nodup) {x y : α} (hx : x ∈ xs)
    (hy : y ∈ xs) {b : β} (hbx : b ∈ f x) (hby : b ∈ f y) : x = y := by
  by_contra hne
  have : Std.Symm (Function.onFun Disjoint f) := ⟨fun _ _ hxy => hxy.symm⟩
  exact (nodup_flatMap.mp h).2.forall hx hy hne hbx hby

section Distinct

variable {es : List Entry} (hflat : Flat es) (hids : (allIds es).Nodup)

include hids

theorem entry_eq_of_id {e e' : Entry} (he : e ∈ es) (he' : e' ∈ es) (hid : e.id = e'.id) : e = e' := by
  rw [allIds_eq] at hids
  exact eq_of_mem_flatMap hids he he' (id_mem_idsOf e) (hid ▸ id_mem_idsOf e')

theorem nodup_idsOf (he : e ∈ es) : (idsOf e).Nodup := by
  rw [allIds_eq] at hids
  exact (nodup_flatMap.mp hids).1 e he

include hflat

omit hids in
theorem child_mem_idsOf {l : YamlLoop} (hl : .loop l steps ∈ es) {s : YamlStep}
    (hs : s ∈ childSteps steps) : s.id ∈ idsOf (.loop l steps) := by
  rw [idsOf_loop l (hflat l steps hl)]
  exact mem_cons_of_mem _ (mem_map_of_mem hs)

theorem nodup_childSteps {l : YamlLoop} (hl : .loop l steps ∈ es) : ((childSteps steps).map (·.id)).Nodup := by
  have hnodup := nodup_idsOf hids hl
  rw [idsOf_loop l (hflat l steps hl)] at hnodup
  exact (nodup_cons.mp hnodup).2

theorem child_ne_entry {l : YamlLoop} (hl : .loop l steps ∈ es) {s : YamlStep}
    (hs : s ∈ childSteps steps) (he : e ∈ es) : e.id ≠ s.id := by
  intro hid
  have hmem := child_mem_idsOf hflat hl hs
  have hnodup := nodup_idsOf hids hl
  rw [allIds_eq] at hids
  have heq := eq_of_mem_flatMap hids he hl (id_mem_idsOf e) (hid ▸ hmem)
  rw [idsOf_loop l (hflat l steps hl)] at hnodup
  rw [heq] at hid
  exact (nodup_cons.mp hnodup).1 (mem_map.mpr ⟨s, hs, hid.symm⟩)

theorem child_eq_of_id {l l' : YamlLoop} {steps steps' : List Entry} (hl : .loop l steps ∈ es)
    (hl' : .loop l' steps' ∈ es) {s s' : YamlStep} (hs : s ∈ childSteps steps) (hs' : s' ∈ childSteps steps')
    (hid : s.id = s'.id) : l = l' ∧ steps = steps' ∧ s = s' := by
  have hmem := child_mem_idsOf hflat hl hs
  have hmem' := child_mem_idsOf hflat hl' hs'
  have hnodup := nodup_childSteps hflat hids hl
  rw [allIds_eq] at hids
  cases eq_of_mem_flatMap hids hl hl' hmem (hid ▸ hmem')
  exact ⟨rfl, rfl, inj_on_of_nodup_map hnodup hs hs' hid⟩

end Distinct

/-! ## Nodes and edges -/

theorem getD_childPreconditionMap {steps : List YamlStep} (hnodup : (steps.map (·.id)).Nodup) {s : YamlStep}
    (hs : s ∈ steps) : (childPreconditionMap steps).getD s.id [] = s.preconditions := by
  have hself (map : Dict String (List String)) (s : YamlStep) (hnone : map.getD s.id [] = []) :
      (addChildPreconditions map s).getD s.id [] = s.preconditions := by
    unfold addChildPreconditions
    split
    · next hempty => rw [hnone, isEmpty_iff.mp hempty]
    · rw [getD_set, if_pos rfl]
  have hother (map : Dict String (List String)) (s : YamlStep) (i : String) (hi : i ≠ s.id) :
      (addChildPreconditions map s).getD i [] = map.getD i [] := by
    unfold addChildPreconditions
    split
    · rfl
    · rw [getD_set, if_neg hi]
  exact Dict.foldl_distinct (Dict.getD · · []) hself hother hnodup hs rfl

theorem sortedChildSteps_perm (hnodup : ((childSteps steps).map (·.id)).Nodup) :
    (sortedChildSteps steps).Perm (childSteps steps) :=
  sortBy_perm _ hnodup

def childEdges : Entry → List EdgeConfig
  | .step _ => []
  | .loop _ steps => (sortedChildSteps steps).flatMap preconditionEdges ++ loopBackEdges (sortedChildSteps steps)

def drawnNodes : Entry → List NodeConfig
  | .step s => [stepNode 0 0 s]
  | .loop l steps => loopNode 0 0 l :: childNodes (sortedChildSteps steps) 20 40

theorem createLoops_steps (h : ∀ e ∈ steps, e.isLoop = false) (x y : ℚ) (depth : Nat) :
    createLoops steps x y depth = .ok ⟨[], []⟩ := by
  induction steps generalizing x with
  | nil => rw [createLoops]; rfl
  | cons e steps ih =>
    rw [forall_mem_cons] at h
    cases e with
    | step s =>
      rw [createLoops, createLoop, ih h.2]
      rfl
    | loop l steps => cases h.1

theorem createEntry_flat (h : ∀ l steps, e = .loop l steps → ∀ e ∈ steps, e.isLoop = false) :
    createEntry e = .ok ⟨drawnNodes e, childEdges e⟩ := by
  cases e with
  | step s => rfl
  | loop l steps =>
    rw [createEntry, createLoop]
    cases steps with
    | nil => rfl
    | cons e steps =>
      have hdepth : ¬ 0 + 1 > MAX_LOOP_DEPTH := by decide
      simp only [createChildNodesFromLoopSteps, if_neg hdepth, createLoops_steps (h l _ rfl)]
      simp [drawnNodes, childEdges, bind, Except.bind, pure, Except.pure]

theorem createEntries_flat (h : Flat es) : createEntries es = .ok ⟨es.flatMap drawnNodes, es.flatMap childEdges⟩ := by
  induction es with
  | nil => rfl
  | cons e es ih =>
    have hfirst : createEntry e = _ := createEntry_flat fun l steps heq => h l steps (heq ▸ mem_cons_self)
    rw [createEntries, hfirst, ih h.tail]
    rfl

/-! ## Slots -/

structure Slot where
  config : NodeConfig
  cell : Cell

def childSlot (l : YamlLoop) (s : YamlStep) (i : Nat) : Slot := ⟨stepNode (20 + 240 * i) 40 s, stepCell (some l.id) s⟩

def slotsOf (place : Placement) : Entry → List Slot
  | .step s => [⟨stepNode (place s.id).1 (place s.id).2 s, stepCell none s⟩]
  | .loop l steps => ⟨loopNode (place l.id).1 (place l.id).2 l, ⟨l.id, none, none⟩⟩ ::
    (sortedChildSteps steps).zipIdx.map fun (s, i) => childSlot l s i

def slots (place : Placement) (es : List Entry) : List Slot := es.flatMap (slotsOf place)

section Slots

variable {place : Placement} {es : List Entry}

theorem map_zipIdx_fst {α β : Type} (xs : List α) (f : α → β) : (xs.zipIdx.map fun p => f p.1) = xs.map f := by
  calc (xs.zipIdx.map fun p => f p.1) = (xs.zipIdx.map Prod.fst).map f := map_map.symm
    _ = xs.map f := by rw [zipIdx_map_fst]

theorem mem_slots {slot : Slot} (h : slot ∈ slots place es) :
    (∃ x y parent s, slot = ⟨stepNode x y s, stepCell parent s⟩) ∨
      ∃ x y l, slot = ⟨loopNode x y l, ⟨l.id, none, none⟩⟩ := by
  obtain ⟨e, -, h⟩ := mem_flatMap.mp h
  cases e with
  | step s => exact .inl ⟨_, _, _, s, mem_singleton.mp h⟩
  | loop l steps =>
    rcases mem_cons.mp h with rfl | h
    · exact .inr ⟨_, _, l, rfl⟩
    · obtain ⟨⟨s, i⟩, -, rfl⟩ := mem_map.mp h
      exact .inl ⟨_, _, _, s, rfl⟩

theorem slot_id {slot : Slot} (h : slot ∈ slots place es) : slot.config.id = slot.cell.id := by
  obtain ⟨_, _, _, s, rfl⟩ | ⟨_, _, l, rfl⟩ := mem_slots h <;> rfl

theorem slot_data {slot : Slot} (h : slot ∈ slots place es) :
    (∀ step, slot.config.data = .script step → step.stepId = slot.config.id) ∧
      ∀ loop, slot.config.data = .loop loop → loop.loopId = slot.config.id := by
  obtain ⟨_, _, _, s, rfl⟩ | ⟨_, _, l, rfl⟩ := mem_slots h
  · exact ⟨by rintro _ ⟨⟩; rfl, nofun⟩
  · exact ⟨nofun, by rintro _ ⟨⟩; rfl⟩

theorem map_cell_slots (place : Placement) (hflat : Flat es) (hids : (allIds es).Nodup) :
    ((slots place es).map (·.cell)).Perm (cells none es) := by
  rw [slots, cells_eq, map_flatMap]
  refine List.Perm.flatMap_left _ fun e he => ?_
  cases e with
  | step s => exact List.Perm.refl _
  | loop l steps =>
    rw [cellsOf, cells_steps _ (hflat l steps he), slotsOf, map_cons, map_map]
    refine List.Perm.cons _ ?_
    have hmap := map_zipIdx_fst (sortedChildSteps steps) (stepCell (some l.id))
    exact (List.Perm.of_eq hmap).trans ((sortedChildSteps_perm (nodup_childSteps hflat hids he)).map _)

theorem map_id_slots (place : Placement) (hflat : Flat es) (hids : (allIds es).Nodup) :
    ((slots place es).map (·.config.id)).Perm (allIds es) := by
  have hconfig : (slots place es).map (·.config.id) = ((slots place es).map (·.cell)).map (·.id) := by
    rw [map_map]
    exact map_congr_left fun slot hslot => slot_id hslot
  rw [hconfig]
  exact (map_cell_slots place hflat hids).map _

variable {nodes : List NodeConfig}

theorem layoutNode_origin (hnodup : (nodes.map (·.id)).Nodup) {n : NodeConfig} (hn : n ∈ nodes)
    (hx : n.x = 0) (hy : n.y = 0) : layoutNode place nodes n = { n with x := (place n.id).1, y := (place n.id).2 } := by
  refine if_neg fun hmem => ?_
  obtain ⟨m, hm, hid⟩ := mem_map.mp hmem
  obtain ⟨hm, hpositioned⟩ := mem_filter.mp hm
  rw [inj_on_of_nodup_map hnodup hm hn hid] at hpositioned
  simp [hx, hy] at hpositioned

theorem layoutNode_child {n : NodeConfig} (hn : n ∈ nodes) (hy : n.y ≠ 0) : layoutNode place nodes n = n :=
  if_pos (mem_map_of_mem (mem_filter.mpr ⟨hn, by simp [hy]⟩))

theorem map_layoutNode (hnodup : (nodes.map (·.id)).Nodup) (hsub : es.flatMap drawnNodes ⊆ nodes) :
    (es.flatMap drawnNodes).map (layoutNode place nodes) = (slots place es).map (·.config) := by
  rw [slots, map_flatMap, map_flatMap]
  refine flatMap_congr fun e he => ?_
  have hmem (n : NodeConfig) (hn : n ∈ drawnNodes e) : n ∈ nodes := hsub (mem_flatMap.mpr ⟨e, he, hn⟩)
  cases e with
  | step s =>
    rw [drawnNodes, map_singleton, layoutNode_origin hnodup (hmem _ mem_cons_self) rfl rfl]
    rfl
  | loop l steps =>
    rw [drawnNodes, map_cons, layoutNode_origin hnodup (hmem _ mem_cons_self) rfl rfl, slotsOf, map_cons,
      childNodes, map_map, map_map]
    refine congrArg _ (map_congr_left fun p hp => ?_)
    refine layoutNode_child (hmem _ (mem_cons_of_mem _ (mem_map_of_mem hp))) ?_
    exact (by decide : (40 : ℚ) ≠ 0)

theorem map_id_drawnNodes (place : Placement) (es : List Entry) :
    (es.flatMap drawnNodes).map (·.id) = (slots place es).map (·.config.id) := by
  rw [slots, map_flatMap, map_flatMap]
  refine flatMap_congr fun e _ => ?_
  cases e with
  | step s => rfl
  | loop l steps =>
    rw [drawnNodes, slotsOf, map_cons, map_cons, childNodes, map_map, map_map]
    rfl

end Slots

/-! ## The graph -/

section Graph

variable {data : GraphData}

theorem parentOf_some {nodes : List NodeConfig} {n : NodeConfig} (hn : n ∈ nodes) {p : String}
    (h : parentOf nodes n = some p) : (∃ data, n.data = .script data) ∧ p ∈ containerNodeIds nodes := by
  unfold parentOf at h
  split at h
  · cases h
  · next hnot =>
    have hloop : n.data.isLoop = false := Bool.eq_false_iff.mpr fun hloop =>
      hnot (mem_map_of_mem (mem_filter.mpr ⟨hn, hloop⟩))
    cases hdata : n.data with
    | script data =>
      rw [hdata] at h
      exact ⟨⟨data, rfl⟩, mem_of_find?_eq_some h⟩
    | loop data =>
      rw [hdata] at hloop
      cases hloop
    | scopeVariables values =>
      rw [hdata] at h
      cases h

theorem importData_nodes (data : GraphData) : (importData data).nodes.Perm (data.nodes.map (addNode data.nodes)) :=
  (filter_append_perm _ _).map _

theorem mem_importData {n : Node} :
    n ∈ (importData data).nodes ↔ ∃ config ∈ data.nodes, addNode data.nodes config = n := by
  rw [(importData_nodes data).mem_iff, mem_map]

theorem isLoop_of_parent {n : Node} (hn : n ∈ (importData data).nodes) (hparent : n.parent.isSome = true) :
    n.data.isLoop = false := by
  obtain ⟨config, hconfig, rfl⟩ := mem_importData.mp hn
  obtain ⟨p, hp⟩ := Option.isSome_iff_exists.mp hparent
  obtain ⟨⟨step, hdata⟩, -⟩ := parentOf_some hconfig hp
  rw [addNode, hdata]
  rfl

theorem importData_shallow (hnodup : (data.nodes.map (·.id)).Nodup)
    (hdata : ∀ n ∈ data.nodes, (∀ step, n.data = .script step → step.stepId = n.id) ∧
      ∀ loop, n.data = .loop loop → loop.loopId = n.id) : (importData data).Shallow := by
  refine ⟨?_, fun n hn step hstep => ?_, fun n hn loop hloop => ?_, fun n hn p hparent => ?_⟩
  · have hperm := (importData_nodes data).map (·.id)
    rw [map_map] at hperm
    exact hperm.nodup_iff.mpr hnodup
  · obtain ⟨config, hconfig, rfl⟩ := mem_importData.mp hn
    exact (hdata config hconfig).1 step hstep
  · obtain ⟨config, hconfig, rfl⟩ := mem_importData.mp hn
    exact (hdata config hconfig).2 loop hloop
  · obtain ⟨config, hconfig, rfl⟩ := mem_importData.mp hn
    obtain ⟨hstep, hp⟩ := parentOf_some hconfig hparent
    obtain ⟨c, hc, rfl⟩ := mem_map.mp hp
    refine ⟨hstep, addNode data.nodes c, mem_importData.mpr ⟨c, (mem_filter.mp hc).1, rfl⟩, rfl,
      (mem_filter.mp hc).2, if_pos hp⟩

end Graph

/-! ## Edges -/

def Links (edges : List EdgeConfig) (source target : String) : Prop := ∃ e ∈ edges, e.source = source ∧ e.target = target

theorem links_append {edges edges' : List EdgeConfig} {source target : String} :
    Links (edges ++ edges') source target ↔ Links edges source target ∨ Links edges' source target := by
  simp only [Links, mem_append, or_and_right, exists_or]

theorem links_flatMap {α : Type} {xs : List α} {f : α → List EdgeConfig} {source target : String} :
    Links (xs.flatMap f) source target ↔ ∃ x ∈ xs, Links (f x) source target := by
  simp only [Links, mem_flatMap]
  constructor
  · rintro ⟨e, ⟨x, hx, he⟩, h⟩
    exact ⟨x, hx, e, he, h⟩
  · rintro ⟨x, hx, e, he, h⟩
    exact ⟨e, ⟨x, hx, he⟩, h⟩

theorem links_preconditionEdges {s : YamlStep} {source target : String} :
    Links (preconditionEdges s) source target ↔ source ∈ s.preconditions ∧ s.id = target := by
  simp only [Links, preconditionEdges, mem_map]
  constructor
  · rintro ⟨_, ⟨p, hp, rfl⟩, rfl, rfl⟩
    exact ⟨hp, rfl⟩
  · rintro ⟨hp, rfl⟩
    exact ⟨_, ⟨source, hp, rfl⟩, rfl, rfl⟩

theorem loopBackEdges_mem {steps : List YamlStep} {e : EdgeConfig} (he : e ∈ loopBackEdges steps) :
    ∃ first ∈ steps, ∃ last ∈ steps, e = loopBackEdge first last := by
  match steps, he with
  | first :: second :: rest, he =>
    exact ⟨first, mem_cons_self, _, mem_cons_of_mem _ (getLast_mem _), mem_singleton.mp he⟩

variable {edges : List EdgeConfig}

theorem connected_iff {source target : String} : connected edges source target = true ↔ Links edges source target := by
  simp [connected, Links]

def Entry.isFree : Entry → Bool
  | .step s => s.preconditions.isEmpty
  | .loop _ _ => true

theorem isOpen_iff {current next : Entry} (h : ∀ s, next = .step s → current.id ∉ s.preconditions) :
    isOpen current next = current.isFree := by
  cases current with
  | loop l steps => rfl
  | step t =>
    cases next with
    | loop l steps => simp [isOpen, Entry.isFree, Entry.step?]
    | step s =>
      have hnot : t.id ∉ s.preconditions := h s rfl
      simp [isOpen, Entry.isFree, Entry.step?, hnot]

theorem infix_pair_iff {α : Type} {a b c d : α} {xs : List α} :
    [a, b] <:+: c :: d :: xs ↔ a = c ∧ b = d ∨ [a, b] <:+: d :: xs := by
  rw [infix_cons_iff, cons_prefix_cons, cons_prefix_cons]
  simp

theorem links_addSequentialEdge {current next : Entry} {source target : String}
    (hpre : ∀ s, next = .step s → ∀ p ∈ s.preconditions, Links edges p s.id) :
    Links (addSequentialEdge edges current next) source target ↔ Links edges source target ∨
      current.isFree = true ∧ current.id = source ∧ next.id = target := by
  unfold addSequentialEdge
  split
  · next hconnected =>
    refine ⟨.inl, ?_⟩
    rintro (h | ⟨-, rfl, rfl⟩)
    · exact h
    · exact connected_iff.mp hconnected
  · next hconnected =>
    have hopen : isOpen current next = current.isFree := isOpen_iff fun s hs hmem => by
      subst hs
      exact hconnected (connected_iff.mpr (hpre s rfl _ hmem))
    rw [hopen]
    split
    · next hfree => simp [Links, or_and_right, exists_or, hfree]
    · next hfree => simp [hfree]

theorem links_addSequentialEdges {source target : String}
    (hpre : ∀ s, .step s ∈ es → ∀ p ∈ s.preconditions, Links edges p s.id) :
    Links (addSequentialEdges edges es) source target ↔ Links edges source target ∨
      ∃ current next, [current, next] <:+: es ∧ current.isFree = true ∧ current.id = source ∧ next.id = target := by
  induction es generalizing edges with
  | nil => simp [addSequentialEdges]
  | cons current es ih =>
    cases es with
    | nil => simp [addSequentialEdges, infix_cons_iff]
    | cons next rest =>
      have hstep (s t : String) := @links_addSequentialEdge edges current next s t fun s hs =>
        hpre s (hs ▸ mem_cons_of_mem _ mem_cons_self)
      have hpre' (s : YamlStep) (hs : .step s ∈ next :: rest) (p : String) (hp : p ∈ s.preconditions) :
          Links (addSequentialEdge edges current next) p s.id :=
        (hstep p s.id).mpr (.inl (hpre s (mem_cons_of_mem _ hs) p hp))
      rw [addSequentialEdges, ih hpre', hstep, or_assoc]
      refine or_congr_right ⟨?_, ?_⟩
      · rintro (h | ⟨a, b, hab, h⟩)
        · exact ⟨current, next, infix_pair_iff.mpr (.inl ⟨rfl, rfl⟩), h⟩
        · exact ⟨a, b, infix_pair_iff.mpr (.inr hab), h⟩
      · rintro ⟨a, b, hab, h⟩
        rcases infix_pair_iff.mp hab with ⟨rfl, rfl⟩ | hab
        · exact .inl h
        · exact .inr ⟨a, b, hab, h⟩

theorem forall_addSequentialEdges {P : EdgeConfig → Prop}
    (hedges : ∀ e ∈ edges, P e) (hnew : ∀ a ∈ es, ∀ b ∈ es, P { source := a.id, target := b.id }) :
    ∀ e ∈ addSequentialEdges edges es, P e := by
  induction es generalizing edges with
  | nil => exact hedges
  | cons current es ih =>
    cases es with
    | nil => exact hedges
    | cons next rest =>
      rw [addSequentialEdges]
      refine ih ?_ fun a ha b hb => hnew a (mem_cons_of_mem _ ha) b (mem_cons_of_mem _ hb)
      unfold addSequentialEdge
      split
      · exact hedges
      · split
        · rw [forall_mem_append, forall_mem_singleton]
          exact ⟨hedges, hnew _ mem_cons_self _ (mem_cons_of_mem _ mem_cons_self)⟩
        · exact hedges

structure Standard (ids : List String) (e : EdgeConfig) : Prop where
  source : e.source ∈ ids
  target : e.target ∈ ids
  sourcePort : e.sourcePort.getD (outputPort e.source) = outputPort e.source
  targetPort : e.targetPort.getD (inputPort e.target) = inputPort e.target
  status : e.status = some .passed

theorem infix_of_infix_append {a : Char} {as pre text : List Char} (ha : a ∉ pre) (h : a :: as <:+: pre ++ text) :
    a :: as <:+: text := by
  induction pre with
  | nil => exact h
  | cons c pre ih =>
    rw [mem_cons, not_or] at ha
    rw [cons_append, infix_cons_iff, cons_prefix_cons] at h
    rcases h with ⟨rfl, -⟩ | h
    · exact absurd rfl ha.1
    · exact ih ha.2 h

theorem mentionsLoopBack_append {pre : String} (hpre : 'l' ∉ pre.toList) (id : String) :
    mentionsLoopBack (pre ++ id) = mentionsLoopBack id := by
  unfold mentionsLoopBack
  rw [String.toList_append, decide_eq_decide]
  exact ⟨infix_of_infix_append hpre, fun h => h.trans (suffix_append _ _).isInfix⟩

/-- The ports are named after the ids. -/
def Shown (source target : String) : Prop := mentionsLoopBack source = false ∧ mentionsLoopBack target = false

theorem Standard.isPrecondition_iff {g : Graph} {ids : List String} {e : EdgeConfig} (h : Standard ids e)
    (hnodes : ∀ id ∈ ids, g.hasNode id = true) : isPrecondition g (addEdge e) = true ↔ Shown e.source e.target := by
  have hsource : mentionsLoopBack (outputPort e.source) = mentionsLoopBack e.source :=
    mentionsLoopBack_append (by decide) _
  have htarget : mentionsLoopBack (inputPort e.target) = mentionsLoopBack e.target :=
    mentionsLoopBack_append (by decide) _
  simp [isPrecondition, Shown, addEdge, h.sourcePort, h.targetPort, h.status, hsource, htarget, hnodes _ h.source,
    hnodes _ h.target]

end AteStudio.Frontend
