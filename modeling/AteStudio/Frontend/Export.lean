import AteStudio.Frontend.Sorting
import AteStudio.Lib.Except

/-!
# What `graphToYaml` writes

The preconditions of a step are the sources of its edges: of all edges at the top level, and of the edges between two
children inside a container.
-/

namespace AteStudio.Frontend

open List

/-! ## The containment tree -/

/-- The loop an entry lies in and, for a step, the set of its preconditions. -/
structure Cell where
  id : String
  parent : Option String
  preconditions : Option (Finset String)
deriving DecidableEq

mutual

def cellsOf (parent : Option String) : Entry → List Cell
  | .step s => [⟨s.id, parent, some s.preconditions.toFinset⟩]
  | .loop l steps => ⟨l.id, parent, none⟩ :: cells (some l.id) steps

def cells (parent : Option String) : List Entry → List Cell
  | [] => []
  | e :: es => cellsOf parent e ++ cells parent es

end

theorem cells_eq (parent : Option String) (es : List Entry) : cells parent es = es.flatMap (cellsOf parent) := by
  induction es with
  | nil => rfl
  | cons e es ih => rw [cells, ih, flatMap_cons]

/-! ## Preconditions -/

theorem getD_set (d : Dict String (List String)) (k k' : String) (v : List String) :
    (d.set k v).getD k' [] = if k' = k then v else d.getD k' [] := by
  unfold Dict.getD
  rw [Dict.get?_set]
  split <;> rfl

variable (g : Graph)

theorem mem_addPrecondition (map : Dict String (List String)) (e : Edge) (target source : String) :
    source ∈ (addPrecondition g map e).getD target [] ↔ source ∈ map.getD target [] ∨
      isPrecondition g e = true ∧ e.target = target ∧ e.source = source := by
  unfold addPrecondition
  split
  · next hcounts =>
    dsimp only
    split
    · next hmem =>
      refine ⟨.inl, ?_⟩
      rintro (h | ⟨-, rfl, rfl⟩)
      · exact h
      · exact hmem
    · rw [getD_set]
      split
      · next htarget =>
        subst htarget
        simp [hcounts, eq_comm]
      · next htarget => simp [Ne.symm htarget]
  · next hcounts => simp [hcounts]

theorem mem_buildPreconditionMap (edges : List Edge) (target source : String) :
    source ∈ (buildPreconditionMap g edges).getD target [] ↔
      ∃ e ∈ edges, isPrecondition g e = true ∧ e.target = target ∧ e.source = source := by
  have hfold (map : Dict String (List String)) : source ∈ (edges.foldl (addPrecondition g) map).getD target [] ↔
      source ∈ map.getD target [] ∨ ∃ e ∈ edges, isPrecondition g e = true ∧ e.target = target ∧ e.source = source := by
    induction edges generalizing map with
    | nil => simp
    | cons e edges ih =>
      rw [foldl_cons, ih, mem_addPrecondition, or_assoc]
      simp only [exists_mem_cons_iff]
  rw [buildPreconditionMap, hfold]
  simp [Dict.getD]

/-! ## Converting nodes -/

def preconditionsIn (g : Graph) : Option String → Dict String (List String)
  | none => buildPreconditionMap g g.edges
  | some container => buildPreconditionMap g (internalEdges g container)

def exportedCell (g : Graph) (n : Node) : Cell where
  id := n.id
  parent := n.parent
  preconditions :=
    match n.data with
    | .script _ => some ((preconditionsIn g n.parent).getD n.id []).toFinset
    | _ => none

def nodeCells (g : Graph) (n : Node) : List Cell :=
  match n.data with
  | .scopeVariables _ => []
  | _ => [exportedCell g n]

variable {n : Node}

theorem nodeCells_script {data : ScriptStepData} (hdata : n.data = .script data) :
    nodeCells g n = [⟨n.id, n.parent, some ((preconditionsIn g n.parent).getD n.id []).toFinset⟩] := by
  simp [nodeCells, exportedCell, hdata]

theorem nodeCells_loop {data : LoopContainerData} (hdata : n.data = .loop data) :
    nodeCells g n = [⟨n.id, n.parent, none⟩] := by
  simp [nodeCells, exportedCell, hdata]

/-- A graph in which only steps have a parent, and that is a container without one. -/
structure Graph.Shallow (g : Graph) : Prop where
  nodup : (g.nodes.map (·.id)).Nodup
  stepId : ∀ n ∈ g.nodes, ∀ data, n.data = .script data → data.stepId = n.id
  loopId : ∀ n ∈ g.nodes, ∀ data, n.data = .loop data → data.loopId = n.id
  nested : ∀ n ∈ g.nodes, ∀ p, n.parent = some p → (∃ data, n.data = .script data) ∧
    ∃ c ∈ g.nodes, c.id = p ∧ c.data.isLoop = true ∧ c.parent = none

theorem textOr_self (text : String) : textOr text text = text := ite_self text

section Convert

variable {convertLoop : Node → LoopContainerData → Option Entry} {map : Dict String (List String)}
  {parent : Option String}

theorem convertNode_script {data : ScriptStepData} (hdata : n.data = .script data) (hid : data.stepId = n.id) :
    ∃ es, convertNode convertLoop map n = some es ∧ (es.map Entry.id).Sublist [n.id] ∧
      (cells parent es).Perm [⟨n.id, parent, some (map.getD n.id []).toFinset⟩] := by
  refine ⟨[.step (convertScriptStepToYaml n data map)], by rw [convertNode, hdata], ?_, ?_⟩
  · simp [Entry.id, convertScriptStepToYaml, hid, textOr_self]
  · simp [cells, cellsOf, convertScriptStepToYaml, hid, textOr_self]

theorem convertAll {f : Node → List Cell} {ns : List Node} (hnodup : (ns.map (·.id)).Nodup)
    (h : ∀ n ∈ ns, ∃ es, convertNode convertLoop map n = some es ∧ (es.map Entry.id).Sublist [n.id] ∧
      (cells parent es).Perm (f n)) :
    ∃ ess, ns.mapM (convertNode convertLoop map) = some ess ∧
      (cells parent (topologicalSort ess.flatten map)).Perm (ns.flatMap f) := by
  obtain ⟨ess, hess⟩ := exists_forall₂ h
  refine ⟨ess, mapM_eq_some_iff.mpr (hess.imp fun _ _ hn => hn.1), ?_⟩
  have hids : (ess.flatten.map Entry.id).Sublist (ns.map (·.id)) := by
    clear h hnodup
    induction hess with
    | nil => exact List.Sublist.slnil
    | cons hn _ ih =>
      rw [flatten_cons, map_append]
      exact hn.2.1.append ih
  have hcells : (cells parent ess.flatten).Perm (ns.flatMap f) := by
    clear h hnodup hids
    rw [cells_eq]
    induction hess with
    | nil => exact List.Perm.nil
    | cons hn _ ih =>
      rw [flatten_cons, flatMap_append, flatMap_cons, ← cells_eq]
      exact hn.2.2.append ih
  refine List.Perm.trans ?_ hcells
  rw [cells_eq, cells_eq]
  exact (sortBy_perm _ (hnodup.sublist hids)).flatMap_right _

end Convert

theorem flatMap_filter_perm {β κ : Type} [DecidableEq κ] (key : β → Option κ) (xs : List β) {keys : List κ}
    (hkeys : keys.Nodup) :
    (keys.flatMap fun k => xs.filter fun x => key x = some k).Perm (xs.filter fun x => (key x).any (· ∈ keys)) := by
  induction keys with
  | nil =>
    rw [flatMap_nil, filter_eq_nil_iff.mpr]
    rintro x - hx
    cases key x <;> simp at hx
  | cons k keys ih =>
    rw [nodup_cons] at hkeys
    rw [flatMap_cons]
    refine ((List.Perm.refl _).append (ih hkeys.2)).trans ?_
    refine List.Perm.trans (List.Perm.of_eq ?_) (filter_append_perm (fun x => decide (key x = some k)) _)
    rw [filter_filter, filter_filter]
    congr 1 <;> refine filter_congr fun x _ => ?_
    · cases key x with
      | none => rfl
      | some k' => by_cases hk : k' = k <;> simp [hk]
    · cases key x with
      | none => rfl
      | some k' =>
        by_cases hk : k' = k
        · simp [hk, hkeys.1]
        · simp [hk]

section Export

variable {g : Graph} (h : g.Shallow)

include h

theorem convertContainer (hn : n ∈ g.nodes) {data : LoopContainerData} (hdata : n.data = .loop data)
    (fuel : Nat) : ∃ e, convertLoopContainerToYaml g (fuel + 1) n data = some e ∧ e.id = n.id ∧
      (cellsOf none e).Perm (⟨n.id, none, none⟩ :: (g.children n.id).flatMap (nodeCells g)) := by
  have hid : (loopEntry n data).id = n.id := by
    rw [loopEntry, h.loopId n hn data hdata, textOr_self]
  obtain ⟨ess, hess, hperm⟩ : ∃ ess, (g.children n.id).mapM (convertNode (convertLoopContainerToYaml g fuel)
      (buildPreconditionMap g (internalEdges g n.id))) = some ess ∧ (cells (some n.id) (topologicalSort ess.flatten
      (buildPreconditionMap g (internalEdges g n.id)))).Perm ((g.children n.id).flatMap (nodeCells g)) := by
    refine convertAll (h.nodup.sublist (filter_sublist.map _)) fun c hc => ?_
    obtain ⟨hcmem, hparent⟩ := mem_filter.mp hc
    have hparent := of_decide_eq_true hparent
    obtain ⟨data, hcdata⟩ := (h.nested c hcmem n.id hparent).1
    have hcell : nodeCells g c = [⟨c.id, some n.id,
        some ((buildPreconditionMap g (internalEdges g n.id)).getD c.id []).toFinset⟩] := by
      rw [nodeCells_script g hcdata, hparent, preconditionsIn]
    rw [hcell]
    exact convertNode_script hcdata (h.stepId c hcmem data hcdata)
  refine ⟨.loop (loopEntry n data) (topologicalSort ess.flatten (buildPreconditionMap g (internalEdges g n.id))), ?_,
    hid, ?_⟩
  · rw [convertLoopContainerToYaml, hess]
    rfl
  · rw [cellsOf, hid]
    exact hperm.cons _

theorem children_eq_nil (hn : n ∈ g.nodes) (hdata : n.data.isLoop = false) : g.children n.id = [] := by
  refine filter_eq_nil_iff.mpr fun c hc hparent => ?_
  obtain ⟨-, c', hc', hid, hloop, -⟩ := h.nested c hc n.id (of_decide_eq_true hparent)
  rw [inj_on_of_nodup_map h.nodup hc' hn hid, hdata] at hloop
  cases hloop

theorem convertTopLevel (hn : n ∈ g.nodes) (hparent : n.parent = none) :
    ∃ es, convertNode (convertLoopContainerToYaml g g.nodes.length) (buildPreconditionMap g g.edges) n = some es ∧
      (es.map Entry.id).Sublist [n.id] ∧
      (cells none es).Perm (nodeCells g n ++ (g.children n.id).flatMap (nodeCells g)) := by
  cases hdata : n.data with
  | script data =>
    rw [children_eq_nil h hn (by rw [hdata]; rfl), flatMap_nil, append_nil,
      nodeCells_script g hdata, hparent, preconditionsIn]
    exact convertNode_script hdata (h.stepId n hn data hdata)
  | loop data =>
    obtain ⟨fuel, hfuel⟩ := Nat.exists_eq_add_one.mpr (length_pos_of_mem hn)
    obtain ⟨e, he, hid, hperm⟩ := convertContainer h hn hdata fuel
    refine ⟨[e], ?_, by rw [map_singleton, hid], ?_⟩
    · rw [convertNode, hdata, hfuel]
      exact congrArg (Option.map fun e => [e]) he
    · rw [cells, cells, append_nil, nodeCells_loop g hdata, hparent]
      exact hperm
  | scopeVariables values =>
    rw [children_eq_nil h hn (by rw [hdata]; rfl), nodeCells, hdata]
    exact ⟨[], by rw [convertNode, hdata], nil_sublist _, List.Perm.nil⟩

theorem flatMap_children_perm :
    ((topLevelNodes g).flatMap fun n => g.children n.id).Perm (g.nodes.filter fun n => !n.parent.isNone) := by
  have hkeys : ((topLevelNodes g).map (·.id)).Nodup := h.nodup.sublist (filter_sublist.map _)
  have hperm := flatMap_filter_perm (fun n : Node => n.parent) g.nodes hkeys
  rw [flatMap_map] at hperm
  refine hperm.trans (List.Perm.of_eq (filter_congr fun n hn => ?_))
  cases hparent : n.parent with
  | none => rfl
  | some p =>
    obtain ⟨-, c, hc, rfl, -, hctop⟩ := h.nested n hn p hparent
    simpa using ⟨c, mem_filter.mpr ⟨hc, by rw [hctop]; rfl⟩, rfl⟩

theorem graphToYaml_cells : ∃ exported, graphToYaml g = some exported ∧
    (cells none exported.steps).Perm (g.nodes.flatMap (nodeCells g)) := by
  have htop : ((topLevelNodes g).map (·.id)).Nodup := h.nodup.sublist (filter_sublist.map _)
  obtain ⟨ess, hess, hperm⟩ := convertAll htop fun n hn =>
    convertTopLevel h (mem_filter.mp hn).1 (Option.isNone_iff_eq_none.mp (mem_filter.mp hn).2)
  refine ⟨_, by rw [graphToYaml, hess]; rfl, hperm.trans ?_⟩
  refine (flatMap_append_perm _ _ _).symm.trans ?_
  rw [← flatMap_assoc]
  refine ((List.Perm.refl _).append ((flatMap_children_perm h).flatMap_right _)).trans ?_
  rw [← flatMap_append]
  exact (filter_append_perm _ _).flatMap_right _

end Export

/-! ## Loops in loops -/

theorem mem_convertAll {convertLoop : Node → LoopContainerData → Option Entry} {map : Dict String (List String)}
    {ns : List Node} {ess : List (List Entry)} (hess : ns.mapM (convertNode convertLoop map) = some ess) {e : Entry}
    (he : e ∈ topologicalSort ess.flatten map) : ∃ n ∈ ns, ∃ es, convertNode convertLoop map n = some es ∧ e ∈ es := by
  obtain ⟨es, hes, he⟩ := mem_flatten.mp (mem_of_mem_sortBy _ he)
  obtain ⟨n, hn, hconvert⟩ := Forall₂.exists_left (mapM_eq_some_iff.mp hess) hes
  exact ⟨n, hn, es, hconvert, he⟩

theorem parent_of_loopCell {g : Graph} (hnested : ∀ n ∈ g.nodes, n.parent.isSome = true → n.data.isLoop = false)
    {exported : YamlSequence} (hexport : graphToYaml g = some exported) {c : Cell} (hc : c ∈ cells none exported.steps)
    (hloop : c.preconditions = none) : c.parent = none := by
  obtain ⟨ess, hess, hexport⟩ := Option.bind_eq_some_iff.mp hexport
  cases hexport
  rw [cells_eq] at hc
  obtain ⟨e, he, hc⟩ := mem_flatMap.mp hc
  obtain ⟨n, -, es, hconvert, he⟩ := mem_convertAll hess he
  unfold convertNode at hconvert
  split at hconvert
  · cases hconvert
    cases mem_singleton.mp he
    cases mem_singleton.mp hc
    rfl
  · next data hdata =>
    obtain ⟨e', he', rfl⟩ := Option.map_eq_some_iff.mp hconvert
    cases mem_singleton.mp he
    generalize g.nodes.length = fuel at he'
    cases fuel with
    | zero => cases he'
    | succ fuel =>
      obtain ⟨ess', hess', he'⟩ := Option.bind_eq_some_iff.mp he'
      cases he'
      rcases mem_cons.mp hc with rfl | hc
      · rfl
      · -- A child is a step, so `c` is not the cell of a loop.
        rw [cells_eq] at hc
        obtain ⟨e, he, hc⟩ := mem_flatMap.mp hc
        obtain ⟨child, hchild, es, hconvert, he⟩ := mem_convertAll hess' he
        obtain ⟨hchild, hparent⟩ := mem_filter.mp hchild
        have hdata := hnested child hchild (by rw [of_decide_eq_true hparent]; rfl)
        unfold convertNode at hconvert
        split at hconvert
        · cases hconvert
          cases mem_singleton.mp he
          cases mem_singleton.mp hc
          cases hloop
        · next hchildData =>
          rw [hchildData] at hdata
          cases hdata
        · cases hconvert
          cases he
  · cases hconvert
    cases he

end AteStudio.Frontend
