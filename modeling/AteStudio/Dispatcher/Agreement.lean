import AteStudio.Compiler.Locality
import AteStudio.Dispatcher.Order

/-! # The dispatcher and the compiler on one plan -/

namespace AteStudio.Dispatcher

open Compiler List
open Waves (Before)

/-- The nodes are the occurrences of the steps, each is reported once as passed, and edges point backwards. -/
def Agree {σ : Type} (env : Env σ) (plan : YamlPlan) (world : σ) : Prop :=
  ∃ nodes, ∃ order : List Occ, compile plan = .ok nodes ∧ nodes.map (·.id) = (occs plan.steps).map Occ.id ∧
    order.Perm (occs plan.steps) ∧ run env plan world = order.map passed ∧
      ∀ e ∈ depEdges nodes, Before (order.map Occ.id) e.1 e.2

/-- A loop that is depended on has a leaf of its own, and a leaf `item` is not repeated. -/
def LoopTarget (p : List Frame) (item : Item) : Item → Prop
  | .loop l steps => l.id ∈ item.dependsOn →
      directIds steps ≠ [] ∧ ((leafOf? item).isSome = true → ∀ f ∈ p, f.iter = some (0, 1))
  | _ => True

/-- A loop hands its dependencies down only at the top of the plan, and only those on leaves. -/
def Gate (b : List Frame × List Item) : Item → Prop
  | .loop l steps =>
    (∃ child ∈ steps, (leafOf? child).isSome = true ∧ child.dependsOn = []) → l.dependsOn ≠ [] →
      b.1 = [] ∧ ∀ t ∈ l.dependsOn, t ∈ directIds b.2
  | _ => True

instance (p : List Frame) (item : Item) : DecidablePred (LoopTarget p item)
  | .loop .. => inferInstanceAs (Decidable (_ → _ ∧ _))
  | .step .. | .raw _ => isTrue trivial

instance (b : List Frame × List Item) : DecidablePred (Gate b)
  | .loop .. => inferInstanceAs (Decidable ((∃ child ∈ _, _) → _ → _ ∧ _))
  | .step .. | .raw _ => isTrue trivial

/-- Dependencies in one scope without cycles, distinct expanded ids, and loops that resolve to what has run. -/
structure Aligned (plan : YamlPlan) : Prop where
  named : ∀ b ∈ planScopes plan.steps, ∀ item ∈ b.2, ∀ d ∈ deps item, d ∈ b.2.map Item.id
  acyclic : ∀ b ∈ planScopes plan.steps, Kahn.Acyclic (Waves.edges Item.id deps b.2)
  tried : ∀ o ∈ occs plan.steps, Tried o.leaf
  distinct : ((occs plan.steps).map Occ.id).Nodup
  loopTargets : ∀ b ∈ planScopes plan.steps, ∀ item ∈ b.2, ∀ j ∈ b.2, LoopTarget b.1 item j
  gates : ∀ b ∈ planScopes plan.steps, ∀ item ∈ b.2, Gate b item

/-! ## Simple plans -/

variable {items : List Item}

theorem simple_scope (h : simple items = true) {b : List Frame × List Item}
    (hb : b ∈ planScopes items) : simple b.2 = true := by
  induction hb using planScopes_induction with
  | top => exact h
  | inside items item f steps b hi hopen _ ih =>
    have hitem := simple_iff.mp h item hi
    cases hopen with
    | sub hs => rw [(simple_step hitem).2] at hs; cases hs
    | loop => exact ih (loop_counted hitem).2.2.2

theorem simple_cases {item : Item} (h : simpleItem item = true) :
    (∃ s, leafOf? item = some (.step s) ∧ s.id = item.id ∧ s.dependsOn = item.dependsOn ∧
      (s.type = none ∨ s.type = some .script ∨ s.type = some .action)) ∨
    ∃ l steps, item = .loop l steps ∧ Opens item (loopFrame l 0) steps := by
  cases item with
  | step s steps =>
    obtain ⟨htype, hsub⟩ := simple_step h
    exact .inl ⟨s, by simp [leafOf?, hsub], rfl, rfl, htype⟩
  | loop l steps =>
    obtain ⟨hexp, hpos, _⟩ := loop_counted h
    exact .inr ⟨l, steps, rfl, .loop hexp hpos⟩
  | raw entry => simp [simpleItem] at h

theorem simple_objects (h : simple items = true) : anyReachesRaw items = false := by
  induction items using Item.list_induction with
  | nil => rw [anyReachesRaw]
  | raw entry items _ => simp [simple, simpleItem] at h
  | step s steps items _ ih =>
    rw [simple, Bool.and_eq_true] at h
    simp [anyReachesRaw, reachesRaw, (simple_step h.1).2, ih h.2]
  | loop l steps items ihs ih =>
    rw [simple, Bool.and_eq_true] at h
    simp [anyReachesRaw, reachesRaw, ihs (loop_counted h.1).2.2.2, ih h.2]

theorem dependsOn_subset_deps (item : Item) : item.dependsOn ⊆ deps item := by
  cases item with
  | step s steps => exact subset_append_left _ _
  | loop l steps => exact fun _ h => h
  | raw entry => exact fun _ h => h

theorem nodup_ids (h : simple items = true) (hd : (ids items).Nodup) : (items.map Item.id).Nodup := by
  have hmem {item : Item} (h : simpleItem item = true) : item.id ∈ idsItem item := by
    cases item <;> simp_all [simpleItem, idsItem, Item.id]
  induction items with
  | nil => simp
  | cons item items ih =>
    rw [simple, Bool.and_eq_true] at h
    rw [ids, nodup_append] at hd
    rw [map_cons, nodup_cons]
    refine ⟨fun hin => ?_, ih h.2 hd.2.1⟩
    obtain ⟨item', hi', hid⟩ := mem_map.mp hin
    exact hd.2.2 _ (hmem h.1) _ (idsItem_subset hi' (hmem (simple_iff.mp h.2 item' hi'))) hid.symm

/-! ## What references inside one scope resolve to -/

section References

variable {items : List Item} {b : List Frame × List Item} {item : Item}

theorem leaf_occ (hb : b ∈ planScopes items) (hi : item ∈ b.2) {leaf : Leaf}
    (hl : leafOf? item = some leaf) : ⟨b.1, leaf⟩ ∈ occs items := by
  simpa [Occ.within] using occs_of_planScope hb (mem_occs_leaf hi hl)

theorem lookup_leaf (hd : (ids items).Nodup) (hb : b ∈ planScopes items) (hi : item ∈ b.2)
    {leaf : Leaf} (hl : leafOf? item = some leaf) {frames : Frames} (hpre : framesOf b.1 <+: frames) :
    lookupTarget (assignPlan items) frames leaf.id = some (idAt b.1 leaf.id) := by
  rw [lookupTarget, scopeLookup_complete hd (leaf_occ hb hi hl) hpre]
  rfl

variable {steps : List Item}

theorem inner_occ (hb : b ∈ planScopes items) (hi : item ∈ b.2) {f : Frame}
    (hopen : Opens item f steps) (hleaf : directIds steps ≠ []) : ∃ leaf, ⟨b.1 ++ [f], leaf⟩ ∈ occs items := by
  obtain ⟨t, ht⟩ := exists_mem_of_ne_nil _ hleaf
  obtain ⟨o, ho, hp, _⟩ := mem_directIds_iff.mp ht
  refine ⟨o.leaf, ?_⟩
  simpa [Occ.within, hp] using occs_of_planScope hb (mem_occs_inside hi hopen ho)

theorem lookup_loop (hd : (ids items).Nodup) (hb : b ∈ planScopes items) (hi : item ∈ b.2)
    {f : Frame} (hopen : Opens item f steps) (hleaf : directIds steps ≠ []) :
    ∃ a ∈ occs items, StandsFor f.container a ∧
      ∀ frames, lookupTarget (assignPlan items) frames f.container = some a.id := by
  obtain ⟨a, ha⟩ := Option.isSome_iff_exists.mp (terminalOf_isSome hb hi hopen hleaf)
  obtain ⟨hmem, hst⟩ := terminalOf_spec items f.container a ha
  obtain ⟨leaf, hocc⟩ := inner_occ hb hi hopen hleaf
  refine ⟨a, hmem, hst, fun frames => ?_⟩
  -- No scope has a leaf of that name.
  have hnone : scopeLookup (assignPlan items) frames f.container = none := by
    cases hs : scopeLookup (assignPlan items) frames f.container with
    | none => rfl
    | some e =>
      obtain ⟨o, ho, _, hid, _⟩ := scopeLookup_sound hs
      exact absurd hid (leaf_ne_container hd ho hocc (by simp))
  rw [lookupTarget, hnone, plan_terminal, ha]
  rfl

theorem standsFor_within (hd : (ids items).Nodup) (hb : b ∈ planScopes items) (hi : item ∈ b.2)
    {f : Frame} (hopen : Opens item f steps) (hleaf : directIds steps ≠ [])
    (honce : ∀ g ∈ b.1, g.iter = some (0, 1)) {a : Occ} (ha : a ∈ occs items) (hst : StandsFor f.container a) :
    ∃ o ∈ occsItem item, a = o.within b.1 := by
  obtain ⟨leaf, hocc⟩ := inner_occ hb hi hopen hleaf
  obtain ⟨hfin, p, g, r, hp, hc, _⟩ := hst
  have hheads := (heads_of_container hd ha hocc hp (show _ = b.1 ++ f :: [] from rfl) hc).1
  have hframes : framesOf p = framesOf b.1 := by
    refine frames_eq_of_heads hheads (fun g hg => hfin g (by simp [hp, hg])) fun g hg n k hnk => ?_
    rw [honce g hg] at hnk
    cases hnk
    rfl
  obtain rfl := path_ext hheads hframes
  obtain ⟨o, ho, rfl, hpath⟩ := occ_in_scope hd hb ha hp
  rcases mem_occs_iff.mp ho with ⟨_, _, _, h⟩ | ⟨item', hi', f', steps', hopen', o', ho', rfl⟩
  · simp [h] at hpath
  · obtain ⟨rfl, _⟩ : f' = g ∧ o'.path = r := by simpa using hpath
    obtain rfl := same_item (nodup_planScope hd hb) hi hi' (hc ▸ hopen.container_mem) hopen'.container_mem
    exact ⟨_, mem_occsItem_iff.mpr (.inr ⟨f', steps', hopen', o', ho', rfl⟩), rfl⟩

end References

theorem leafOf?_fields {item : Item} {leaf : Leaf} (h : leafOf? item = some leaf) :
    leaf.id = item.id ∧ leaf.dependsOn = item.dependsOn := by
  obtain ⟨_, _, rfl, _, rfl⟩ | ⟨_, _, rfl, _, rfl⟩ := leafOf?_cases h <;> exact ⟨rfl, rfl⟩

/-! ## Aligned plans -/

section Aligned

variable {plan : YamlPlan} {b : List Frame × List Item} {t : String} {item : Item}

theorem Aligned.sibling (h : Aligned plan) (hb : b ∈ planScopes plan.steps) (hi : item ∈ b.2)
    (ht : t ∈ item.dependsOn) : ∃ j ∈ b.2, j.id = t ∧ j.id ∈ deps item := by
  obtain ⟨j, hj, rfl⟩ := mem_map.mp (h.named b hb item hi t (dependsOn_subset_deps item ht))
  exact ⟨j, hj, rfl, dependsOn_subset_deps item ht⟩

theorem Aligned.handed (h : Aligned plan) (hsimple : simple plan.steps = true) {o : Occ}
    (ho : o ∈ occs plan.steps) (hown : o.leaf.dependsOn = []) {p : List Frame} {f : Frame}
    (hp : o.path = p ++ [f]) (ht : t ∈ f.deps) :
    p = [] ∧ ∃ j ∈ plan.steps, ∃ leaf, leafOf? j = some leaf ∧ leaf.id = t ∧
      ∃ item ∈ plan.steps, j.id ∈ deps item ∧ o ∈ occsItem item := by
  obtain ⟨b, hb, rfl, item, hi, steps, hopen, hocc⟩ := container_of_occ ho hp
  obtain ⟨child, hchild, hl⟩ := leaf_of_occ hocc rfl
  rcases simple_cases (simple_iff.mp (simple_scope hsimple hb) item hi) with
    ⟨s, hls, _⟩ | ⟨l, steps', rfl, _⟩
  · cases hopen <;> simp_all [leafOf?]
  obtain rfl : steps = steps' := by cases hopen; rfl
  have hdeps : f.deps = l.dependsOn := by cases hopen; rfl
  rw [hdeps] at ht
  have hbare : ∃ child ∈ steps, (leafOf? child).isSome = true ∧ child.dependsOn = [] :=
    ⟨child, hchild, by simp [hl], by rw [← (leafOf?_fields hl).2, hown]⟩
  obtain ⟨hnil, hdirect⟩ := h.gates b hb (.loop l steps) hi hbare (ne_nil_of_mem ht)
  obtain rfl : b = ([], plan.steps) := by
    rcases mem_planScopes_iff.mp hb with h | ⟨_, _, _, _, _, _, _, rfl⟩
    · exact h
    · simp at hnil
  have hd' := hdirect t ht
  unfold directIds at hd'
  obtain ⟨leaf, hleaf, rfl⟩ := mem_map.mp hd'
  obtain ⟨j, hj, hlj⟩ := mem_filterMap.mp hleaf
  refine ⟨rfl, j, hj, leaf, hlj, rfl, _, hi, by rw [← (leafOf?_fields hlj).1]; exact ht, ?_⟩
  refine mem_occsItem_iff.mpr (.inr ⟨f, steps, hopen, ⟨[], o.leaf⟩, mem_occs_leaf hchild hl, ?_⟩)
  obtain ⟨path, leaf'⟩ := o
  simpa [Occ.within] using hp

theorem lookup_top (hd : (ids plan.steps).Nodup) {j : Item} (hj : j ∈ plan.steps) {leaf : Leaf}
    (hl : leafOf? j = some leaf) (frames : Frames) :
    lookupTarget (assignPlan plan.steps) frames leaf.id = some leaf.id := by
  have hid : idAt [] leaf.id = leaf.id := by simp [idAt, prefixOf, suffixOf]
  have hpre : framesOf [] <+: frames := nil_prefix
  have hlook := lookup_leaf hd (b := ([], plan.steps)) mem_cons_self hj hl hpre
  rw [hlook, hid]

theorem branchResolves_simple {st : Tables} {frames : Frames} (h : simpleItem item = true)
    {leaf : Leaf} (hl : leafOf? item = some leaf) : BranchResolves st frames leaf := by
  rcases simple_cases h with ⟨s, hls, _, _, htype⟩ | ⟨l, steps, rfl, hopen⟩
  · obtain rfl : leaf = .step s := Option.some.inj (hl.symm.trans hls)
    intro hbranch
    rcases htype with h | h | h <;> rw [h] at hbranch <;> cases hbranch
  · cases hopen
    simp_all [leafOf?]

section

variable (h : Aligned plan) (hsimple : simple plan.steps = true) (hd : (ids plan.steps).Nodup)

include h hsimple hd

theorem Aligned.sequenced (hb : b ∈ planScopes plan.steps) : Sequenced b.2 :=
  ⟨nodup_ids (simple_scope hsimple hb) (nodup_planScope hd hb), h.named b hb, h.acyclic b hb⟩

theorem Aligned.resolves (hb : b ∈ planScopes plan.steps) (hi : item ∈ b.2) (ht : t ∈ item.dependsOn) :
    ∃ e, lookupTarget (assignPlan plan.steps) (framesOf b.1) t = some e := by
  obtain ⟨j, hj, rfl, _⟩ := h.sibling hb hi ht
  rcases simple_cases (simple_iff.mp (simple_scope hsimple hb) j hj) with
    ⟨s, hl, hid, _⟩ | ⟨l, steps, rfl, hopen⟩
  · rw [← hid]
    exact ⟨_, lookup_leaf hd hb hj hl (prefix_refl _)⟩
  · obtain ⟨a, _, _, ha⟩ := lookup_loop hd hb hj hopen (h.loopTargets b hb item hi (.loop l steps) hj ht).1
    exact ⟨_, ha _⟩

theorem Aligned.own_before {order : List Occ} (hordered : Ordered order (planScopes plan.steps)) (hb : b ∈ planScopes plan.steps)
    (hi : item ∈ b.2) {leaf : Leaf} (hl : leafOf? item = some leaf) {e : String}
    (ht : t ∈ leaf.dependsOn) (he : lookupTarget (assignPlan plan.steps) (framesOf b.1) t = some e) :
    Before (order.map Occ.id) e (idAt b.1 leaf.id) := by
  rw [(leafOf?_fields hl).2] at ht
  obtain ⟨j, hj, rfl, hdep⟩ := h.sibling hb hi ht
  have hleaf : ⟨[], leaf⟩ ∈ occsItem item := mem_occsItem_iff.mpr (.inl ⟨hl, rfl⟩)
  have hbefore {o : Occ} (ho : o ∈ occsItem j) :
      Before (order.map Occ.id) (o.within b.1).id (idAt b.1 leaf.id) := by
    simpa [Occ.id] using (hordered b hb j hj item hi hdep o ho _ hleaf).map Occ.id
  rcases simple_cases (simple_iff.mp (simple_scope hsimple hb) j hj) with
    ⟨s, hls, hid, _⟩ | ⟨l, steps, rfl, hopen⟩
  · rw [← hid, show s.id = (Leaf.step s).id from rfl, lookup_leaf hd hb hj hls (prefix_refl _)] at he
    cases he
    simpa [Occ.id] using hbefore (mem_occsItem_iff.mpr (.inl ⟨hls, rfl⟩) : ⟨[], .step s⟩ ∈ occsItem j)
  · obtain ⟨hdirect, honce⟩ := h.loopTargets b hb item hi (.loop l steps) hj ht
    obtain ⟨a, ha, hst, hlook⟩ := lookup_loop hd hb hj hopen hdirect
    obtain ⟨o, ho, rfl⟩ := standsFor_within hd hb hj hopen hdirect (honce (by simp [hl])) ha hst
    have hlook' : lookupTarget (assignPlan plan.steps) (framesOf b.1) l.id = _ := hlook _
    rw [show (Item.loop l steps).id = l.id from rfl, hlook'] at he
    cases he
    exact hbefore ho

theorem Aligned.handed_before {o : Occ} (ho : o ∈ occs plan.steps) (hown : o.leaf.dependsOn = [])
    {p : List Frame} {f : Frame} (hp : o.path = p ++ [f]) (ht : t ∈ f.deps) {e : String}
    (he : lookupTarget (assignPlan plan.steps) (framesOf p) t = some e) :
    lookupTarget (assignPlan plan.steps) (framesOf o.path) e = some e ∧
      ∀ order, Ordered order (planScopes plan.steps) → Before (order.map Occ.id) e o.id := by
  obtain ⟨rfl, j, hj, leaf, hl, rfl, item, hi, hdep, hocc⟩ := h.handed hsimple ho hown hp ht
  rw [lookup_top hd hj hl] at he
  cases he
  refine ⟨lookup_top hd hj hl _, fun order hordered => ?_⟩
  have hbefore := hordered ([], plan.steps) mem_cons_self j hj item hi hdep ⟨[], leaf⟩
    (mem_occsItem_iff.mpr (.inl ⟨hl, rfl⟩)) o hocc
  simpa [Occ.id, idAt, prefixOf, suffixOf] using hbefore.map Occ.id

theorem Aligned.scopesResolve : ScopesResolve (assignPlan plan.steps) [] plan.steps := by
  intro c hc
  obtain ⟨b, hb, hp, item, hi, hdeps, _⟩ := planScope_of_scope hc
  rw [resolveTargets_isOk_iff, nil_append, ← hp, ← hdeps]
  exact fun t ht => h.resolves hsimple hd hb hi ht

theorem Aligned.nodes : ∃ nodes, expand plan = .ok nodes := by
  have hscopes := h.scopesResolve hsimple hd
  have hnode : ∀ o ∈ occs plan.steps, ∃ node, nodeOf (assignPlan plan.steps) o = .ok node := by
    intro o ho
    obtain ⟨b, hb, hp, item, hi, hl⟩ := planScope_of_occ ho
    apply nodeOf_isOk (inheritedAt_of_scopes hscopes ho)
    · intro t ht
      rw [← hp]
      exact h.resolves hsimple hd hb hi ((leafOf?_fields hl).2 ▸ ht)
    · intro hnil p f hpf t ht e he
      exact ⟨e, (h.handed_before hsimple hd ho hnil hpf ht he).1⟩
    · exact branchResolves_simple (simple_iff.mp (simple_scope hsimple hb) item hi) hl
  obtain ⟨nodes, hnodes⟩ := exists_forall₂ hnode
  refine ⟨nodes, ?_⟩
  rw [expand_eq (simple_objects hsimple), emitAt_ok_iff _ _ _ _ _ (inheritedAt_nil _)]
  exact ⟨hscopes, hnodes⟩

theorem Aligned.edges_before {nodes : List CompiledStep} (he : expand plan = .ok nodes) {order : List Occ}
    (hordered : Ordered order (planScopes plan.steps)) : ∀ e ∈ depEdges nodes, Before (order.map Occ.id) e.1 e.2 := by
  intro e hedge
  obtain ⟨node, hn, hmem⟩ := mem_flatMap.mp hedge
  obtain ⟨dep, hdep, rfl⟩ := mem_map.mp hmem
  obtain ⟨o, ho, hno⟩ := Forall₂.exists_left (expand_ok he) hn
  obtain ⟨_, _, hspec⟩ := nodeOf_ok hno
  simp only [hspec.id]
  rcases (mem_dependsOn_iff hno).mp hdep with ⟨t, ht, hte⟩ | ⟨hnil, p, f, hp, t, ht, e, hte, hed⟩
  · obtain ⟨b, hb, hp, item, hi, hl⟩ := planScope_of_occ ho
    rw [← hp] at hte ⊢
    exact h.own_before hsimple hd hordered hb hi hl ht hte
  · obtain ⟨hsame, hbefore⟩ := h.handed_before hsimple hd ho hnil hp ht hte
    rw [hsame] at hed
    cases hed
    exact hbefore order hordered

end

/-- Both agree on every aligned plan of scripts and counted loops, when every script passes. -/
theorem agree_of_aligned {σ : Type} (env : Env σ) (world : σ) (plan : YamlPlan)
    (hsimple : simple plan.steps = true) (hd : (ids plan.steps).Nodup) (henv : Passes env)
    (h : Aligned plan) : Agree env plan world := by
  obtain ⟨order, hperm, hruns, hordered⟩ := @scope_runs plan.steps _ env plan.fixtureId henv hsimple
    (fun b hb => h.sequenced hsimple hd hb) h.tried
  obtain ⟨nodes, he⟩ := h.nodes hsimple hd
  have hedges := h.edges_before hsimple hd he hordered
  have hids : (order.map Occ.id).Nodup := (hperm.map _).nodup_iff.mpr h.distinct
  have hac : Kahn.Acyclic (depEdges nodes) :=
    Kahn.acyclic_of_rank (fun id => (order.map Occ.id).idxOf id) fun e he => (hedges e he).idxOf_lt hids
  obtain ⟨_, hrun, _⟩ := hruns ⟨false, world, []⟩ rfl
  refine ⟨nodes, order, compile_ok_iff.mpr ⟨he, ?_, hac⟩, expand_ids he, hperm, ?_, hedges⟩
  · rw [expand_ids he]
    exact h.distinct
  · rw [run, hrun]

end Aligned

/-! ## Two plans -/

def bareEnv : Env Unit where
  scriptExecutor := none
  fixture := fun _ _ _ => (.done "", ())
  barrier := fun _ _ => (none, ())
  breakpointHook := none
  evalBreakpointCondition := fun _ => none
  str := fun _ => ""
  repr := fun _ => ""

theorem bareEnv_passes : Passes bareEnv := by
  intro executor h
  cases h

theorem loopPlan_aligned : Aligned loopPlan where
  named := by decide
  acyclic := by
    have hrank : ∀ b ∈ planScopes loopPlan.steps, ∀ e ∈ Waves.edges Item.id deps b.2,
        (if e.1 = "y" then 1 else 0) < (if e.2 = "y" then 1 else 0) := by decide
    exact fun b hb => Kahn.acyclic_of_rank (fun id => if id = "y" then 1 else 0) (hrank b hb)
  tried := by decide
  distinct := by decide
  loopTargets := by decide
  gates := by decide

theorem agree_loopPlan : Agree bareEnv loopPlan () :=
  agree_of_aligned bareEnv () loopPlan (by decide) (by decide) bareEnv_passes loopPlan_aligned

def outerStepPlan : YamlPlan :=
  { name := "plan", version := "1", steps := [
    .leaf { id := "a" },
    .loop { id := "L", loopType := .forLoop, count := some 1 } [.leaf { id := "x", dependsOn := ["a"] }]] }

/-- The compiler emits `x_iter0` after `a`, and the dispatcher reports `x` as blocked. -/
theorem not_agree_outerStepPlan :
    (simple outerStepPlan.steps = true ∧ ValidPlan outerStepPlan ∧ Passes bareEnv) ∧
      ¬ Agree bareEnv outerStepPlan () := by
  refine ⟨⟨by decide, ⟨by decide, by decide, ?_⟩, bareEnv_passes⟩, ?_⟩
  · exact Kahn.acyclic_of_rank (fun id => if id = "a" then 0 else 1) (by decide)
  · rintro ⟨nodes, order, _, _, _, hrun, _⟩
    have hblocked : ∃ oc ∈ run bareEnv outerStepPlan (), oc.status = .blocked := by decide
    rw [hrun] at hblocked
    obtain ⟨oc, hoc, hstatus⟩ := hblocked
    obtain ⟨o, _, rfl⟩ := List.mem_map.mp hoc
    cases hstatus

end AteStudio.Dispatcher
