import AteStudio.Compiler.Soundness

/-!
# Container gates

The compiler hands resolved ids down one level and then resolves them again, as if they were written in the plan.
-/

namespace AteStudio.Compiler

open Relation List
open Forall₂ (exists_right mem_iff)

/-! ## What the plan asks for -/

/-- Every leaf below a gate depends on what the targets of the gate resolve to where the gate stands. -/
def GatesSurvive (plan : YamlPlan) : Prop :=
  ∃ nodes, compile plan = .ok nodes ∧
    ∀ o ∈ occs plan.steps, ∀ p f q, o.path = p ++ f :: q → o.leaf.dependsOn = [] → (∀ g ∈ q, g.deps = []) →
      ∀ t ∈ f.deps, ∃ e, lookupTarget (assignPlan plan.steps) (framesOf p) t = some e ∧
        ∃ node ∈ nodes, node.id = o.id ∧ e ∈ node.dependsOn

/-- By its own `depends_on`, or by that of the container it is written in. -/
def Awaits (st : Tables) (o : Occ) (e : String) : Prop :=
  (∃ t ∈ o.leaf.dependsOn, lookupTarget st (framesOf o.path) t = some e) ∨
    o.leaf.dependsOn = [] ∧ ∃ p f, o.path = p ++ [f] ∧ ∃ t ∈ f.deps, lookupTarget st (framesOf p) t = some e

/-- A `then` or `else` list whose strings all resolve. -/
def ReferencesResolve (st : Tables) (frames : Frames) (v : PyVal) : Prop :=
  ∃ refs, v.iter? = some refs ∧ ∀ t ∈ refs.filterMap PyVal.str?, ∃ e, lookupTarget st frames t = some e

def BranchResolves (st : Tables) (frames : Frames) : Leaf → Prop
  | .step s => s.type = some .branch →
      ReferencesResolve st frames (s.params.getD "then" (.list [])) ∧
        ReferencesResolve st frames (s.params.getD "else" (.list []))
  | .deferred _ => True

/-- The ids handed down resolve once more, to the same nodes. -/
def HandedDown (st : Tables) (p : List Frame) (f : Frame) : Prop :=
  ∀ t ∈ f.deps, ∃ e, lookupTarget st (framesOf p) t = some e ∧
    (∃ e', lookupTarget st (framesOf (p ++ [f])) e = some e') ∧
      ∃ t' ∈ f.deps, ∃ e', lookupTarget st (framesOf p) t' = some e' ∧
        lookupTarget st (framesOf (p ++ [f])) e' = some e

structure GatesKept (plan : YamlPlan) : Prop where
  objects : anyReachesRaw plan.steps = false
  distinct : ((occs plan.steps).map Occ.id).Nodup
  containers : ∀ c ∈ scopes plan.steps, ∀ t ∈ c.2,
    ∃ e, lookupTarget (assignPlan plan.steps) (framesOf c.1) t = some e
  leaves : ∀ o ∈ occs plan.steps, ∀ t ∈ o.leaf.dependsOn,
    ∃ e, lookupTarget (assignPlan plan.steps) (framesOf o.path) t = some e
  branches : ∀ o ∈ occs plan.steps, BranchResolves (assignPlan plan.steps) (framesOf o.path) o.leaf
  handed : ∀ o ∈ occs plan.steps, o.leaf.dependsOn = [] → ∀ p f, o.path = p ++ [f] →
    HandedDown (assignPlan plan.steps) p f
  direct : ∀ o ∈ occs plan.steps, o.leaf.dependsOn = [] → ∀ p f q, o.path = p ++ f :: q → q ≠ [] →
    (∀ g ∈ q, g.deps = []) → f.deps = []
  acyclic : ∀ x, ¬ TransGen (fun a b => ∃ o ∈ occs plan.steps, o.id = b ∧ Awaits (assignPlan plan.steps) o a) x x

/-! ## When a leaf is emitted -/

variable {st : Tables}

theorem resolveTargets_isOk_iff {frames : Frames} {ts : List String} :
    (∃ r, resolveTargets st frames ts = .ok r) ↔ ∀ t ∈ ts, ∃ e, lookupTarget st frames t = some e := by
  simp only [resolveTargets_ok_iff]
  constructor
  · rintro ⟨r, hr⟩ t ht
    obtain ⟨e, _, he⟩ := exists_right hr ht
    exact ⟨e, he⟩
  · exact exists_forall₂

theorem resolveReferenceList_isOk_iff {frames : Frames} {v : PyVal} :
    (∃ r, resolveReferenceList st frames v = .ok r) ↔ ReferencesResolve st frames v := by
  unfold resolveReferenceList ReferencesResolve
  cases v.iter? <;> simp [resolveTargets_isOk_iff]

theorem emitLeaf_isOk_iff {p : List Frame} {inherited : List String} {leaf : Leaf} :
    (∃ node, emitLeaf st p inherited leaf = .ok node) ↔
      (∃ deps, resolveTargets st (framesOf p) (orElse leaf.dependsOn inherited) = .ok deps) ∧
        BranchResolves st (framesOf p) leaf := by
  cases leaf with
  | deferred l =>
    simp only [emitLeaf, emitDeferred, bind_eq_ok, pure_eq_ok, BranchResolves, Leaf.dependsOn, and_true]
    constructor
    · rintro ⟨_, deps, hd, rfl⟩
      exact ⟨deps, hd⟩
    · rintro ⟨deps, hd⟩
      exact ⟨_, deps, hd, rfl⟩
  | step s =>
    simp only [emitLeaf, emitStep, bind_eq_ok, BranchResolves, Leaf.dependsOn, ← resolveReferenceList_isOk_iff]
    by_cases hb : s.type = some .branch
    · simp only [hb, if_true, bind_eq_ok, pure_eq_ok, true_imp_iff]
      constructor
      · rintro ⟨_, deps, hd, t, ht, e, he, rfl⟩
        exact ⟨⟨deps, hd⟩, ⟨t, ht⟩, e, he⟩
      · rintro ⟨⟨deps, hd⟩, ⟨t, ht⟩, e, he⟩
        exact ⟨_, deps, hd, t, ht, e, he, rfl⟩
    · simp [hb, pure_eq_ok]

theorem orElse_nil (b : List String) : orElse [] b = b := rfl

theorem orElse_of_ne_nil {a : List String} (h : a ≠ []) (b : List String) : orElse a b = a := if_neg h

variable {o : Occ}

theorem mem_dependsOn_iff {node : CompiledStep} (h : nodeOf st o = .ok node) {a : String} :
    a ∈ node.dependsOn ↔
      (∃ t ∈ o.leaf.dependsOn, lookupTarget st (framesOf o.path) t = some a) ∨
        o.leaf.dependsOn = [] ∧ ∃ p f, o.path = p ++ [f] ∧ ∃ t ∈ f.deps, ∃ e,
          lookupTarget st (framesOf p) t = some e ∧ lookupTarget st (framesOf o.path) e = some a := by
  obtain ⟨inherited, hi, hs⟩ := nodeOf_ok h
  rw [mem_iff (resolveTargets_ok_iff.mp hs.dependsOn)]
  by_cases hown : o.leaf.dependsOn = []
  · rw [hown, orElse_nil]
    rcases eq_nil_or_concat' o.path with hp | ⟨p, f, hp⟩
    · rw [hp, inheritedAt_nil] at hi
      cases hi
      simp [hp]
    · rw [hp, inheritedAt_concat, resolveTargets_ok_iff] at hi
      simp only [mem_iff hi, hp]
      constructor
      · rintro ⟨e, ⟨t, ht, he⟩, ha⟩
        exact .inr ⟨trivial, p, f, rfl, t, ht, e, he, ha⟩
      · rintro (⟨t, ht, _⟩ | ⟨_, p', f', hp', t, ht, e, he, ha⟩)
        · simp at ht
        · obtain ⟨rfl, rfl⟩ : p = p' ∧ f = f' := by simpa using hp'
          exact ⟨e, ⟨t, ht, he⟩, ha⟩
  · rw [orElse_of_ne_nil hown]
    simp [hown]

theorem nodeOf_isOk (hinh : ∃ inherited, inheritedAt st o.path = .ok inherited)
    (hown : ∀ t ∈ o.leaf.dependsOn, ∃ e, lookupTarget st (framesOf o.path) t = some e)
    (hhand : o.leaf.dependsOn = [] → ∀ p f, o.path = p ++ [f] → ∀ t ∈ f.deps, ∀ e,
      lookupTarget st (framesOf p) t = some e → ∃ e', lookupTarget st (framesOf o.path) e = some e')
    (hbranch : BranchResolves st (framesOf o.path) o.leaf) : ∃ node, nodeOf st o = .ok node := by
  obtain ⟨inherited, hi⟩ := hinh
  rw [nodeOf_eq hi]
  refine emitLeaf_isOk_iff.mpr ⟨resolveTargets_isOk_iff.mpr fun t ht => ?_, hbranch⟩
  by_cases hnil : o.leaf.dependsOn = []
  · rw [hnil, orElse_nil] at ht
    rcases eq_nil_or_concat' o.path with hp | ⟨p, f, hp⟩
    · rw [hp, inheritedAt_nil] at hi
      cases hi
      cases ht
    · rw [hp, inheritedAt_concat, resolveTargets_ok_iff] at hi
      obtain ⟨t', ht', hte⟩ := (mem_iff hi).mp ht
      exact hhand hnil p f hp t' ht' t hte
  · rw [orElse_of_ne_nil hnil] at ht
    exact hown t ht

theorem node_of_occ {plan : YamlPlan} {nodes : List CompiledStep} (he : expand plan = .ok nodes)
    (hnd : (nodes.map (·.id)).Nodup) (ho : o ∈ occs plan.steps) {node : CompiledStep}
    (hn : node ∈ nodes) (hid : node.id = o.id) : nodeOf (assignPlan plan.steps) o = .ok node := by
  obtain ⟨node', hn', ho'⟩ := exists_right (expand_ok he) ho
  obtain ⟨_, _, hs⟩ := nodeOf_ok ho'
  have heq : node = node' := inj_on_of_nodup_map hnd hn hn' (hid.trans hs.id.symm)
  rw [heq]
  exact ho'

/-! ## The gates survive exactly when they are kept -/

section Necessary

variable {plan : YamlPlan} {nodes : List CompiledStep}

theorem gate_mem_dependsOn (h : compile plan = .ok nodes)
    (hs : ∀ o ∈ occs plan.steps, ∀ p f q, o.path = p ++ f :: q → o.leaf.dependsOn = [] → (∀ g ∈ q, g.deps = []) →
      ∀ t ∈ f.deps, ∃ e, lookupTarget (assignPlan plan.steps) (framesOf p) t = some e ∧
        ∃ node ∈ nodes, node.id = o.id ∧ e ∈ node.dependsOn)
    (ho : o ∈ occs plan.steps) {p q : List Frame} {f : Frame} (hp : o.path = p ++ f :: q)
    (hown : o.leaf.dependsOn = []) (hq : ∀ g ∈ q, g.deps = []) {t : String} (ht : t ∈ f.deps) :
    ∃ e, lookupTarget (assignPlan plan.steps) (framesOf p) t = some e ∧ ∃ p' f', o.path = p' ++ [f'] ∧
      ∃ t' ∈ f'.deps, ∃ e', lookupTarget (assignPlan plan.steps) (framesOf p') t' = some e' ∧
        lookupTarget (assignPlan plan.steps) (framesOf o.path) e' = some e := by
  obtain ⟨he, hnd, _⟩ := compile_ok_iff.mp h
  obtain ⟨e, hte, node, hn, hid, hmem⟩ := hs o ho p f q hp hown hq t ht
  refine ⟨e, hte, ?_⟩
  rcases (mem_dependsOn_iff (node_of_occ he hnd ho hn hid)).mp hmem with ⟨t', ht', _⟩ | ⟨_, h⟩
  · rw [hown] at ht'
    cases ht'
  · exact h

theorem gatesKept_of_survive (h : GatesSurvive plan) : GatesKept plan := by
  obtain ⟨nodes, hc, hs⟩ := h
  obtain ⟨he, hnd, hac⟩ := compile_ok_iff.mp hc
  have hobj : anyReachesRaw plan.steps = false := by
    by_contra hraw
    rw [expand, if_pos (by simpa using hraw)] at he
    cases he
  have hall := expand_ok he
  have hnode {o : Occ} (ho : o ∈ occs plan.steps) := exists_right hall ho
  have hscopes : ScopesResolve (assignPlan plan.steps) [] plan.steps := by
    rw [expand_eq hobj, emitAt_ok_iff _ _ _ _ _ (inheritedAt_nil _)] at he
    exact he.1
  have hleaf {o : Occ} (ho : o ∈ occs plan.steps) :
      ∃ inherited, inheritedAt (assignPlan plan.steps) o.path = .ok inherited ∧
        ∃ node, emitLeaf (assignPlan plan.steps) o.path inherited o.leaf = .ok node := by
    obtain ⟨node, _, hn⟩ := hnode ho
    obtain ⟨inherited, hi, _⟩ := nodeOf_ok hn
    exact ⟨inherited, hi, node, by rwa [nodeOf_eq hi] at hn⟩
  refine ⟨hobj, expand_ids he ▸ hnd, fun c hcs => resolveTargets_isOk_iff.mp (hscopes c hcs), ?_, ?_, ?_, ?_, ?_⟩
  · intro o ho t ht
    obtain ⟨inherited, _, hok⟩ := hleaf ho
    have hres := resolveTargets_isOk_iff.mp (emitLeaf_isOk_iff.mp hok).1
    rw [orElse_of_ne_nil (ne_nil_of_mem ht)] at hres
    exact hres t ht
  · intro o ho
    obtain ⟨inherited, _, hok⟩ := hleaf ho
    exact (emitLeaf_isOk_iff.mp hok).2
  · intro o ho hown p f hp t ht
    obtain ⟨e, hte, p', f', hp', hback⟩ := gate_mem_dependsOn hc hs ho hp hown (by simp) ht
    obtain ⟨rfl, rfl⟩ : p = p' ∧ f = f' := by simpa [hp] using hp'
    refine ⟨e, hte, ?_, by rwa [hp] at hback⟩
    obtain ⟨inherited, hi, hok⟩ := hleaf ho
    rw [hp, inheritedAt_concat, resolveTargets_ok_iff] at hi
    have hres := resolveTargets_isOk_iff.mp (emitLeaf_isOk_iff.mp hok).1
    rw [hown, orElse_nil, hp] at hres
    exact hres e ((mem_iff hi).mpr ⟨t, ht, hte⟩)
  · intro o ho hown p f q hp hq hnone
    by_contra hne
    obtain ⟨t, ht⟩ := exists_mem_of_ne_nil _ hne
    obtain ⟨e, _, p', f', hp', t', ht', _⟩ := gate_mem_dependsOn hc hs ho hp hown hnone ht
    -- The innermost container is one of those without dependencies.
    obtain ⟨q', g, rfl⟩ := (eq_nil_or_concat' q).resolve_left hq
    rw [hp, ← cons_append, ← append_assoc] at hp'
    obtain ⟨_, hg⟩ := append_inj' hp' rfl
    obtain rfl : g = f' := by simpa using hg
    rw [hnone g (by simp)] at ht'
    cases ht'
  · intro x hx
    refine hac x (TransGen.mono ?_ _ _ hx)
    rintro a _ ⟨o, ho, rfl, haw⟩
    obtain ⟨node, hn, hno⟩ := hnode ho
    obtain ⟨_, _, hspec⟩ := nodeOf_ok hno
    refine mem_flatMap.mpr ⟨node, hn, mem_map.mpr ⟨a, (mem_dependsOn_iff hno).mpr ?_, ?_⟩⟩
    · rcases haw with hown | ⟨hown, p, f, hp, t, ht, hte⟩
      · exact .inl hown
      · obtain ⟨e, hte', hback⟩ := gate_mem_dependsOn hc hs ho hp hown (by simp) ht
        rw [hte] at hte'
        cases hte'
        exact .inr ⟨hown, hback⟩
    · rw [hspec.id]
      rfl

end Necessary

section Sufficient

variable {plan : YamlPlan}

theorem handed_back {st : Tables} {p : List Frame} {f : Frame} (h : HandedDown st p f) {t e a : String}
    (ht : t ∈ f.deps) (hte : lookupTarget st (framesOf p) t = some e)
    (ha : lookupTarget st (framesOf (p ++ [f])) e = some a) :
    ∃ t' ∈ f.deps, lookupTarget st (framesOf p) t' = some a := by
  let first : Finset String := (f.deps.filterMap (lookupTarget st (framesOf p))).toFinset
  let second : Finset String :=
    first.image fun e => (lookupTarget st (framesOf (p ++ [f])) e).getD e
  have mem_first {x : String} : x ∈ first ↔ ∃ t ∈ f.deps, lookupTarget st (framesOf p) t = some x := by
    simp [first]
  have hsub : first ⊆ second := by
    intro x hx
    obtain ⟨t, ht, htx⟩ := mem_first.mp hx
    obtain ⟨x', hx', _, t', ht', e', he', hback⟩ := h t ht
    rw [htx] at hx'
    cases hx'
    exact Finset.mem_image.mpr ⟨e', mem_first.mpr ⟨t', ht', he'⟩, by rw [hback]; rfl⟩
  have heq : first = second := Finset.eq_of_subset_of_card_le hsub Finset.card_image_le
  refine mem_first.mp (heq ▸ Finset.mem_image.mpr ⟨e, mem_first.mpr ⟨t, ht, hte⟩, ?_⟩)
  rw [ha]
  rfl

theorem inheritedAt_of_scopes {st : Tables} {items : List Item} (h : ScopesResolve st [] items)
    (ho : o ∈ occs items) : ∃ inherited, inheritedAt st o.path = .ok inherited := by
  rcases eq_nil_or_concat' o.path with hp | ⟨p, f, hp⟩
  · exact ⟨[], by rw [hp, inheritedAt_nil]⟩
  · rw [hp, inheritedAt_concat]
    exact h _ (scope_of_occ ho hp)

theorem survive_of_kept (h : GatesKept plan) : GatesSurvive plan := by
  have hscopes : ScopesResolve (assignPlan plan.steps) [] plan.steps := fun c hc =>
    resolveTargets_isOk_iff.mpr (h.containers c hc)
  obtain ⟨nodes, hnodes⟩ := exists_forall₂ fun o ho =>
    nodeOf_isOk (inheritedAt_of_scopes hscopes ho) (h.leaves o ho)
      (fun hown p f hp t ht e hte => by
        obtain ⟨e', hte', he, _⟩ := h.handed o ho hown p f hp t ht
        rw [hte] at hte'
        cases hte'
        rw [hp]
        exact he)
      (h.branches o ho)
  have he : expand plan = .ok nodes := by
    rw [expand_eq h.objects, emitAt_ok_iff _ _ _ _ _ (inheritedAt_nil _)]
    exact ⟨hscopes, hnodes⟩
  have hawaits {o : Occ} (ho : o ∈ occs plan.steps) {node : CompiledStep}
      (hn : nodeOf (assignPlan plan.steps) o = .ok node) {a : String} (ha : a ∈ node.dependsOn) :
      Awaits (assignPlan plan.steps) o a := by
    rcases (mem_dependsOn_iff hn).mp ha with hown | ⟨hown, p, f, hp, t, ht, e, hte, hea⟩
    · exact .inl hown
    · rw [hp] at hea
      obtain ⟨t', ht', hta⟩ := handed_back (h.handed o ho hown p f hp) ht hte hea
      exact .inr ⟨hown, p, f, hp, t', ht', hta⟩
  have hac : Kahn.Acyclic (depEdges nodes) := by
    intro x hx
    refine h.acyclic x (TransGen.mono ?_ _ _ hx)
    intro a b hab
    obtain ⟨node, hn, hab⟩ := mem_flatMap.mp hab
    obtain ⟨dep, hd, heq⟩ := mem_map.mp hab
    cases heq
    obtain ⟨o, ho, hno⟩ := Forall₂.exists_left hnodes hn
    obtain ⟨_, _, hspec⟩ := nodeOf_ok hno
    exact ⟨o, ho, hspec.id.symm, hawaits ho hno hd⟩
  refine ⟨nodes, compile_ok_iff.mpr ⟨he, by rw [expand_ids he]; exact h.distinct, hac⟩, ?_⟩
  intro o ho p f q hp hown hq t ht
  obtain ⟨node, hn, hno⟩ := exists_right hnodes ho
  obtain ⟨_, _, hspec⟩ := nodeOf_ok hno
  cases q with
  | nil =>
    obtain ⟨e, hte, _, t', ht', e', hte', hback⟩ := h.handed o ho hown p f hp t ht
    refine ⟨e, hte, node, hn, hspec.id, (mem_dependsOn_iff hno).mpr (.inr ⟨hown, p, f, hp, ?_⟩)⟩
    rw [hp]
    exact ⟨t', ht', e', hte', hback⟩
  | cons g q =>
    rw [h.direct o ho hown p f (g :: q) hp (by simp) hq] at ht
    cases ht

end Sufficient

theorem gatesSurvive_iff (plan : YamlPlan) : GatesSurvive plan ↔ GatesKept plan :=
  ⟨gatesKept_of_survive, survive_of_kept⟩

/-! ## A valid plan that does not compile -/

mutual
def writtenItem : Item → List (String × String)
  | .step s steps => s.dependsOn.map (·, s.id) ++ if isSubsequence s then written steps else []
  | .loop l steps => l.dependsOn.map (·, l.id) ++ written steps
  | .raw _ => []

def written : List Item → List (String × String)
  | [] => []
  | item :: items => writtenItem item ++ written items
end

/-- Distinct ids, and dependencies that name items and have no cycle. -/
structure ValidPlan (plan : YamlPlan) : Prop where
  distinct : (ids plan.steps).Nodup
  named : ∀ e ∈ written plan.steps, e.1 ∈ ids plan.steps
  acyclic : Kahn.Acyclic (written plan.steps)

def gatedLoopsPlan : YamlPlan :=
  { name := "plan", version := "1", steps := [
    .loop { id := "L", loopType := .forLoop, count := some 2 } [.leaf { id := "x" }],
    .loop { id := "M", loopType := .forLoop, count := some 2, dependsOn := ["L"] } [.leaf { id := "y" }]] }

/-- `y` is handed `x_iter1`, which is then looked up as if the plan had an item of that name. -/
theorem gates_lost_gatedLoopsPlan : ValidPlan gatedLoopsPlan ∧ ¬ GatesSurvive gatedLoopsPlan := by
  refine ⟨⟨by decide, by decide, Kahn.acyclic_of_rank (fun id => if id = "L" then 0 else 1) (by decide)⟩, ?_⟩
  rintro ⟨nodes, hc, _⟩
  have herr : compile gatedLoopsPlan = .error (.unknownTarget "x_iter1") := by rfl
  rw [herr] at hc
  cases hc

end AteStudio.Compiler
