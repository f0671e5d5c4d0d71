import AteStudio.Compiler.Gates

/-!
# Iteration locality

A reference to a leaf of an enclosing scope stays in the iteration. Any other points at the last iteration of every loop
around its target.
-/

namespace AteStudio.Compiler

open List Option

/-! ## What locality says -/

/-- In every loop around both they are in the same iteration. -/
def SameIterations (o o' : Occ) : Prop :=
  ∀ p f q p' f' q', o.path = p ++ f :: q → o'.path = p' ++ f' :: q' → f.container = f'.container →
    f.iter.isSome = true → framesOf p = framesOf p' ∧ f.code = f'.code

def IterationLocal (plan : YamlPlan) (nodes : List CompiledStep) : Prop :=
  ∀ e ∈ depEdges nodes, ∀ a ∈ occs plan.steps, ∀ b ∈ occs plan.steps, a.id = e.1 → b.id = e.2 →
    SameIterations b a

def InScope (items : List Item) (o : Occ) (t : String) : Prop :=
  ∃ o' ∈ occs items, o'.leaf.id = t ∧ framesOf o'.path <+: framesOf o.path

def Around (items : List Item) (c t : String) : Prop :=
  ∃ o ∈ occs items, ∃ p f q, o.path = p ++ f :: q ∧ f.container = c ∧
    (o.leaf.id = t ∨ ∃ g ∈ f :: q, g.container = t)

def InLastIterations (items : List Item) (o : Occ) (t : String) : Prop :=
  ∀ f ∈ o.path, f.iter.isSome = true → Around items f.container t → f.IsLast

/-- A reference stays in a scope around the node, or the node is in the last iterations. -/
def LocalReferences (plan : YamlPlan) : Prop :=
  ∀ o ∈ occs plan.steps, ∀ inherited, inheritedAt (assignPlan plan.steps) o.path = .ok inherited →
    ∀ t ∈ orElse o.leaf.dependsOn inherited, InScope plan.steps o t ∨ InLastIterations plan.steps o t

/-! ## Paths with the same containers -/

variable {f : Frame}

theorem code_eq_of_head {g : Frame} (h : f.head = g.head) (hf : f.IsLast) (hg : g.IsLast) : f.code = g.code := by
  rcases head_eq_cases h with rfl | ⟨n, m, k, hi, rfl⟩
  · rfl
  · have h₁ : n + 1 = k := hf n k hi
    have h₂ : m + 1 = k := hg m k rfl
    simp only [Frame.code, hi, map_some, Prod.mk.injEq, some.injEq, true_and]
    omega

theorem frames_eq_of_heads {p q : List Frame} (h : p.map Frame.head = q.map Frame.head)
    (hp : ∀ f ∈ p, f.IsLast) (hq : ∀ f ∈ q, f.IsLast) : framesOf p = framesOf q := by
  induction p generalizing q with
  | nil =>
    cases q with
    | nil => rfl
    | cons => simp at h
  | cons f p ih =>
    cases q with
    | nil => simp at h
    | cons g q =>
      simp only [map_cons, List.cons.injEq] at h
      rw [framesOf_cons, framesOf_cons, code_eq_of_head h.1 (hp f (by simp)) (hq g (by simp)),
        ih h.2 (fun f hf => hp f (by simp [hf])) fun f hf => hq f (by simp [hf])]

theorem isLast_of_head {g : Frame} (h : f.head = g.head) (hc : f.code = g.code) (hg : g.IsLast) : f.IsLast := by
  rcases head_eq_cases h with rfl | ⟨n, m, k, hi, rfl⟩
  · exact hg
  · intro n' k' hnk
    obtain ⟨rfl, rfl⟩ : n = n' ∧ k = k' := by simpa [hi] using hnk
    have hnm : n = m := by simpa [Frame.code, hi] using hc
    exact hnm ▸ hg m k rfl

theorem exists_container_of_heads {p q : List Frame} (h : p.map Frame.head = q.map Frame.head)
    (hf : f ∈ p) : ∃ g ∈ q, g.container = f.container := by
  have hmem : f.head ∈ q.map Frame.head := h ▸ mem_map_of_mem hf
  obtain ⟨g, hg, heq⟩ := mem_map.mp hmem
  exact ⟨g, hg, congrArg Prod.fst heq⟩

/-! ## Answers from a scope -/

variable {items : List Item} {o : Occ}

theorem sameIterations_of_prefix (hd : (ids items).Nodup) {o' : Occ} (ho : o ∈ occs items)
    (ho' : o' ∈ occs items) (hpre : framesOf o'.path <+: framesOf o.path) : SameIterations o o' := by
  intro p f q p' f' q' hp hp' hc _
  have hlen := congrArg List.length (heads_of_container hd ho ho' hp hp' hc).1
  simp only [length_map] at hlen
  rw [hp, hp', framesOf_append, framesOf_append, framesOf_cons, framesOf_cons] at hpre
  have hpp : framesOf p' = framesOf p :=
    (prefix_of_prefix_length_le ((prefix_append _ _).trans hpre) (prefix_append _ _)
      (by simp [framesOf, hlen])).eq_of_length (by simp [framesOf, hlen])
  rw [hpp, prefix_append_right_inj, cons_prefix_cons] at hpre
  exact ⟨hpp.symm, hpre.1.symm⟩

variable {t : String}

theorem scopeLookup_of_inScope (hd : (ids items).Nodup)
    (h : InScope items o t) : scopeLookup (assignPlan items) (framesOf o.path) t ≠ none := by
  obtain ⟨o', ho', rfl, hpre⟩ := h
  rw [scopeLookup_complete hd ho' hpre]
  simp

/-! ## Answers from the tables of the whole plan -/

def Answers (t : String) (a : Occ) : Prop := (a.leaf.id = t ∧ a.Final) ∨ StandsFor t a

variable {a : Occ}

theorem Answers.final (h : Answers t a) : a.Final := by
  rcases h with ⟨_, h⟩ | ⟨h, _⟩ <;> exact h

theorem Answers.around (h : Answers t a) (ha : a ∈ occs items)
    (hmem : f ∈ a.path) (hf : f.iter.isSome = true) : Around items f.container t := by
  obtain ⟨p, q, hp⟩ := append_of_mem hmem
  refine ⟨a, ha, p, f, q, hp, rfl, ?_⟩
  rcases h with ⟨hid, _⟩ | ⟨_, p', g, r, hp', hc, hr⟩
  · exact .inl hid
  · refine .inr ⟨g, ?_, hc⟩
    -- The loop `f` cannot lie behind `g`, where there are only subsequences.
    rw [hp] at hp'
    rcases append_eq_append_iff.mp hp' with ⟨c, rfl, hc'⟩ | ⟨c, rfl, hc'⟩
    · rw [hc']
      simp
    · cases c with
      | nil =>
        obtain ⟨rfl, _⟩ : g = f ∧ r = q := by simpa using hc'
        exact mem_cons_self
      | cons g' c =>
        obtain ⟨_, rfl⟩ : g = g' ∧ r = c ++ f :: q := by simpa using hc'
        rw [hr f (by simp)] at hf
        cases hf

theorem Answers.container (hd : (ids items).Nodup) {c : String}
    (h : Answers t a) (ha : a ∈ occs items) (hc : Around items c t) : ∃ g ∈ a.path, g.container = c := by
  obtain ⟨o, ho, p, f, q, hp, rfl, ht⟩ := hc
  have hf : f ∈ o.path := by simp [hp]
  rcases h with ⟨hid, _⟩ | ⟨_, p', g, r, hp', rfl, _⟩
  · rcases ht with ht | ⟨g, hg, ht⟩
    · exact exists_container_of_heads (heads_of_leaf hd ho ha (ht.trans hid.symm)).1 hf
    · exact absurd (hid.trans ht.symm) (leaf_ne_container hd ha ho (by rw [hp]; exact mem_append_right _ hg))
  · rcases ht with ht | ⟨g', hg', ht⟩
    · exact absurd ht (leaf_ne_container hd ho ha (by simp [hp']))
    · obtain ⟨q₁, q₂, hq⟩ := append_of_mem hg'
      have hp₂ : o.path = (p ++ q₁) ++ g' :: q₂ := by rw [hp, hq, append_assoc]
      obtain ⟨hheads, hhead⟩ := heads_of_container hd ho ha hp₂ hp' ht
      -- `f` is `g'` itself or lies before it.
      have hmem : f ∈ (p ++ q₁) ++ [g'] := by
        cases q₁ with
        | nil =>
          obtain ⟨rfl, _⟩ : f = g' ∧ q = q₂ := by simpa using hq
          simp
        | cons f' q₁ =>
          obtain ⟨rfl, _⟩ : f = f' ∧ q = q₁ ++ g' :: q₂ := by simpa using hq
          simp
      obtain ⟨h₂, hh₂, hcc⟩ :=
        exists_container_of_heads (q := p' ++ [g]) (by rw [map_append, hheads]; simp [hhead]) hmem
      refine ⟨h₂, ?_, hcc⟩
      rw [hp']
      rcases mem_append.mp hh₂ with h | h
      · exact mem_append_left _ h
      · rw [mem_singleton] at h
        simp [h]

section

variable (hd : (ids items).Nodup) (ho : o ∈ occs items) (ha : a ∈ occs items) (hans : Answers t a)

include hd ho ha hans

theorem sameIterations_of_last (hlast : InLastIterations items o t) : SameIterations o a := by
  intro p f q p' f' q' hp hp' hc hf
  obtain ⟨hheads, hhead⟩ := heads_of_container hd ho ha hp hp' hc
  have isLast {g g' : Frame} (hg : g ∈ o.path) (hg' : g' ∈ a.path) (hgg : g.head = g'.head) : g.IsLast := by
    cases hi : g.iter with
    | none => intro n k h; rw [hi] at h; cases h
    | some i =>
      have hi' : g'.iter.isSome = true := by
        simpa [Frame.head, hi] using (congrArg (fun h => h.2.1.isSome) hgg).symm
      have har := hans.around ha hg' hi'
      rw [← show g.container = g'.container from congrArg Prod.fst hgg] at har
      exact hlast g hg (by simp [hi]) har
  refine ⟨frames_eq_of_heads hheads ?_ ?_, code_eq_of_head hhead (isLast ?_ ?_ hhead) ?_⟩
  · intro g hg
    obtain ⟨g', hg', hgg⟩ := mem_map.mp (hheads ▸ mem_map_of_mem hg : g.head ∈ p'.map Frame.head)
    exact isLast (by simp [hp, hg]) (by simp [hp', hg']) hgg.symm
  · intro g hg
    exact hans.final g (by simp [hp', hg])
  · simp [hp]
  · simp [hp']
  · exact hans.final f' (by simp [hp'])

theorem last_of_sameIterations (hsame : SameIterations o a) : InLastIterations items o t := by
  intro f hf hi har
  obtain ⟨g, hg, hc⟩ := hans.container hd ha har
  obtain ⟨p, q, hp⟩ := append_of_mem hf
  obtain ⟨p', q', hp'⟩ := append_of_mem hg
  have hcode := (hsame p f q p' g q' hp hp' hc.symm hi).2
  exact isLast_of_head (heads_of_container hd ho ha hp hp' hc.symm).2 hcode (hans.final g hg)

end

/-! ## Locality holds exactly for local references -/

theorem edge_reference {plan : YamlPlan} {nodes : List CompiledStep} (he : expand plan = .ok nodes)
    (hnd : (nodes.map (·.id)).Nodup) {b : Occ} (hb : b ∈ occs plan.steps) {e : String × String}
    (hedge : e ∈ depEdges nodes) (hid : b.id = e.2) :
    ∃ inherited, inheritedAt (assignPlan plan.steps) b.path = .ok inherited ∧
      ∃ t ∈ orElse b.leaf.dependsOn inherited,
        lookupTarget (assignPlan plan.steps) (framesOf b.path) t = some e.1 := by
  obtain ⟨node, hn, hmem⟩ := mem_flatMap.mp hedge
  obtain ⟨dep, hd, rfl⟩ := mem_map.mp hmem
  obtain ⟨inherited, hi, hs⟩ := nodeOf_ok (node_of_occ he hnd hb hn hid.symm)
  obtain ⟨t, ht, hte⟩ := (Forall₂.mem_iff (resolveTargets_ok_iff.mp hs.dependsOn)).mp hd
  exact ⟨inherited, hi, t, ht, hte⟩

theorem iterationLocal_iff (plan : YamlPlan) (nodes : List CompiledStep) (hd : (ids plan.steps).Nodup)
    (hc : compile plan = .ok nodes) : IterationLocal plan nodes ↔ LocalReferences plan := by
  obtain ⟨he, hnd, _⟩ := compile_ok_iff.mp hc
  have hocc : ((occs plan.steps).map Occ.id).Nodup := expand_ids he ▸ hnd
  constructor
  · intro hlocal o ho inherited hi t ht
    obtain ⟨node, hn, hno⟩ := Forall₂.exists_right (expand_ok he) ho
    obtain ⟨inherited', hi', hs⟩ := nodeOf_ok hno
    rw [hi] at hi'
    cases hi'
    obtain ⟨e, hmem, hte⟩ := Forall₂.exists_right (resolveTargets_ok_iff.mp hs.dependsOn) ht
    have hedge : (e, node.id) ∈ depEdges nodes :=
      List.mem_flatMap.mpr ⟨node, hn, List.mem_map_of_mem hmem⟩
    obtain ⟨a, ha, rfl, ⟨hid, hpre⟩ | ⟨_, hans⟩⟩ := lookup_sound hte
    · exact .inl ⟨a, ha, hid, hpre⟩
    · exact .inr (last_of_sameIterations hd ho ha hans (hlocal _ hedge a ha o ho rfl hs.id.symm))
  · intro hrefs e hedge a ha b hb hea heb
    obtain ⟨inherited, hi, t, ht, hte⟩ := edge_reference he hnd hb hedge heb
    obtain ⟨a', ha', hid', hans⟩ := lookup_sound hte
    obtain rfl : a = a' := List.inj_on_of_nodup_map hocc ha ha' (hea.trans hid'.symm)
    rcases hans with ⟨_, hpre⟩ | ⟨hnone, hans⟩
    · exact sameIterations_of_prefix hd hb ha hpre
    · rcases hrefs b hb inherited hi t ht with hin | hlast
      · exact absurd hnone (scopeLookup_of_inScope hd hin)
      · exact sameIterations_of_last hd hb ha hans hlast

theorem iterationLocal_iff_loopPlan :
    ∃ nodes, compile loopPlan = .ok nodes ∧ (IterationLocal loopPlan nodes ↔ LocalReferences loopPlan) :=
  ⟨_, rfl, iterationLocal_iff loopPlan _ (by decide) rfl⟩

/-! ## An edge between two iterations -/

def outerLoop : YamlLoop := { id := "L", loopType := .forLoop, count := some 2 }

def innerLoop : YamlLoop := { id := "I", loopType := .forLoop, count := some 1 }

def siblingLoopPlan : YamlPlan :=
  { name := "plan", version := "1", steps := [
    .loop outerLoop [
      .loop innerLoop [.leaf { id := "x" }],
      .leaf { id := "y", dependsOn := ["I"] }]] }

/-- `y_iter0` depends on `x_iter1_iter0`. -/
theorem not_iterationLocal_siblingLoopPlan :
    (ids siblingLoopPlan.steps).Nodup ∧
      ∃ nodes, compile siblingLoopPlan = .ok nodes ∧ ¬ IterationLocal siblingLoopPlan nodes := by
  refine ⟨by decide, _, rfl, fun h => ?_⟩
  have hsame := h ("x_iter1_iter0", "y_iter0") (by decide)
    ⟨[loopFrame outerLoop 1, loopFrame innerLoop 0], .step { id := "x" }⟩
    (List.mem_of_getElem? (show (occs siblingLoopPlan.steps)[2]? = _ from rfl))
    ⟨[loopFrame outerLoop 0], .step { id := "y", dependsOn := ["I"] }⟩
    (List.mem_of_getElem? (show (occs siblingLoopPlan.steps)[1]? = _ from rfl)) (by decide) (by decide)
  have hcode := (hsame [] _ [] [] _ [_] rfl rfl rfl rfl).2
  revert hcode
  decide

end AteStudio.Compiler
