import AteStudio.Compiler.Paths
import AteStudio.Lib.Except

/-!
# Pass B emits one node for each occurrence

What pass B passes down follows from the path of the occurrence (`nodeOf`).
-/

namespace AteStudio.Compiler

open List

/-- The resolved `depends_on` of the container, and nothing from further out. -/
def inheritedAt (st : Tables) (p : List Frame) : Except CompileError (List String) :=
  match p.getLast? with
  | some f => resolveTargets st (framesOf p.dropLast) f.deps
  | none => .ok []

def emitLeaf (st : Tables) (p : List Frame) (inherited : List String) :
    Leaf → Except CompileError CompiledStep
  | .step s => emitStep st (prefixOf p) (suffixOf p) (framesOf p) inherited s
  | .deferred l => emitDeferred st (prefixOf p) (suffixOf p) (framesOf p) inherited l

def nodeOf (st : Tables) (o : Occ) : Except CompileError CompiledStep := do
  let inherited ← inheritedAt st o.path
  emitLeaf st o.path inherited o.leaf

@[simp] theorem inheritedAt_nil (st : Tables) : inheritedAt st [] = .ok [] := rfl

@[simp] theorem inheritedAt_concat (st : Tables) (p : List Frame) (f : Frame) :
    inheritedAt st (p ++ [f]) = resolveTargets st (framesOf p) f.deps := by
  simp [inheritedAt]

variable {st : Tables} {inherited : List String}

theorem nodeOf_eq {o : Occ} (h : inheritedAt st o.path = .ok inherited) :
    nodeOf st o = emitLeaf st o.path inherited o.leaf := by
  rw [nodeOf, h]
  rfl

/-! ## Pass B, one case for each kind of item -/

def emitAt (st : Tables) (p : List Frame) (inherited : List String) (items : List Item) :
    Except CompileError (List CompiledStep) :=
  emitItems st (prefixOf p) (suffixOf p) (framesOf p) inherited items

section Cases

variable {st : Tables} {p : List Frame} {inherited : List String} {item : Item} {items : List Item}

theorem emitAt_nil : emitAt st p inherited [] = .ok [] := by rw [emitAt, emitItems]

theorem emitAt_raw (entry : PyVal) : emitAt st p inherited (.raw entry :: items) = emitAt st p inherited items := by
  simp only [emitAt, emitItems, emitItem]
  cases emitItems st (prefixOf p) (suffixOf p) (framesOf p) inherited items <;> rfl

theorem emitAt_leaf {leaf : Leaf} (h : leafOf? item = some leaf) :
    emitAt st p inherited (item :: items) = (do
      let node ← emitLeaf st p inherited leaf
      let rest ← emitAt st p inherited items
      return node :: rest) := by
  obtain ⟨_, _, rfl, hk, rfl⟩ | ⟨_, _, rfl, hk, rfl⟩ := leafOf?_cases h <;>
    simp [emitAt, emitItems, emitItem, emitLeaf, hk]

theorem emitAt_unfolds {k : Nat} {frame : Nat → Frame} {steps : List Item} (h : Unfolds item k frame steps) :
    emitAt st p inherited (item :: items) = (do
      let deps ← resolveTargets st (framesOf p) item.dependsOn
      let parts ← (List.range k).mapM fun n => emitAt st (p ++ [frame n]) deps steps
      let rest ← emitAt st p inherited items
      return parts.flatten ++ rest) := by
  cases h with
  | sub h => simp [emitAt, emitItems, emitItem, h, prefixOf_sub, suffixOf_sub, Item.dependsOn]
  | loop h => simp [emitAt, emitItems, emitItem, h, prefixOf_loop, suffixOf_loop, Item.dependsOn]

end Cases

/-! ## Emission succeeds iff every reference resolves -/

def ScopesResolve (st : Tables) (p : List Frame) (items : List Item) : Prop :=
  ∀ c ∈ scopes items, ∃ deps, resolveTargets st (framesOf (p ++ c.1)) c.2 = .ok deps

section Cases

variable {st : Tables} {p : List Frame} {item : Item} {items : List Item}

theorem scopesResolve_leaf {leaf : Leaf} (h : leafOf? item = some leaf) :
    ScopesResolve st p (item :: items) ↔ ScopesResolve st p items := by
  obtain ⟨_, _, rfl, hk, rfl⟩ | ⟨_, _, rfl, hk, rfl⟩ := leafOf?_cases h <;> simp [ScopesResolve, scopes, scopesItem, hk]

theorem scopesResolve_raw (entry : PyVal) : ScopesResolve st p (.raw entry :: items) ↔ ScopesResolve st p items := by
  simp [ScopesResolve, scopes, scopesItem]

theorem scopesResolve_unfolds {k : Nat} {frame : Nat → Frame} {steps : List Item} (h : Unfolds item k frame steps) :
    ScopesResolve st p (item :: items) ↔
      (∃ deps, resolveTargets st (framesOf p) item.dependsOn = .ok deps) ∧
        (∀ n < k, ScopesResolve st (p ++ [frame n]) steps) ∧ ScopesResolve st p items := by
  simp only [ScopesResolve, scopes_unfolds h, cons_append, mem_append, mem_cons,
    mem_flatMap, mem_range, mem_map, or_imp, forall_and, forall_eq]
  refine and_congr (by simp) (and_congr ?_ Iff.rfl)
  constructor
  · intro H n hn c hc
    simpa using H _ ⟨n, hn, c, hc, rfl⟩
  · rintro H _ ⟨n, hn, c, hc, rfl⟩
    simpa using H n hn c hc

end Cases

def NodesAt (st : Tables) (p : List Frame) (items : List Item) (nodes : List CompiledStep) : Prop :=
  List.Forall₂ (fun o node => nodeOf st (o.within p) = .ok node) (occs items) nodes

variable {items : List Item} {p : List Frame}

theorem emit_leaf_ok_iff (leaf : Leaf) (nodes : List CompiledStep) (hp : inheritedAt st p = .ok inherited)
    (ih : ∀ rest, emitAt st p inherited items = .ok rest ↔ ScopesResolve st p items ∧ NodesAt st p items rest) :
    (do let node ← emitLeaf st p inherited leaf
        let rest ← emitAt st p inherited items
        return node :: rest : Except CompileError (List CompiledStep)) = .ok nodes ↔
      ScopesResolve st p items ∧
        List.Forall₂ (fun o node => nodeOf st (o.within p) = .ok node) (⟨[], leaf⟩ :: occs items) nodes := by
  have hnode : nodeOf st (Occ.within p ⟨[], leaf⟩) = emitLeaf st p inherited leaf :=
    nodeOf_eq (by simpa using hp) |>.trans (by simp)
  simp only [bind_eq_ok, pure_eq_ok, ih, List.forall₂_cons_left_iff, hnode]
  constructor
  · rintro ⟨node, hn, rest, ⟨hsc, hr⟩, rfl⟩
    exact ⟨hsc, node, rest, hn, hr, rfl⟩
  · rintro ⟨hsc, node, rest, hn, hr, rfl⟩
    exact ⟨node, hn, rest, ⟨hsc, hr⟩, rfl⟩

theorem emitAt_ok_iff (st : Tables) (items : List Item) (p : List Frame) (inherited : List String)
    (nodes : List CompiledStep) (hp : inheritedAt st p = .ok inherited) :
    emitAt st p inherited items = .ok nodes ↔ ScopesResolve st p items ∧ NodesAt st p items nodes := by
  induction items using unfold_induction generalizing p inherited nodes with
  | nil => simp [emitAt_nil, ScopesResolve, scopes, NodesAt, eq_comm]
  | raw entry items ih => rw [emitAt_raw, scopesResolve_raw, ih p inherited nodes hp, NodesAt, NodesAt, occs_raw]
  | leaf item leaf items h ih =>
    rw [emitAt_leaf h, scopesResolve_leaf h, NodesAt, occs_leaf h]
    exact emit_leaf_ok_iff _ _ hp fun rest => ih p inherited rest hp
  | container item k frame steps items h ihs ih =>
    have inner deps (hd : resolveTargets st (framesOf p) item.dependsOn = .ok deps) n nodes' :=
      ihs (p ++ [frame n]) deps nodes' (by rwa [inheritedAt_concat, h.deps])
    rw [emitAt_unfolds h, scopesResolve_unfolds h, NodesAt, occs_unfolds h, forall₂_append_left_iff]
    simp only [bind_eq_ok, pure_eq_ok, ih p inherited _ hp, mapM_eq_ok_iff, forall₂_flatMap_left_iff,
      List.forall₂_map_left_iff, within_within]
    constructor
    · rintro ⟨deps, hd, parts, hn, rest, ⟨hsc, hr⟩, rfl⟩
      simp only [inner deps hd, List.forall₂_and_left, mem_range] at hn
      exact ⟨⟨⟨deps, hd⟩, hn.1, hsc⟩, _, rest, rfl, ⟨parts, rfl, hn.2⟩, hr⟩
    · rintro ⟨⟨⟨deps, hd⟩, hsub, hsc⟩, _, rest, rfl, ⟨parts, rfl, hn⟩, hr⟩
      refine ⟨deps, hd, parts, ?_, rest, ⟨hsc, hr⟩, rfl⟩
      simp only [inner deps hd, List.forall₂_and_left, mem_range]
      exact ⟨hsub, hn⟩

def FailsAt (st : Tables) (p : List Frame) (items : List Item) (e : CompileError) : Prop :=
  (∃ c ∈ scopes items, resolveTargets st (framesOf (p ++ c.1)) c.2 = .error e) ∨
    ∃ o ∈ occs items, nodeOf st (o.within p) = .error e

variable {e : CompileError}

theorem FailsAt.tail (item : Item) (h : FailsAt st p items e) : FailsAt st p (item :: items) e := by
  rcases h with ⟨c, hc, h⟩ | ⟨o, ho, h⟩
  · exact .inl ⟨c, by rw [scopes]; exact mem_append_right _ hc, h⟩
  · exact .inr ⟨o, by rw [occs]; exact mem_append_right _ ho, h⟩

theorem FailsAt.inside {item : Item} {f : Frame} {steps : List Item} (hopen : Opens item f steps)
    (h : FailsAt st (p ++ [f]) steps e) : FailsAt st p (item :: items) e := by
  rcases h with ⟨c, hc, h⟩ | ⟨o, ho, h⟩
  · exact .inl ⟨_, (hopen.scopes mem_cons_self).2 c hc, by simpa using h⟩
  · exact .inr ⟨_, mem_occs_inside mem_cons_self hopen ho, by simpa using h⟩

theorem emit_leaf_error {item : Item} {leaf : Leaf} (hp : inheritedAt st p = .ok inherited)
    (hleaf : ⟨[], leaf⟩ ∈ occs (item :: items)) (ih : emitAt st p inherited items = .error e → FailsAt st p items e)
    (h : (do let node ← emitLeaf st p inherited leaf
             let rest ← emitAt st p inherited items
             return node :: rest : Except CompileError (List CompiledStep)) = .error e) :
    FailsAt st p (item :: items) e := by
  rcases bind_eq_error.mp h with h | ⟨_, _, h⟩
  · refine .inr ⟨_, hleaf, ?_⟩
    rw [nodeOf_eq (by simpa using hp)]
    simpa using h
  · rcases bind_eq_error.mp h with h | ⟨_, _, h⟩
    · exact (ih h).tail item
    · cases h

theorem emitAt_error (st : Tables) (items : List Item) (p : List Frame) (inherited : List String)
    (hp : inheritedAt st p = .ok inherited) (h : emitAt st p inherited items = .error e) : FailsAt st p items e := by
  induction items using unfold_induction generalizing p inherited with
  | nil =>
    rw [emitAt_nil] at h
    cases h
  | raw entry items ih =>
    rw [emitAt_raw] at h
    exact (ih p inherited hp h).tail _
  | leaf item leaf items hleaf ih =>
    rw [emitAt_leaf hleaf] at h
    exact emit_leaf_error hp (by simp [occs_leaf hleaf]) (ih p inherited hp) h
  | container item k frame steps items hu ihs ih =>
    rw [emitAt_unfolds hu] at h
    rcases bind_eq_error.mp h with h | ⟨deps, hd, h⟩
    · exact .inl ⟨([], item.dependsOn), by simp [scopes_unfolds hu], by simpa using h⟩
    rcases bind_eq_error.mp h with h | ⟨_, _, h⟩
    · obtain ⟨n, hn, h⟩ := mapM_eq_error h
      exact (ihs _ deps (by rwa [inheritedAt_concat, hu.deps]) h).inside (hu.opens (mem_range.mp hn))
    rcases bind_eq_error.mp h with h | ⟨_, _, h⟩
    · exact (ih p inherited hp h).tail _
    · cases h

end AteStudio.Compiler
