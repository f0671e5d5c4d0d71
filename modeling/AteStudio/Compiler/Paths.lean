import AteStudio.Compiler.Occurrences

/-!
# Paths of occurrences

With distinct ids an id fixes the containers around it: two occurrences that share a container
agree on everything up to it but the iterations.
-/

namespace AteStudio.Compiler

open List

variable {items : List Item} {o : Occ} {b : List Frame × List Item}

theorem mem_occs_iff :
    o ∈ occs items ↔
      (∃ item ∈ items, leafOf? item = some o.leaf ∧ o.path = []) ∨
        ∃ item ∈ items, ∃ f steps, Opens item f steps ∧ ∃ o' ∈ occs steps, o = o'.within [f] := by
  simp only [occs_eq_flatMap items, mem_flatMap, mem_occsItem_iff, and_or_left, exists_or]

theorem mem_bodies_iff :
    b ∈ bodies items ↔
      ∃ item ∈ items, ∃ f steps, Opens item f steps ∧
        (b = ([f], steps) ∨ ∃ b' ∈ bodies steps, b = (f :: b'.1, b'.2)) := by
  simp only [bodies_eq_flatMap items, mem_flatMap, mem_bodiesItem_iff]

variable {item : Item}

theorem mem_occs_leaf {leaf : Leaf} (hi : item ∈ items) (hl : leafOf? item = some leaf) : ⟨[], leaf⟩ ∈ occs items :=
  mem_occs_iff.mpr (.inl ⟨item, hi, hl, rfl⟩)

variable {steps : List Item} {f : Frame}

section

variable (hi : item ∈ items) (hopen : Opens item f steps)

include hi hopen

theorem mem_occs_inside (ho : o ∈ occs steps) : o.within [f] ∈ occs items :=
  mem_occs_iff.mpr (.inr ⟨item, hi, f, steps, hopen, o, ho, rfl⟩)

theorem mem_bodies_here : ([f], steps) ∈ bodies items :=
  mem_bodies_iff.mpr ⟨item, hi, f, steps, hopen, .inl rfl⟩

theorem mem_bodies_inside (hb : b ∈ bodies steps) : (f :: b.1, b.2) ∈ bodies items :=
  mem_bodies_iff.mpr ⟨item, hi, f, steps, hopen, .inr ⟨b, hb, rfl⟩⟩

end

@[elab_as_elim]
theorem occs_induction {motive : (items : List Item) → (o : Occ) → o ∈ occs items → Prop}
    (leaf : ∀ items item leaf (hi : item ∈ items) (hl : leafOf? item = some leaf),
      motive items ⟨[], leaf⟩ (mem_occs_leaf hi hl))
    (inside : ∀ items item f steps o (hi : item ∈ items) (hopen : Opens item f steps) (ho : o ∈ occs steps),
      motive steps o ho → motive items (o.within [f]) (mem_occs_inside hi hopen ho))
    {items : List Item} {o : Occ} (ho : o ∈ occs items) : motive items o ho := by
  obtain ⟨path, l⟩ := o
  induction path generalizing items with
  | nil =>
    rcases mem_occs_iff.mp ho with ⟨item, hi, hl, _⟩ | ⟨_, _, f, _, _, o', _, h⟩
    · exact leaf items item l hi hl
    · simp [Occ.within] at h
  | cons f path ih =>
    rcases mem_occs_iff.mp ho with ⟨_, _, _, h⟩ | ⟨item, hi, g, steps, hopen, o', ho', h⟩
    · simp at h
    · obtain ⟨path', l'⟩ := o'
      obtain ⟨⟨rfl, rfl⟩, rfl⟩ : (f = g ∧ path = path') ∧ l = l' := by simpa [Occ.within] using h
      exact inside items item f steps _ hi hopen ho' (ih ho')

theorem leaf_of_occ (ho : o ∈ occs items) (hp : o.path = []) : ∃ item ∈ items, leafOf? item = some o.leaf := by
  rcases mem_occs_iff.mp ho with ⟨item, hi, hl, _⟩ | ⟨_, _, _, _, _, o', _, rfl⟩
  · exact ⟨item, hi, hl⟩
  · simp at hp

theorem mem_directIds_iff {t : String} : t ∈ directIds items ↔ ∃ o ∈ occs items, o.path = [] ∧ o.leaf.id = t := by
  simp only [directIds, mem_map, mem_filterMap]
  constructor
  · rintro ⟨leaf, ⟨item, hi, hl⟩, rfl⟩
    exact ⟨⟨[], leaf⟩, mem_occs_leaf hi hl, rfl, rfl⟩
  · rintro ⟨o, ho, hp, rfl⟩
    exact ⟨o.leaf, leaf_of_occ ho hp, rfl⟩

theorem Opens.scopes (h : Opens item f steps) (hi : item ∈ items) :
    ([], f.deps) ∈ scopes items ∧ ∀ c ∈ Compiler.scopes steps, (f :: c.1, c.2) ∈ Compiler.scopes items := by
  rw [scopes_eq_flatMap]
  cases h with
  | sub hs =>
    refine ⟨mem_flatMap.mpr ⟨_, hi, ?_⟩, fun c hc => mem_flatMap.mpr ⟨_, hi, ?_⟩⟩
    · simp [scopesItem, hs, subFrame]
    · simp [scopesItem, hs, hc]
  | loop hl hn =>
    refine ⟨mem_flatMap.mpr ⟨_, hi, ?_⟩, fun c hc => mem_flatMap.mpr ⟨_, hi, ?_⟩⟩
    · simp [scopesItem, hl, loopFrame]
    · rw [scopesItem, if_pos hl]
      exact mem_cons_of_mem _
        (mem_flatMap.mpr ⟨_, mem_range.mpr hn, mem_map_of_mem hc⟩)

variable {q p : List Frame}

/-! ## All scopes of a plan -/

def planScopes (items : List Item) : List (List Frame × List Item) := ([], items) :: bodies items

theorem planScopes_inside (hi : item ∈ items) (h : Opens item f steps) (hb : b ∈ planScopes steps) :
    (f :: b.1, b.2) ∈ planScopes items := by
  rcases mem_cons.mp hb with rfl | hb
  · exact mem_cons_of_mem _ (mem_bodies_here hi h)
  · exact mem_cons_of_mem _ (mem_bodies_inside hi h hb)

theorem mem_planScopes_iff :
    b ∈ planScopes items ↔ b = ([], items) ∨
      ∃ item ∈ items, ∃ f steps, Opens item f steps ∧ ∃ b' ∈ planScopes steps, b = (f :: b'.1, b'.2) := by
  rw [planScopes, mem_cons, mem_bodies_iff]
  simp only [planScopes, mem_cons, exists_eq_or_imp]

@[elab_as_elim]
theorem planScopes_induction {motive : (items : List Item) → (b : List Frame × List Item) → b ∈ planScopes items → Prop}
    (top : ∀ items, motive items ([], items) mem_cons_self)
    (inside : ∀ items item f steps b (hi : item ∈ items) (hopen : Opens item f steps) (hb : b ∈ planScopes steps),
      motive steps b hb → motive items (f :: b.1, b.2) (planScopes_inside hi hopen hb))
    {items : List Item} {b : List Frame × List Item} (hb : b ∈ planScopes items) : motive items b hb := by
  obtain ⟨path, body⟩ := b
  induction path generalizing items with
  | nil =>
    rcases mem_planScopes_iff.mp hb with h | ⟨_, _, _, _, _, _, _, h⟩
    · cases h
      exact top _
    · simp at h
  | cons f path ih =>
    rcases mem_planScopes_iff.mp hb with h | ⟨item, hi, g, steps, hopen, ⟨path', body'⟩, hb', h⟩
    · simp at h
    · obtain ⟨⟨rfl, rfl⟩, rfl⟩ : (f = g ∧ path = path') ∧ body = body' := by simpa using h
      exact inside items item f steps (path, body) hi hopen hb' (ih hb')

theorem occs_of_planScope (hb : b ∈ planScopes items) (ho : o ∈ occs b.2) : o.within b.1 ∈ occs items := by
  induction hb using planScopes_induction with
  | top => exact ho
  | inside items item f steps b hi hopen _ ih => simpa using mem_occs_inside hi hopen (ih ho)

theorem planScope_of_occ (ho : o ∈ occs items) :
    ∃ b ∈ planScopes items, b.1 = o.path ∧ ∃ item ∈ b.2, leafOf? item = some o.leaf := by
  induction ho using occs_induction with
  | leaf items item leaf hi hl => exact ⟨([], items), mem_cons_self, rfl, item, hi, hl⟩
  | inside items item f steps o hi hopen ho ih =>
    obtain ⟨b, hb, hp, hitem⟩ := ih
    exact ⟨_, planScopes_inside hi hopen hb, by simp [hp], hitem⟩

theorem container_of_occ (ho : o ∈ occs items) (hp : o.path = p ++ f :: q) :
    ∃ b ∈ planScopes items, b.1 = p ∧ ∃ item ∈ b.2, ∃ steps, Opens item f steps ∧ ⟨q, o.leaf⟩ ∈ occs steps := by
  induction ho using occs_induction generalizing p with
  | leaf => simp at hp
  | inside items item g steps o hi hopen ho ih =>
    cases p with
    | nil =>
      obtain ⟨rfl, rfl⟩ : g = f ∧ o.path = q := by simpa using hp
      exact ⟨([], items), mem_cons_self, rfl, item, hi, steps, hopen, ho⟩
    | cons g' p =>
      obtain ⟨rfl, hp'⟩ : g = g' ∧ o.path = p ++ f :: q := by simpa using hp
      obtain ⟨b, hb, rfl, hitem⟩ := ih hp'
      exact ⟨_, planScopes_inside hi hopen hb, rfl, hitem⟩

theorem scope_of_occ (ho : o ∈ occs items) (hp : o.path = p ++ f :: q) : (p, f.deps) ∈ scopes items := by
  obtain ⟨b, hb, rfl, item, hi, steps, hopen, -⟩ := container_of_occ ho hp
  clear ho hp
  induction hb using planScopes_induction with
  | top => exact (hopen.scopes hi).1
  | inside items item g steps b hi' hopen' _ ih => exact (hopen'.scopes hi').2 _ (ih hi)

theorem mem_scopesItem {c : List Frame × List String} (h : c ∈ scopesItem item) :
    (c.1 = [] ∧ item.dependsOn = c.2 ∧ leafOf? item = none) ∨
      ∃ f steps, Opens item f steps ∧ ∃ c' ∈ scopes steps, c = (f :: c'.1, c'.2) := by
  cases item with
  | raw entry => simp [scopesItem] at h
  | step s steps =>
    rw [scopesItem] at h
    split at h
    · rename_i hs
      rcases mem_cons.mp h with rfl | h
      · exact .inl ⟨rfl, rfl, by simp [leafOf?, hs]⟩
      · obtain ⟨c', hc', rfl⟩ := mem_map.mp h
        exact .inr ⟨_, _, .sub hs, c', hc', rfl⟩
    · simp at h
  | loop l steps =>
    rw [scopesItem] at h
    split at h
    · rename_i hl
      rcases mem_cons.mp h with rfl | h
      · exact .inl ⟨rfl, rfl, by simp [leafOf?, hl]⟩
      · obtain ⟨n, hn, h⟩ := mem_flatMap.mp h
        obtain ⟨c', hc', rfl⟩ := mem_map.mp h
        exact .inr ⟨_, _, .loop hl (mem_range.mp hn), c', hc', rfl⟩
    · simp at h

theorem planScope_of_scope {c : List Frame × List String} (hc : c ∈ scopes items) :
    ∃ b ∈ planScopes items, b.1 = c.1 ∧ ∃ item ∈ b.2, item.dependsOn = c.2 ∧ leafOf? item = none := by
  obtain ⟨path, deps⟩ := c
  induction path generalizing items with
  | nil =>
    rw [scopes_eq_flatMap] at hc
    obtain ⟨item, hi, hc⟩ := mem_flatMap.mp hc
    rcases mem_scopesItem hc with ⟨_, h⟩ | ⟨_, _, _, _, _, h⟩
    · exact ⟨([], items), mem_cons_self, rfl, item, hi, h⟩
    · simp at h
  | cons f path ih =>
    rw [scopes_eq_flatMap] at hc
    obtain ⟨item, hi, hc⟩ := mem_flatMap.mp hc
    rcases mem_scopesItem hc with ⟨h, _⟩ | ⟨g, steps, hopen, c', hc', h⟩
    · simp at h
    · obtain ⟨⟨rfl, rfl⟩, rfl⟩ : (f = g ∧ path = c'.1) ∧ deps = c'.2 := by simpa using h
      obtain ⟨b, hb, hp, h⟩ := ih hc'
      exact ⟨_, planScopes_inside hi hopen hb, by simp [hp], h⟩

/-! ## Distinct ids -/

theorem Opens.idsItem_eq (h : Opens item f steps) : idsItem item = f.container :: ids steps := by
  cases h with
  | sub hs => rw [idsItem, if_pos hs]; rfl
  | loop => rw [idsItem]; rfl

theorem idsItem_subset (hi : item ∈ items) {x : String} (hx : x ∈ idsItem item) : x ∈ ids items := by
  rw [ids_eq_flatMap]
  exact mem_flatMap.mpr ⟨item, hi, hx⟩

theorem Opens.container_mem (h : Opens item f steps) : f.container ∈ idsItem item := by
  rw [h.idsItem_eq]
  exact mem_cons_self

theorem Opens.mem_of_mem (h : Opens item f steps) {x : String} (hx : x ∈ ids steps) : x ∈ idsItem item := by
  rw [h.idsItem_eq]
  exact mem_cons_of_mem _ hx

theorem ids_planScope (hb : b ∈ planScopes items) {x : String} (hx : x ∈ ids b.2) : x ∈ ids items := by
  induction hb using planScopes_induction with
  | top => exact hx
  | inside items item f steps b hi hopen _ ih => exact idsItem_subset hi (hopen.mem_of_mem (ih hx))

theorem same_item (hd : (ids items).Nodup) {item' : Item} (hi : item ∈ items) (hi' : item' ∈ items)
    {x : String} (hx : x ∈ idsItem item) (hx' : x ∈ idsItem item') : item = item' := by
  rw [ids_eq_flatMap, nodup_flatMap] at hd
  have hsymm : Std.Symm (Function.onFun List.Disjoint idsItem) := ⟨fun _ _ h => h.symm⟩
  exact by_contra fun hne => hd.2.forall hi hi' hne hx hx'

theorem nodup_idsItem (hd : (ids items).Nodup) (hi : item ∈ items) : (idsItem item).Nodup := by
  rw [ids_eq_flatMap, nodup_flatMap] at hd
  exact hd.1 item hi

theorem Opens.container_notMem (hd : (ids items).Nodup)
    (hi : item ∈ items) (h : Opens item f steps) : f.container ∉ ids steps := by
  have hnd := nodup_idsItem hd hi
  rw [h.idsItem_eq] at hnd
  exact (nodup_cons.mp hnd).1

theorem Opens.nodup (hd : (ids items).Nodup) (hi : item ∈ items) (h : Opens item f steps) : (ids steps).Nodup := by
  have hnd := nodup_idsItem hd hi
  rw [h.idsItem_eq] at hnd
  exact (nodup_cons.mp hnd).2

def Frame.head (f : Frame) : String × Option Nat × List String := (f.container, f.iter.map Prod.snd, f.deps)

section

variable {f' : Frame} {steps' : List Item} (h : Opens item f steps) (h' : Opens item f' steps')

include h h'

theorem Opens.unique : f.head = f'.head ∧ steps = steps' := by
  cases h <;> cases h' <;> exact ⟨rfl, rfl⟩

theorem Opens.eq_of_code (hc : f.code = f'.code) : f = f' := by
  cases h with
  | sub => cases h'; rfl
  | loop =>
    cases h'
    simp only [code_loopFrame, Prod.mk.injEq, Option.some.injEq, true_and] at hc
    rw [hc]

end

theorem Opens.same (hd : (ids items).Nodup) {item' : Item} {f' : Frame} {steps' : List Item} (hi : item ∈ items)
    (hi' : item' ∈ items) (h : Opens item f steps) (h' : Opens item' f' steps') (hc : f.container = f'.container) :
    item = item' ∧ steps = steps' := by
  obtain rfl := same_item hd hi hi' h.container_mem (hc ▸ h'.container_mem)
  exact ⟨rfl, (h.unique h').2⟩

/-! An item stands at one place: its own id is the first of its ids. -/

theorem Opens.head_ids (h : Opens item f steps) : (idsItem item).head? = some f.container := by
  rw [h.idsItem_eq]
  rfl

theorem head_ids_of_leaf {leaf : Leaf} (h : leafOf? item = some leaf) : (idsItem item).head? = some leaf.id := by
  obtain ⟨_, _, rfl, _, rfl⟩ | ⟨_, _, rfl, _, rfl⟩ := leafOf?_cases h <;> simp [idsItem, Leaf.id]

section

variable {item' : Item} {x : String} (hd : (ids items).Nodup)

include hd

theorem notMem_of_own (hi : item ∈ items) (hx : (idsItem item).head? = some x) (hi' : item' ∈ items)
    (hopen : Opens item' f steps) : x ∉ ids steps := by
  intro hmem
  obtain rfl := same_item hd hi hi' (mem_of_mem_head? hx) (hopen.mem_of_mem hmem)
  cases hopen.head_ids.symm.trans hx
  exact hopen.container_notMem hd hi hmem

theorem place_unique {b b' : List Frame × List Item} (hb : b ∈ planScopes items) (hb' : b' ∈ planScopes items)
    (hi : item ∈ b.2) (hi' : item' ∈ b'.2) (hx : (idsItem item).head? = some x)
    (hx' : (idsItem item').head? = some x) : b.1.map Frame.head = b'.1.map Frame.head ∧ item = item' := by
  have hmem := idsItem_subset hi (mem_of_mem_head? hx)
  induction hb using planScopes_induction generalizing b' with
  | top items =>
    rcases mem_planScopes_iff.mp hb' with rfl | ⟨item₂, hi₂, f, steps, hopen, b', hb₂, rfl⟩
    · exact ⟨rfl, same_item hd hi hi' (mem_of_mem_head? hx) (mem_of_mem_head? hx')⟩
    · exact absurd (ids_planScope hb₂ (idsItem_subset hi' (mem_of_mem_head? hx'))) (notMem_of_own hd hi hx hi₂ hopen)
  | inside items item₁ f steps b hi₁ hopen hb ih =>
    have hsteps := ids_planScope hb hmem
    rcases mem_planScopes_iff.mp hb' with rfl | ⟨item₂, hi₂, f', steps', hopen', b', hb₂, rfl⟩
    · exact absurd hsteps (notMem_of_own hd hi' hx' hi₁ hopen)
    · have hsteps' := ids_planScope hb₂ (idsItem_subset hi' (mem_of_mem_head? hx'))
      obtain rfl := same_item hd hi₁ hi₂ (hopen.mem_of_mem hsteps) (hopen'.mem_of_mem hsteps')
      obtain ⟨hhead, rfl⟩ := hopen.unique hopen'
      obtain ⟨hheads, rfl⟩ := ih (hopen.nodup hd hi₁) hb₂ hi hi' hmem
      exact ⟨by simp [hheads, hhead], rfl⟩

variable {o o' : Occ} (ho : o ∈ occs items) (ho' : o' ∈ occs items)

include ho ho'

theorem heads_of_container {r q' r' : List Frame} {f' : Frame} (h : o.path = q ++ f :: r) (h' : o'.path = q' ++ f' :: r')
    (hc : f.container = f'.container) : q.map Frame.head = q'.map Frame.head ∧ f.head = f'.head := by
  obtain ⟨b, hb, rfl, item, hi, steps, hopen, -⟩ := container_of_occ ho h
  obtain ⟨b', hb', rfl, item', hi', steps', hopen', -⟩ := container_of_occ ho' h'
  obtain ⟨hheads, rfl⟩ := place_unique hd hb hb' hi hi' hopen.head_ids (hc ▸ hopen'.head_ids)
  exact ⟨hheads, (hopen.unique hopen').1⟩

theorem heads_of_leaf (hid : o.leaf.id = o'.leaf.id) :
    o.path.map Frame.head = o'.path.map Frame.head ∧ o.leaf = o'.leaf := by
  obtain ⟨b, hb, hp, item, hi, hl⟩ := planScope_of_occ ho
  obtain ⟨b', hb', hp', item', hi', hl'⟩ := planScope_of_occ ho'
  obtain ⟨hheads, rfl⟩ := place_unique hd hb hb' hi hi' (head_ids_of_leaf hl) (hid ▸ head_ids_of_leaf hl')
  exact ⟨hp ▸ hp' ▸ hheads, Option.some.inj (hl.symm.trans hl')⟩

theorem leaf_ne_container (hf : f ∈ o'.path) : o.leaf.id ≠ f.container := by
  intro hid
  obtain ⟨q, r, hq⟩ := append_of_mem hf
  obtain ⟨b, hb, -, item, hi, hl⟩ := planScope_of_occ ho
  obtain ⟨b', hb', -, item', hi', steps', hopen, -⟩ := container_of_occ ho' hq
  obtain ⟨-, rfl⟩ := place_unique hd hb hb' hi hi' (head_ids_of_leaf hl) (hid ▸ hopen.head_ids)
  cases hopen <;> simp_all [leafOf?]

end

theorem planScope_unique (hd : (ids items).Nodup) {b b' : List Frame × List Item} (hb : b ∈ planScopes items)
    (hb' : b' ∈ planScopes items) (h : framesOf b.1 = framesOf b'.1) : b = b' := by
  induction hb using planScopes_induction generalizing b' with
  | top items =>
    rcases mem_planScopes_iff.mp hb' with rfl | ⟨_, _, _, _, _, _, _, rfl⟩
    · rfl
    · simp at h
  | inside items item f steps b hi hopen hb ih =>
    rcases mem_planScopes_iff.mp hb' with rfl | ⟨item', hi', f', steps', hopen', b', hb₂, rfl⟩
    · simp at h
    · obtain ⟨hcode, hrest⟩ : f.code = f'.code ∧ framesOf b.1 = framesOf b'.1 := by simpa using h
      obtain ⟨rfl, rfl⟩ := Opens.same hd hi hi' hopen hopen' (congrArg Prod.fst hcode)
      rw [hopen.eq_of_code hopen' hcode, ih (hopen.nodup hd hi) hb₂ hrest]

theorem nodup_planScope (hd : (ids items).Nodup) (hb : b ∈ planScopes items) : (ids b.2).Nodup := by
  induction hb using planScopes_induction with
  | top => exact hd
  | inside items item f steps b hi hopen _ ih => exact ih (hopen.nodup hd hi)

theorem head_eq_cases {g : Frame} (h : f.head = g.head) :
    f = g ∨ ∃ n m k, f.iter = some (n, k) ∧ g = { f with iter := some (m, k) } := by
  obtain ⟨c, i, d⟩ := f
  obtain ⟨c', i', d'⟩ := g
  simp only [Frame.head, Prod.mk.injEq] at h
  obtain ⟨rfl, hi, rfl⟩ := h
  rcases i with _ | ⟨n, k⟩ <;> rcases i' with _ | ⟨m, k'⟩ <;> simp at hi
  · exact .inl rfl
  · exact .inr ⟨n, m, k, rfl, by rw [hi]⟩

theorem frame_ext {g : Frame} (hh : f.head = g.head) (hc : f.code = g.code) : f = g := by
  rcases head_eq_cases hh with h | ⟨n, m, k, hf, rfl⟩
  · exact h
  · obtain ⟨c, i, d⟩ := f
    simp_all [Frame.code]

theorem path_ext (hh : p.map Frame.head = q.map Frame.head) (hc : framesOf p = framesOf q) : p = q := by
  induction p generalizing q with
  | nil => simpa [eq_comm] using hh
  | cons f p ih =>
    cases q with
    | nil => simp at hh
    | cons g q =>
      simp only [map_cons, List.cons.injEq] at hh
      simp only [framesOf_cons, List.cons.injEq] at hc
      rw [frame_ext hh.1 hc.1, ih hh.2 hc.2]

theorem occ_in_scope (hd : (ids items).Nodup) (hb : b ∈ planScopes items)
    (ho : o ∈ occs items) (hp : o.path = b.1 ++ q) : ∃ o' ∈ occs b.2, o = o'.within b.1 ∧ o'.path = q := by
  induction hb using planScopes_induction generalizing o with
  | top => exact ⟨o, ho, rfl, hp⟩
  | inside items item f steps b hi hopen hb ih =>
    rcases mem_occs_iff.mp ho with ⟨_, _, _, h⟩ | ⟨item', hi', f', steps', hopen', o', ho', rfl⟩
    · simp [h] at hp
    · obtain ⟨rfl, hq⟩ : f' = f ∧ o'.path = b.1 ++ q := by simpa using hp
      obtain ⟨rfl, rfl⟩ := Opens.same hd hi hi' hopen hopen' rfl
      obtain ⟨o₂, ho₂, rfl, hq₂⟩ := ih (hopen.nodup hd hi) ho' hq
      exact ⟨o₂, ho₂, by simp, hq₂⟩

end AteStudio.Compiler
