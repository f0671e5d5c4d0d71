import AteStudio.Compiler.Assign
import AteStudio.Compiler.Paths

/-! # What a reference resolves to -/

namespace AteStudio.Compiler

open List
open Option (isSome_or map_eq_some_iff or_eq_some_iff)

def Frame.IsLast (f : Frame) : Prop := ∀ n k, f.iter = some (n, k) → n + 1 = k

theorem Unfolds.isLast {item : Item} {k : Nat} {frame : Nat → Frame} {steps : List Item}
    (h : Unfolds item k frame steps) (hk : 0 < k) : (frame (k - 1)).IsLast := by
  intro n m hnm
  cases h with
  | sub => cases hnm
  | loop =>
    cases hnm
    omega

def Occ.Final (o : Occ) : Prop := ∀ f ∈ o.path, f.IsLast

/-! ## Expansions -/

variable {f : Frame} {o : Occ}

theorem final_within (ho : o.Final) (hf : f.IsLast) : (o.within [f]).Final := by
  intro g hg
  rcases mem_cons.mp hg with rfl | hg
  · exact hf
  · exact ho g hg

theorem final_of_getLast (items : List Item) (t : String) (o : Occ)
    (h : ((occs items).filter fun o => o.leaf.id = t).getLast? = some o) : o.Final := by
  induction items using unfold_induction generalizing o with
  | nil => simp at h
  | raw entry items ih => exact ih o (by simpa using h)
  | leaf item leaf items hleaf ih =>
    rw [occs_leaf hleaf, ← singleton_append, filter_append, getLast?_append] at h
    rcases Option.or_eq_some_iff.mp h with h | ⟨_, h⟩
    · exact ih o h
    · obtain ⟨rfl, _⟩ : o = ⟨[], leaf⟩ ∧ _ := by simpa using mem_of_getLast? h
      exact fun f hf => nomatch hf
  | container item k frame steps items hu ihs ih =>
    rw [occs_unfolds hu, filter_append, getLast?_append] at h
    rcases Option.or_eq_some_iff.mp h with h | ⟨_, h⟩
    · exact ih o h
    cases k with
    | zero => simp at h
    | succ k =>
      -- Every iteration has the same leaves, so the last occurrence is in the last one.
      rw [range_succ, flatMap_append, filter_append, getLast?_append, flatMap_singleton, filter_map, getLast?_map] at h
      rcases Option.or_eq_some_iff.mp h with h | ⟨hnone, h⟩
      · obtain ⟨o', ho', rfl⟩ := map_eq_some_iff.mp h
        exact final_within (ihs o' ho') (hu.isLast k.succ_pos)
      · rw [Option.map_eq_none_iff, getLast?_eq_none_iff, filter_eq_nil_iff] at hnone
        have := mem_of_getLast? h
        simp only [filter_flatMap, mem_flatMap, mem_filter, mem_map] at this
        obtain ⟨n, _, ⟨o', ho', rfl⟩, hid⟩ := this
        exact absurd hid (hnone o' ho')

/-! ## Terminals -/

theorem mem_occs_later {item : Item} {items : List Item} {P : Prop} (h : o ∈ occs items ∧ P) :
    o ∈ occs (item :: items) ∧ P :=
  ⟨by rw [occs]; exact mem_append_right _ h.1, h.2⟩

theorem lastOf_spec (items : List Item) (o : Occ) (h : lastOf items = some o) :
    o ∈ occs items ∧ ∀ f ∈ o.path, f.iter = none := by
  induction items using pass_induction generalizing o with
  | nil => simp [lastOf] at h
  | raw entry items ih => exact mem_occs_later (ih o (by simpa [lastOf, lastItem] using h))
  | leaf item leaf items hleaf ih =>
    rw [lastOf, or_eq_some_iff] at h
    rcases h with h | ⟨_, h⟩
    · exact mem_occs_later (ih o h)
    rw [lastItem_leaf hleaf, Option.some.injEq] at h
    subst h
    simp [occs_leaf hleaf]
  | sub s steps items hs ihs ih =>
    rw [lastOf, or_eq_some_iff] at h
    rcases h with h | ⟨_, h⟩
    · exact mem_occs_later (ih o h)
    simp only [lastItem, hs, if_true, map_eq_some_iff] at h
    obtain ⟨o', ho', rfl⟩ := h
    obtain ⟨hmem, hnone⟩ := ihs o' ho'
    refine ⟨mem_occs_inside mem_cons_self (.sub hs) hmem, fun f hf => ?_⟩
    rcases mem_cons.mp hf with rfl | hf
    · rfl
    · exact hnone f hf
  | loop l steps items hl _ ih =>
    rw [lastOf, or_eq_some_iff] at h
    rcases h with h | ⟨_, h⟩
    · exact mem_occs_later (ih o h)
    · simp [lastItem, hl] at h

/-- `o` stands for the container `c`: only subsequences lie between them. -/
def StandsFor (c : String) (o : Occ) : Prop :=
  o.Final ∧ ∃ p f r, o.path = p ++ f :: r ∧ f.container = c ∧ ∀ g ∈ r, g.iter = none

variable {steps : List Item}

theorem terminalItem_unfolds {c : String} {item : Item} {k : Nat} {frame : Nat → Frame} (h : Unfolds item k frame steps) :
    terminalItem c item =
      if 0 < k then
        ((if (frame (k - 1)).container = c then lastOf steps else none).or (terminalOf c steps)).map
          (.within [frame (k - 1)])
      else none := by
  cases h <;> simp only [terminalItem, *] <;> simp <;> rfl

theorem terminalOf_spec (items : List Item) (c : String) (o : Occ) (h : terminalOf c items = some o) :
    o ∈ occs items ∧ StandsFor c o := by
  induction items using unfold_induction generalizing o with
  | nil => simp [terminalOf] at h
  | raw entry items ih => exact mem_occs_later (ih o (by simpa [terminalOf, terminalItem] using h))
  | leaf item leaf items hleaf ih =>
    exact mem_occs_later (ih o (by simpa [terminalOf, terminalItem_leaf hleaf] using h))
  | container item k frame steps items hu ihs ih =>
    rw [terminalOf, or_eq_some_iff, terminalItem_unfolds hu] at h
    rcases h with h | ⟨_, h⟩
    · exact mem_occs_later (ih o h)
    split at h
    · rename_i hk
      have inside {o : Occ} (ho : o ∈ occs steps) : o.within [frame (k - 1)] ∈ occs (item :: items) :=
        mem_occs_inside mem_cons_self (hu.opens (by omega)) ho
      obtain ⟨o, ho, rfl⟩ := map_eq_some_iff.mp h
      rcases or_eq_some_iff.mp ho with ho | ⟨_, ho⟩
      · split at ho
        · rename_i hc
          obtain ⟨hmem, hnone⟩ := lastOf_spec steps o ho
          refine ⟨inside hmem, final_within (fun g hg n k hnk => ?_) (hu.isLast hk), [], _, o.path, rfl, hc, hnone⟩
          rw [hnone g hg] at hnk
          cases hnk
        · cases ho
      · obtain ⟨hmem, hfin, p, g, r, hp, hc, hr⟩ := ihs o ho
        exact ⟨inside hmem, final_within hfin (hu.isLast hk), frame (k - 1) :: p, g, r, by simp [hp], hc, hr⟩
    · cases h

variable {items : List Item}

theorem lastOf_isSome (h : directIds items ≠ []) : (lastOf items).isSome = true := by
  induction items with
  | nil => simp at h
  | cons item items ih =>
    rw [lastOf, isSome_or, Bool.or_eq_true]
    cases hl : leafOf? item with
    | none => exact .inl (ih (by simpa [directIds_cons, hl] using h))
    | some leaf => exact .inr (by simp [lastItem_leaf hl])

theorem terminalOf_isSome_of_mem {c : String} {item : Item} (hi : item ∈ items)
    (h : (terminalItem c item).isSome = true) : (terminalOf c items).isSome = true := by
  induction items with
  | nil => cases hi
  | cons item' items ih =>
    rw [terminalOf, isSome_or, Bool.or_eq_true]
    rcases mem_cons.mp hi with rfl | hi
    · exact .inr h
    · exact .inl (ih hi)

theorem Opens.terminalItem_isSome {item : Item} {c : String} (hopen : Opens item f steps)
    (h : (f.container = c ∧ (lastOf steps).isSome = true) ∨ (terminalOf c steps).isSome = true) :
    (terminalItem c item).isSome = true := by
  obtain ⟨k, frame, hu, hk, hc⟩ : ∃ k frame, Unfolds item k frame steps ∧ 0 < k ∧
      (frame (k - 1)).container = f.container := by
    cases hopen with
    | sub hs => exact ⟨_, _, .sub hs, by omega, rfl⟩
    | loop hl hn => exact ⟨_, _, .loop hl, by omega, rfl⟩
  rw [terminalItem_unfolds hu, if_pos hk, hc, Option.isSome_map, isSome_or, Bool.or_eq_true]
  rcases h with ⟨hc, h⟩ | h
  · exact .inl (by rwa [if_pos hc])
  · exact .inr h

theorem terminalOf_isSome {b : List Frame × List Item} (hb : b ∈ planScopes items)
    {item : Item} (hi : item ∈ b.2) (hopen : Opens item f steps)
    (hleaf : directIds steps ≠ []) : (terminalOf f.container items).isSome = true := by
  induction hb using planScopes_induction with
  | top items => exact terminalOf_isSome_of_mem hi (hopen.terminalItem_isSome (.inl ⟨rfl, lastOf_isSome hleaf⟩))
  | inside items item' g steps' b hi' hopen' _ ih =>
    exact terminalOf_isSome_of_mem hi' (hopen'.terminalItem_isSome (.inr (ih hi)))

/-! ## References -/

theorem assignPlan_eq (items : List Item) :
    assignPlan items =
      setFrame (assignAt [] items {} ∅ none).1 [] (assignAt [] items {} ∅ none).2.1 := by
  unfold assignPlan assignAt
  rfl

theorem plan_expansions (items : List Item) (t : String) :
    (assignPlan items).leafExpansions.getD t [] = expansionsAt [] items t := by
  rw [assignPlan_eq, setFrame_leafExpansions, assignAt_expansions]
  rfl

theorem plan_terminal (items : List Item) (c : String) :
    (assignPlan items).terminal.get? c = (terminalOf c items).map Occ.id := by
  rw [assignPlan_eq, setFrame_terminal, assignAt_terminal]
  have h : (({} : Tables).terminal.get? c) = none := rfl
  rw [h, Option.or_none]
  rfl

theorem plan_scope (items : List Item) (frames : Frames) :
    (∃ b ∈ planScopes items, frames = framesOf b.1 ∧
      ∃ m, (assignPlan items).frameChildren.get? frames = some m ∧ ScopeMap m b.1 b.2) ∨
    ((∀ b ∈ planScopes items, frames ≠ framesOf b.1) ∧
      (assignPlan items).frameChildren.get? frames = none) := by
  rw [assignPlan_eq, setFrame_frameChildren]
  by_cases hf : frames = []
  · subst hf
    exact .inl ⟨([], items), mem_cons_self, rfl, _, Dict.get?_set_self .., assignAt_scopeMap _ _ _ _⟩
  rw [Dict.get?_set_of_ne _ _ hf]
  rcases assignAt_entry items frames [] {} ∅ none with ⟨b, hb, hfr, m, hm, hs⟩ | ⟨hne, hget⟩
  · exact .inl ⟨b, mem_cons_of_mem _ hb, hfr, m, hm, hs⟩
  · refine .inr ⟨fun b hb => ?_, hget.trans rfl⟩
    rcases mem_cons.mp hb with rfl | hb
    · exact hf
    · exact hne b hb

variable {frames : Frames}

theorem scopeLookup_sound {t e : String} (h : scopeLookup (assignPlan items) frames t = some e) :
    ∃ o ∈ occs items, o.id = e ∧ o.leaf.id = t ∧ framesOf o.path <+: frames := by
  unfold scopeLookup at h
  obtain ⟨i, _, hi⟩ := exists_of_findSome?_eq_some h
  obtain ⟨m, hm, he⟩ := Option.bind_eq_some_iff.mp hi
  rcases plan_scope items (frames.take i) with ⟨b, hb, hfr, m', hm', hs⟩ | ⟨_, hnone⟩
  · rw [hm'] at hm
    cases hm
    rw [hs t] at he
    split at he
    · rename_i ht
      cases he
      obtain ⟨o, ho, hp, rfl⟩ := mem_directIds_iff.mp ht
      refine ⟨o.within b.1, ?_, by simp [Occ.id, hp], rfl, ?_⟩
      · exact occs_of_planScope hb ho
      · rw [within_path, hp, append_nil, ← hfr]
        exact take_prefix ..
    · cases he
  · rw [hnone] at hm
    cases hm

theorem mem_planScopes_of_occ (ho : o ∈ occs items) :
    ∃ b ∈ planScopes items, b.1 = o.path ∧ o.leaf.id ∈ directIds b.2 := by
  obtain ⟨b, hb, hp, item, hi, hl⟩ := planScope_of_occ ho
  exact ⟨b, hb, hp, mem_directIds_iff.mpr ⟨_, mem_occs_leaf hi hl, rfl, rfl⟩⟩

theorem scopeLookup_complete (hd : (ids items).Nodup) (ho : o ∈ occs items) (hpre : framesOf o.path <+: frames) :
    scopeLookup (assignPlan items) frames o.leaf.id = some o.id := by
  obtain ⟨b, hb, hpath, hid⟩ := mem_planScopes_of_occ ho
  have hfound : ∃ e, scopeLookup (assignPlan items) frames o.leaf.id = some e := by
    unfold scopeLookup
    rw [← Option.isSome_iff_exists, findSome?_isSome_iff]
    refine ⟨(framesOf o.path).length, ?_, ?_⟩
    · have := hpre.length_le
      simp only [mem_reverse, mem_range]
      omega
    · rw [← prefix_iff_eq_take.mp hpre]
      rcases plan_scope items (framesOf o.path) with ⟨b', hb', hfr, m, hm, hs⟩ | ⟨hne, _⟩
      · obtain rfl := planScope_unique hd hb hb' (by rw [hpath, hfr])
        simp [hm, hs o.leaf.id, hid]
      · exact absurd (by rw [hpath]) (hne b hb)
  obtain ⟨e, he⟩ := hfound
  obtain ⟨o', ho', rfl, hid', hpre'⟩ := scopeLookup_sound he
  -- Both paths are prefixes of `frames` and have the same length.
  have hlen := congrArg List.length (heads_of_leaf hd ho' ho hid').1
  simp only [length_map] at hlen
  have hframes : framesOf o'.path = framesOf o.path :=
    (prefix_of_prefix_length_le hpre' hpre (by simp [framesOf, hlen])).eq_of_length (by simp [framesOf, hlen])
  rw [he, Occ.id, Occ.id, hid', idAt_congr hframes]

theorem lookup_sound {t e : String} (h : lookupTarget (assignPlan items) frames t = some e) :
    ∃ o ∈ occs items, o.id = e ∧
      ((o.leaf.id = t ∧ framesOf o.path <+: frames) ∨
        (scopeLookup (assignPlan items) frames t = none ∧ ((o.leaf.id = t ∧ o.Final) ∨ StandsFor t o))) := by
  unfold lookupTarget at h
  rcases Option.or_eq_some_iff.mp h with h | ⟨hnone, h⟩
  · obtain ⟨o, ho, hid, ht, hp⟩ := scopeLookup_sound h
    exact ⟨o, ho, hid, .inl ⟨ht, hp⟩⟩
  rcases Option.or_eq_some_iff.mp h with h | ⟨_, h⟩
  · rw [plan_terminal, map_eq_some_iff] at h
    obtain ⟨o, ho, hid⟩ := h
    obtain ⟨hmem, hst⟩ := terminalOf_spec items t o ho
    exact ⟨o, hmem, hid, .inr ⟨hnone, .inr hst⟩⟩
  · rw [plan_expansions, expansionsAt, getLast?_map, map_eq_some_iff] at h
    obtain ⟨o, ho, hid⟩ := h
    have hmem := mem_filter.mp (mem_of_getLast? ho)
    exact ⟨o, hmem.1, hid, .inr ⟨hnone, .inl ⟨by simpa using hmem.2, final_of_getLast items t o ho⟩⟩⟩

end AteStudio.Compiler
