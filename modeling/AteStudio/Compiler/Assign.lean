import AteStudio.Compiler.Occurrences

/-!
# What pass A writes into its tables

The terminal of a container is an occurrence beneath it in the last iteration of every loop around it.
-/

namespace AteStudio.Compiler

open List

/-! ## Pass A, one case for each kind of item -/

def assignAt (p : List Frame) (items : List Item) (st : Tables) (mapping : Dict String String)
    (last : Option String) : Tables × Dict String String × Option String :=
  assignItems (prefixOf p) (suffixOf p) (framesOf p) items (st, mapping, last)

def iterate (p : List Frame) (l : YamlLoop) (steps : List Item) (acc : Tables × Option String) (n : Nat) :
    Tables × Option String :=
  let r := assignAt (p ++ [loopFrame l n]) steps acc.1 ∅ acc.2
  (bindIndex (setFrame r.1 (framesOf (p ++ [loopFrame l n])) r.2.1) l n r.2.1, r.2.2)

def iterateAll (p : List Frame) (l : YamlLoop) (steps : List Item) (st : Tables) (k : Nat) :
    Tables × Option String :=
  (List.range k).foldl (iterate p l steps) (st, none)

def addExpansion (st : Tables) (id expanded : String) : Tables :=
  { st with leafExpansions := st.leafExpansions.set id (st.leafExpansions.getD id [] ++ [expanded]) }

/-- A deferred loop also binds its collection. -/
def bindLeaf (st : Tables) (expanded : String) : Item → Tables
  | .loop l steps => bindCollection st l steps expanded
  | _ => st

section Cases

variable {p : List Frame} {st : Tables} {mapping : Dict String String} {last : Option String}
  {s : YamlStep} {l : YamlLoop} {steps items : List Item}

theorem iterateAll_zero : iterateAll p l steps st 0 = (st, none) := rfl

theorem iterateAll_succ (k : Nat) :
    iterateAll p l steps st (k + 1) = iterate p l steps (iterateAll p l steps st k) k := by
  simp [iterateAll, range_succ, foldl_append]

theorem assignAt_nil : assignAt p [] st mapping last = (st, mapping, last) := by
  rw [assignAt, assignItems]

theorem assignAt_raw (entry : PyVal) :
    assignAt p (.raw entry :: items) st mapping last = assignAt p items st mapping last := by
  simp [assignAt, assignItems, assignItem]

theorem assignAt_leaf {item : Item} {leaf : Leaf} (h : leafOf? item = some leaf) :
    assignAt p (item :: items) st mapping last =
      assignAt p items (bindLeaf (addExpansion st leaf.id (idAt p leaf.id)) (idAt p leaf.id) item)
        (mapping.set leaf.id (idAt p leaf.id)) (some (idAt p leaf.id)) := by
  obtain ⟨_, _, rfl, hk, rfl⟩ | ⟨_, _, rfl, hk, rfl⟩ := leafOf?_cases h <;>
    simp [assignAt, assignItems, assignItem, hk, assignLeaf, addExpansion, idAt, Leaf.id, bindLeaf]

theorem assignAt_sub (h : isSubsequence s = true) :
    assignAt p (.step s steps :: items) st mapping last =
      (let r := assignAt (p ++ [subFrame s]) steps st ∅ none
       assignAt p items (setTerminal (setFrame r.1 (framesOf (p ++ [subFrame s])) r.2.1) s.id r.2.2)
         mapping (r.2.2.or last)) := by
  simp [assignAt, assignItems, assignItem, h, prefixOf_sub, suffixOf_sub]

theorem assignAt_loop (h : expands l = true) :
    assignAt p (.loop l steps :: items) st mapping last =
      (let r := iterateAll p l steps st (iterations l)
       assignAt p items (setTerminal r.1 l.id r.2) mapping last) := by
  simp only [assignAt, assignItems, assignItem, h, if_true, iterateAll, Option.none_or]
  unfold iterate
  simp only [assignAt, prefixOf_loop, suffixOf_loop, framesOf_append, framesOf_cons, framesOf_nil, code_loopFrame]

end Cases

/-! ## What the helpers leave alone -/

section Frame

variable (st : Tables) (id expanded : String) (last : Option String) (frames : Frames)
  (mapping : Dict String String) (l : YamlLoop) (n : Nat) (steps : List Item)

@[simp] theorem addExpansion_frameChildren : (addExpansion st id expanded).frameChildren = st.frameChildren := rfl
@[simp] theorem addExpansion_terminal : (addExpansion st id expanded).terminal = st.terminal := rfl

@[simp] theorem setFrame_terminal : (setFrame st frames mapping).terminal = st.terminal := rfl
@[simp] theorem setFrame_leafExpansions : (setFrame st frames mapping).leafExpansions = st.leafExpansions := rfl
@[simp] theorem setFrame_frameChildren :
    (setFrame st frames mapping).frameChildren = st.frameChildren.set frames mapping := rfl

@[simp] theorem setTerminal_frameChildren : (setTerminal st id last).frameChildren = st.frameChildren := by
  cases last <;> rfl

@[simp] theorem setTerminal_leafExpansions : (setTerminal st id last).leafExpansions = st.leafExpansions := by
  cases last <;> rfl

theorem setTerminal_get? (c : String) :
    (setTerminal st id last).terminal.get? c = (if id = c then last else none).or (st.terminal.get? c) := by
  cases last with
  | none => simp [setTerminal]
  | some e =>
    simp only [setTerminal, Dict.get?_set]
    by_cases h : id = c
    · simp [h]
    · simp [h, Ne.symm h]

@[simp] theorem bindIndex_frameChildren : (bindIndex st l n mapping).frameChildren = st.frameChildren := by
  unfold bindIndex; split <;> [split; skip] <;> rfl

@[simp] theorem bindIndex_leafExpansions : (bindIndex st l n mapping).leafExpansions = st.leafExpansions := by
  unfold bindIndex; split <;> [split; skip] <;> rfl

@[simp] theorem bindIndex_terminal : (bindIndex st l n mapping).terminal = st.terminal := by
  unfold bindIndex; split <;> [split; skip] <;> rfl

@[simp] theorem bindLeaf_frameChildren (item : Item) : (bindLeaf st expanded item).frameChildren = st.frameChildren := by
  unfold bindLeaf bindCollection; split <;> [split; skip] <;> rfl

@[simp] theorem bindLeaf_leafExpansions (item : Item) :
    (bindLeaf st expanded item).leafExpansions = st.leafExpansions := by
  unfold bindLeaf bindCollection; split <;> [split; skip] <;> rfl

@[simp] theorem bindLeaf_terminal (item : Item) : (bindLeaf st expanded item).terminal = st.terminal := by
  unfold bindLeaf bindCollection; split <;> [split; skip] <;> rfl

end Frame

/-! ## Expansions -/

def expansionsAt (p : List Frame) (items : List Item) (t : String) : List String :=
  ((occs items).filter fun o => o.leaf.id = t).map fun o => (o.within p).id

theorem getD_addExpansion (st : Tables) (id expanded t : String) :
    (addExpansion st id expanded).leafExpansions.getD t [] =
      st.leafExpansions.getD t [] ++ if id = t then [expanded] else [] := by
  unfold addExpansion
  simp only [Dict.getD, Dict.get?_set]
  by_cases h : id = t
  · simp [h]
  · simp [h, Ne.symm h]

section Cases

variable {p : List Frame} {item : Item} {steps items : List Item} (t : String)

theorem expansionsAt_cons_leaf {leaf : Leaf} (h : leafOf? item = some leaf) :
    expansionsAt p (item :: items) t =
      (if leaf.id = t then [idAt p leaf.id] else []) ++ expansionsAt p items t := by
  unfold expansionsAt
  rw [occs_leaf h, filter_cons]
  by_cases hid : leaf.id = t <;> simp [hid, Occ.id]

theorem expansionsAt_within (f : Frame) :
    (((occs steps).map (Occ.within [f])).filter fun o => o.leaf.id = t).map (fun o => (o.within p).id) =
      expansionsAt (p ++ [f]) steps t := by
  rw [expansionsAt, filter_map, map_map]
  simp only [Function.comp_def, within_within]
  rfl

theorem expansionsAt_unfolds {k : Nat} {frame : Nat → Frame} (h : Unfolds item k frame steps) :
    expansionsAt p (item :: items) t =
      ((List.range k).flatMap fun n => expansionsAt (p ++ [frame n]) steps t) ++ expansionsAt p items t := by
  rw [expansionsAt, occs_unfolds h, filter_append, map_append, ← expansionsAt]
  simp only [filter_flatMap, map_flatMap, expansionsAt_within]

end Cases

variable (items : List Item) (t c : String) (p : List Frame) (st : Tables) (mapping : Dict String String)
  (last : Option String)

theorem assignAt_expansions : (assignAt p items st mapping last).1.leafExpansions.getD t [] =
      st.leafExpansions.getD t [] ++ expansionsAt p items t := by
  induction items using pass_induction generalizing p st mapping last with
  | nil => simp [assignAt_nil, expansionsAt]
  | raw entry items ih => simp [assignAt_raw, ih, expansionsAt]
  | leaf item leaf items h ih =>
    rw [assignAt_leaf h, ih, bindLeaf_leafExpansions, getD_addExpansion, expansionsAt_cons_leaf t h, append_assoc]
  | sub s steps items hs ihs ih => simp [assignAt_sub hs, ih, ihs, expansionsAt_unfolds t (.sub hs)]
  | loop l steps items hl ihs ih =>
    have body (k : Nat) : (iterateAll p l steps st k).1.leafExpansions.getD t [] =
        st.leafExpansions.getD t [] ++
          (List.range k).flatMap fun n => expansionsAt (p ++ [loopFrame l n]) steps t := by
      induction k with
      | zero => simp [iterateAll_zero]
      | succ k ihk => simp [iterateAll_succ, iterate, ihs, ihk, range_succ]
    simp [assignAt_loop hl, ih, body, expansionsAt_unfolds t (.loop hl)]

/-! ## Terminals -/

mutual
/-- The last occurrence beneath an item. An expanded loop reports none. -/
def lastItem : Item → Option Occ
  | .step s steps =>
    if isSubsequence s then (lastOf steps).map (.within [subFrame s]) else some ⟨[], .step s⟩
  | .loop l _ => if expands l then none else some ⟨[], .deferred l⟩
  | .raw _ => none

def lastOf : List Item → Option Occ
  | [] => none
  | item :: items => (lastOf items).or (lastItem item)
end

mutual
def terminalItem (c : String) : Item → Option Occ
  | .step s steps =>
    if isSubsequence s then
      ((if s.id = c then lastOf steps else none).or (terminalOf c steps)).map (.within [subFrame s])
    else none
  | .loop l steps =>
    if expands l ∧ 0 < iterations l then
      ((if l.id = c then lastOf steps else none).or (terminalOf c steps)).map
        (.within [loopFrame l (iterations l - 1)])
    else none
  | .raw _ => none

def terminalOf (c : String) : List Item → Option Occ
  | [] => none
  | item :: items => (terminalOf c items).or (terminalItem c item)
end

theorem lastItem_leaf {item : Item} {leaf : Leaf} (h : leafOf? item = some leaf) : lastItem item = some ⟨[], leaf⟩ := by
  obtain ⟨_, _, rfl, hk, rfl⟩ | ⟨_, _, rfl, hk, rfl⟩ := leafOf?_cases h <;> simp [lastItem, hk]

theorem terminalItem_leaf {item : Item} {leaf : Leaf} (h : leafOf? item = some leaf) (c : String) :
    terminalItem c item = none := by
  obtain ⟨_, _, rfl, hk, rfl⟩ | ⟨_, _, rfl, hk, rfl⟩ := leafOf?_cases h <;> simp [terminalItem, hk]

theorem assignAt_last :
    (assignAt p items st mapping last).2.2 = ((lastOf items).map fun o => (o.within p).id).or last := by
  induction items using pass_induction generalizing p st mapping last with
  | nil => simp [assignAt_nil, lastOf]
  | raw entry items ih => simp [assignAt_raw, ih, lastOf, lastItem]
  | leaf item leaf items h ih =>
    cases hlast : lastOf items <;> simp [assignAt_leaf h, ih, lastOf, lastItem_leaf h, hlast, Occ.id]
  | sub s steps items hs ihs ih =>
    cases h : lastOf items <;> simp [assignAt_sub hs, ih, ihs, lastOf, lastItem, hs, h, Function.comp_def]
  | loop l steps items hl _ ih => simp [assignAt_loop hl, ih, lastOf, lastItem, hl]

theorem iterateAll_last (p : List Frame) (l : YamlLoop) (steps : List Item) (st : Tables) (k : Nat) :
    (iterateAll p l steps st (k + 1)).2 = (lastOf steps).map fun o => (o.within (p ++ [loopFrame l k])).id := by
  induction k with
  | zero => simp [iterateAll_succ, iterateAll_zero, iterate, assignAt_last]
  | succ k ih =>
    rw [iterateAll_succ, iterate, assignAt_last, ih]
    cases lastOf steps <;> simp

theorem assignAt_terminal : (assignAt p items st mapping last).1.terminal.get? c =
      ((terminalOf c items).map fun o => (o.within p).id).or (st.terminal.get? c) := by
  induction items using pass_induction generalizing p st mapping last with
  | nil => simp [assignAt_nil, terminalOf]
  | raw entry items ih => simp [assignAt_raw, ih, terminalOf, terminalItem]
  | leaf item leaf items h ih => simp [assignAt_leaf h, ih, terminalOf, terminalItem_leaf h]
  | sub s steps items hs ihs ih =>
    simp only [assignAt_sub hs, ih, setTerminal_get?, setFrame_terminal, ihs, assignAt_last,
      Option.or_none, terminalOf, terminalItem, hs, if_true]
    by_cases hc : s.id = c <;> simp [hc, Option.map_or, Option.or_assoc, Function.comp_def]
  | loop l steps items hl ihs ih =>
    rcases Nat.eq_zero_or_pos (iterations l) with hk | hk
    · simp [assignAt_loop hl, ih, hk, iterateAll_zero, setTerminal, terminalOf, terminalItem]
    obtain ⟨k, hk⟩ := Nat.exists_eq_add_one.mpr hk
    -- Every iteration sets the same terminals, so those of the last one stay.
    have body (k : Nat) : (iterateAll p l steps st (k + 1)).1.terminal.get? c =
        ((terminalOf c steps).map fun o => (o.within (p ++ [loopFrame l k])).id).or (st.terminal.get? c) := by
      induction k with
      | zero => simp [iterateAll_succ, iterateAll_zero, iterate, ihs]
      | succ k ihk =>
        rw [iterateAll_succ]
        simp only [iterate, bindIndex_terminal, setFrame_terminal, ihs, ihk]
        cases terminalOf c steps <;> simp
    simp only [assignAt_loop hl, ih, hk, setTerminal_get?, body, iterateAll_last, terminalOf, terminalItem]
    by_cases hc : l.id = c <;> simp [hl, hc, Option.map_or, Option.or_assoc, Function.comp_def]

/-! ## Scopes -/

def ScopeMap (m : Dict String String) (p : List Frame) (items : List Item) : Prop :=
  ∀ t, m.get? t = if t ∈ directIds items then some (idAt p t) else none

theorem assignAt_mapping : (assignAt p items st mapping last).2.1.get? t =
      if t ∈ directIds items then some (idAt p t) else mapping.get? t := by
  induction items using pass_induction generalizing p st mapping last with
  | nil => simp [assignAt_nil]
  | raw entry items ih => simp [assignAt_raw, ih, directIds_cons, leafOf?]
  | leaf item leaf items h ih =>
    rw [assignAt_leaf h, ih, Dict.get?_set, directIds_cons, h]
    by_cases hid : t = leaf.id <;> simp [hid]
  | sub s steps items hs _ ih => simp [assignAt_sub hs, ih, directIds_cons, leafOf?, hs]
  | loop l steps items hl _ ih => simp [assignAt_loop hl, ih, directIds_cons, leafOf?, hl]

theorem assignAt_scopeMap (p : List Frame) (items : List Item) (st : Tables) (last : Option String) :
    ScopeMap (assignAt p items st ∅ last).2.1 p items := by
  intro t
  simp [assignAt_mapping]

/-- The entry for `frames` is that of a scope in `bs`, or of `st₀`. -/
def Entry (st₀ st : Tables) (p : List Frame) (bs : List (List Frame × List Item)) (frames : Frames) : Prop :=
  (∃ b ∈ bs, frames = framesOf (p ++ b.1) ∧
    ∃ m, st.frameChildren.get? frames = some m ∧ ScopeMap m (p ++ b.1) b.2) ∨
  ((∀ b ∈ bs, frames ≠ framesOf (p ++ b.1)) ∧ st.frameChildren.get? frames = st₀.frameChildren.get? frames)

section Entry

variable {st₀ st₁ st₂ : Tables} {p : List Frame} {bs bs' : List (List Frame × List Item)} {frames : Frames}

theorem Entry.trans (h₁ : Entry st₀ st₁ p bs frames) (h₂ : Entry st₁ st₂ p bs' frames) :
    Entry st₀ st₂ p (bs ++ bs') frames := by
  rcases h₂ with ⟨b, hb, hf, hm⟩ | ⟨hne₂, h₂⟩
  · exact .inl ⟨b, mem_append_right _ hb, hf, hm⟩
  rcases h₁ with ⟨b, hb, hf, m, hm, hs⟩ | ⟨hne₁, h₁⟩
  · exact .inl ⟨b, mem_append_left _ hb, hf, m, h₂.trans hm, hs⟩
  · refine .inr ⟨fun b hb => ?_, h₂.trans h₁⟩
    rcases mem_append.mp hb with hb | hb
    · exact hne₁ b hb
    · exact hne₂ b hb

theorem Entry.congr (h : Entry st₀ st₁ p bs frames) (heq : st₂.frameChildren = st₁.frameChildren) :
    Entry st₀ st₂ p bs frames := by
  unfold Entry at h ⊢
  rwa [heq]

theorem Entry.close {f : Frame} {steps : List Item} {m : Dict String String}
    (h : Entry st₀ st₁ (p ++ [f]) bs frames) (hm : ScopeMap m (p ++ [f]) steps) :
    Entry st₀ (setFrame st₁ (framesOf (p ++ [f])) m) p
      (([f], steps) :: bs.map fun b => (f :: b.1, b.2)) frames := by
  by_cases hf : frames = framesOf (p ++ [f])
  · exact .inl ⟨_, mem_cons_self, hf, m, by simp [hf], hm⟩
  have hget : (setFrame st₁ (framesOf (p ++ [f])) m).frameChildren.get? frames =
      st₁.frameChildren.get? frames := by
    rw [setFrame_frameChildren, Dict.get?_set_of_ne _ _ hf]
  rcases h with ⟨b, hb, hfr, m', hm', hs⟩ | ⟨hne, h⟩
  · refine .inl ⟨(f :: b.1, b.2), mem_cons_of_mem _ (mem_map_of_mem hb), ?_, m', ?_, ?_⟩
    · simpa using hfr
    · rw [hget, hm']
    · simpa using hs
  · refine .inr ⟨fun b hb => ?_, hget.trans h⟩
    rcases mem_cons.mp hb with rfl | hb
    · exact hf
    · obtain ⟨b', hb', rfl⟩ := mem_map.mp hb
      simpa using hne b' hb'

end Entry

theorem bodiesItem_leaf {item : Item} {leaf : Leaf} (h : leafOf? item = some leaf) : bodiesItem item = [] := by
  obtain ⟨_, _, rfl, hk, rfl⟩ | ⟨_, _, rfl, hk, rfl⟩ := leafOf?_cases h <;> simp [bodiesItem, hk]

theorem assignAt_entry (items : List Item) (frames : Frames) (p : List Frame) (st : Tables)
    (mapping : Dict String String) (last : Option String) :
    Entry st (assignAt p items st mapping last).1 p (bodies items) frames := by
  induction items using pass_induction generalizing p st mapping last with
  | nil => exact .inr ⟨by simp [bodies], by rw [assignAt_nil]⟩
  | raw entry items ih => simpa [assignAt_raw, bodies, bodiesItem] using ih p st mapping last
  | leaf item leaf items h ih =>
    rw [assignAt_leaf h, bodies, bodiesItem_leaf h]
    simpa [Entry] using ih p (bindLeaf (addExpansion st leaf.id (idAt p leaf.id)) (idAt p leaf.id) item) _ _
  | sub s steps items hs ihs ih =>
    rw [assignAt_sub hs, bodies, bodiesItem, if_pos hs]
    refine Entry.trans (Entry.congr ?_ (setTerminal_frameChildren _ _ _)) (ih p _ _ _)
    exact (ihs _ st ∅ none).close (assignAt_scopeMap _ _ _ _)
  | loop l steps items hl ihs ih =>
    have body (k : Nat) : Entry st (iterateAll p l steps st k).1 p ((List.range k).flatMap fun n =>
        ([loopFrame l n], steps) :: (bodies steps).map fun b => (loopFrame l n :: b.1, b.2)) frames := by
      induction k with
      | zero => exact .inr ⟨by simp, by rw [iterateAll_zero]⟩
      | succ k ihk =>
        rw [iterateAll_succ, range_succ, flatMap_append, flatMap_singleton]
        refine ihk.trans (Entry.congr ?_ (bindIndex_frameChildren _ _ _ _))
        exact (ihs _ _ ∅ _).close (assignAt_scopeMap _ _ _ _)
    rw [assignAt_loop hl, bodies, bodiesItem, if_pos hl]
    exact Entry.trans ((body _).congr (setTerminal_frameChildren _ _ _)) (ih p _ _ _)

end AteStudio.Compiler
