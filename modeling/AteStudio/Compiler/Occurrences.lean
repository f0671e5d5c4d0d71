import AteStudio.Compiler.Code

/-!
# What a plan expands to

A leaf occurs once for each choice of an iteration in each loop around it.
-/

namespace AteStudio.Compiler

open List

/-- One enclosing container, with the iteration and the number of iterations if it is a loop. -/
structure Frame where
  container : String
  iter : Option (Nat × Nat)
  deps : List String
deriving DecidableEq, Repr

def subFrame (s : YamlStep) : Frame := ⟨s.id, none, s.dependsOn⟩

def loopFrame (l : YamlLoop) (n : Nat) : Frame := ⟨l.id, some (n, iterations l), l.dependsOn⟩

inductive Leaf where
  | step (s : YamlStep)
  | deferred (l : YamlLoop)

def Leaf.id : Leaf → String
  | .step s => s.id
  | .deferred l => l.id

def Leaf.dependsOn : Leaf → List String
  | .step s => s.dependsOn
  | .deferred l => l.dependsOn

structure Occ where
  path : List Frame
  leaf : Leaf

def Occ.within (p : List Frame) (o : Occ) : Occ := ⟨p ++ o.path, o.leaf⟩

mutual
def occsItem : Item → List Occ
  | .step s steps =>
    if isSubsequence s then (occs steps).map (.within [subFrame s]) else [⟨[], .step s⟩]
  | .loop l steps =>
    if expands l then
      (List.range (iterations l)).flatMap fun n => (occs steps).map (.within [loopFrame l n])
    else [⟨[], .deferred l⟩]
  | .raw _ => []

def occs : List Item → List Occ
  | [] => []
  | item :: items => occsItem item ++ occs items
end

mutual
def scopesItem : Item → List (List Frame × List String)
  | .step s steps =>
    if isSubsequence s then
      ([], s.dependsOn) :: (scopes steps).map fun c => (subFrame s :: c.1, c.2)
    else []
  | .loop l steps =>
    if expands l then
      ([], l.dependsOn) :: (List.range (iterations l)).flatMap fun n =>
        (scopes steps).map fun c => (loopFrame l n :: c.1, c.2)
    else []
  | .raw _ => []

def scopes : List Item → List (List Frame × List String)
  | [] => []
  | item :: items => scopesItem item ++ scopes items
end

mutual
def bodiesItem : Item → List (List Frame × List Item)
  | .step s steps =>
    if isSubsequence s then
      ([subFrame s], steps) :: (bodies steps).map fun b => (subFrame s :: b.1, b.2)
    else []
  | .loop l steps =>
    if expands l then
      (List.range (iterations l)).flatMap fun n =>
        ([loopFrame l n], steps) :: (bodies steps).map fun b => (loopFrame l n :: b.1, b.2)
    else []
  | .raw _ => []

def bodies : List Item → List (List Frame × List Item)
  | [] => []
  | item :: items => bodiesItem item ++ bodies items
end

mutual
/-- Every id written in the plan, the bodies of deferred loops included. -/
def idsItem : Item → List String
  | .step s steps => s.id :: if isSubsequence s then ids steps else []
  | .loop l steps => l.id :: ids steps
  | .raw _ => []

def ids : List Item → List String
  | [] => []
  | item :: items => idsItem item ++ ids items
end

/-! ## Paths as the compiler spells them -/

def Frame.code (f : Frame) : String × Option Nat := (f.container, f.iter.map Prod.fst)

def framesOf (p : List Frame) : Frames := p.map Frame.code

def prefixOf : List Frame → String
  | [] => ""
  | ⟨c, none, _⟩ :: p => c ++ "." ++ prefixOf p
  | ⟨_, some _, _⟩ :: p => prefixOf p

def suffixOf : List Frame → String
  | [] => ""
  | ⟨_, none, _⟩ :: p => suffixOf p
  | ⟨_, some (n, _), _⟩ :: p => iterSuffix n ++ suffixOf p

def idAt (p : List Frame) (id : String) : String := prefixOf p ++ id ++ suffixOf p

def Occ.id (o : Occ) : String := idAt o.path o.leaf.id

@[simp] theorem framesOf_nil : framesOf [] = [] := rfl

variable (p q : List Frame)

@[simp] theorem framesOf_append : framesOf (p ++ q) = framesOf p ++ framesOf q :=
  map_append

@[simp] theorem framesOf_cons (f : Frame) (p : List Frame) : framesOf (f :: p) = f.code :: framesOf p := rfl

@[simp] theorem framesOf_eq_nil {p : List Frame} : framesOf p = [] ↔ p = [] := map_eq_nil_iff

@[simp] theorem code_subFrame (s : YamlStep) : (subFrame s).code = (s.id, none) := rfl

@[simp] theorem code_loopFrame (l : YamlLoop) (n : Nat) : (loopFrame l n).code = (l.id, some n) := rfl

theorem prefixOf_append : prefixOf (p ++ q) = prefixOf p ++ prefixOf q := by
  induction p with
  | nil => simp [prefixOf]
  | cons f p ih => obtain ⟨c, _ | _, d⟩ := f <;> simp [prefixOf, ih, String.append_assoc]

theorem suffixOf_append : suffixOf (p ++ q) = suffixOf p ++ suffixOf q := by
  induction p with
  | nil => simp [suffixOf]
  | cons f p ih => obtain ⟨c, _ | _, d⟩ := f <;> simp [suffixOf, ih, String.append_assoc]

variable (p : List Frame)

theorem prefixOf_sub (s : YamlStep) : prefixOf (p ++ [subFrame s]) = prefixOf p ++ s.id ++ "." := by
  simp [prefixOf_append, prefixOf, subFrame, String.append_assoc]

theorem suffixOf_sub (s : YamlStep) : suffixOf (p ++ [subFrame s]) = suffixOf p := by
  simp [suffixOf_append, suffixOf, subFrame]

theorem prefixOf_loop (l : YamlLoop) (n : Nat) : prefixOf (p ++ [loopFrame l n]) = prefixOf p := by
  simp [prefixOf_append, prefixOf, loopFrame]

theorem suffixOf_loop (l : YamlLoop) (n : Nat) : suffixOf (p ++ [loopFrame l n]) = suffixOf p ++ iterSuffix n := by
  simp [suffixOf_append, suffixOf, loopFrame]

theorem idAt_congr {p q : List Frame} (h : framesOf p = framesOf q) (id : String) : idAt p id = idAt q id := by
  have hboth : ∀ p q, framesOf p = framesOf q → prefixOf p = prefixOf q ∧ suffixOf p = suffixOf q := by
    intro p
    induction p with
    | nil =>
      intro q h
      rw [framesOf_nil, eq_comm, framesOf_eq_nil] at h
      simp [h]
    | cons f p ih =>
      intro q h
      cases q with
      | nil => simp at h
      | cons g q =>
        obtain ⟨hcode, hrest⟩ : f.code = g.code ∧ framesOf p = framesOf q := by simpa using h
        obtain ⟨hp, hs⟩ := ih q hrest
        obtain ⟨c, i, d⟩ := f
        obtain ⟨c', i', d'⟩ := g
        simp only [Frame.code, Prod.mk.injEq] at hcode
        obtain ⟨rfl, hi⟩ := hcode
        cases i <;> cases i' <;> simp_all [prefixOf, suffixOf]
  rw [idAt, idAt, (hboth p q h).1, (hboth p q h).2]

/-! ## Occurrences, one case for each kind of item -/

@[simp] theorem occs_nil : occs [] = [] := by rw [occs]

@[simp] theorem occs_raw (entry : PyVal) (items : List Item) : occs (.raw entry :: items) = occs items := by
  simp [occs, occsItem]

@[simp] theorem within_nil (o : Occ) : o.within [] = o := rfl

@[simp] theorem within_within (p q : List Frame) (o : Occ) : (o.within q).within p = o.within (p ++ q) := by
  simp [Occ.within]

@[simp] theorem within_path (o : Occ) : (o.within p).path = p ++ o.path := rfl

@[simp] theorem within_leaf (o : Occ) : (o.within p).leaf = o.leaf := rfl

def leafOf? : Item → Option Leaf
  | .step s _ => if isSubsequence s then none else some (.step s)
  | .loop l _ => if expands l then none else some (.deferred l)
  | .raw _ => none

theorem leafOf?_cases {item : Item} {leaf : Leaf} (h : leafOf? item = some leaf) :
    (∃ s steps, item = .step s steps ∧ isSubsequence s = false ∧ .step s = leaf) ∨
      ∃ l steps, item = .loop l steps ∧ expands l = false ∧ .deferred l = leaf := by
  cases item with
  | step s steps => cases hs : isSubsequence s <;> simp_all [leafOf?]
  | loop l steps => cases hl : expands l <;> simp_all [leafOf?]
  | raw entry => simp [leafOf?] at h

theorem pass_induction {motive : List Item → Prop} (nil : motive [])
    (raw : ∀ entry items, motive items → motive (.raw entry :: items))
    (leaf : ∀ item leaf items, leafOf? item = some leaf → motive items → motive (item :: items))
    (sub : ∀ s steps items, isSubsequence s = true → motive steps → motive items → motive (.step s steps :: items))
    (loop : ∀ l steps items, expands l = true → motive steps → motive items → motive (.loop l steps :: items))
    (items : List Item) : motive items := by
  induction items using Item.list_induction with
  | nil => exact nil
  | raw entry items ih => exact raw entry items ih
  | step s steps items ihs ih =>
    cases hs : isSubsequence s with
    | false => exact leaf _ (.step s) items (by simp [leafOf?, hs]) ih
    | true => exact sub s steps items hs ihs ih
  | loop l steps items ihs ih =>
    cases hl : expands l with
    | false => exact leaf _ (.deferred l) items (by simp [leafOf?, hl]) ih
    | true => exact loop l steps items hl ihs ih

section Cases

variable {items : List Item}

theorem occs_leaf {item : Item} {leaf : Leaf} (h : leafOf? item = some leaf) :
    occs (item :: items) = ⟨[], leaf⟩ :: occs items := by
  obtain ⟨_, _, rfl, hk, rfl⟩ | ⟨_, _, rfl, hk, rfl⟩ := leafOf?_cases h <;> simp [occs, occsItem, hk]

/-- A container, with one frame for each time that its steps are run. -/
inductive Unfolds : Item → Nat → (Nat → Frame) → List Item → Prop
  | sub {s : YamlStep} {steps : List Item} : isSubsequence s = true → Unfolds (.step s steps) 1 (fun _ => subFrame s) steps
  | loop {l : YamlLoop} {steps : List Item} :
    expands l = true → Unfolds (.loop l steps) (iterations l) (loopFrame l) steps

theorem unfold_induction {motive : List Item → Prop} (nil : motive [])
    (raw : ∀ entry items, motive items → motive (.raw entry :: items))
    (leaf : ∀ item leaf items, leafOf? item = some leaf → motive items → motive (item :: items))
    (container : ∀ item k frame steps items, Unfolds item k frame steps → motive steps → motive items →
      motive (item :: items)) (items : List Item) : motive items :=
  pass_induction nil raw leaf (fun _ _ _ hs => container _ _ _ _ _ (.sub hs))
    (fun _ _ _ hl => container _ _ _ _ _ (.loop hl)) items

variable {item : Item} {k : Nat} {frame : Nat → Frame} {steps : List Item} (h : Unfolds item k frame steps)

include h

theorem Unfolds.deps (n : Nat) : (frame n).deps = item.dependsOn := by
  cases h <;> rfl

theorem occs_unfolds :
    occs (item :: items) = ((List.range k).flatMap fun n => (occs steps).map (.within [frame n])) ++ occs items := by
  cases h <;> simp [occs, occsItem, *]

theorem scopes_unfolds :
    scopes (item :: items) = ([], item.dependsOn) ::
      ((List.range k).flatMap fun n => (scopes steps).map fun c => (frame n :: c.1, c.2)) ++ scopes items := by
  cases h <;> simp [scopes, scopesItem, Item.dependsOn, *]

end Cases

/-! ## Direct leaves and inner scopes -/

def directIds (items : List Item) : List String := (items.filterMap leafOf?).map Leaf.id

@[simp] theorem directIds_nil : directIds [] = [] := rfl

theorem directIds_cons (item : Item) (items : List Item) :
    directIds (item :: items) = ((leafOf? item).map Leaf.id).toList ++ directIds items := by
  unfold directIds
  cases h : leafOf? item <;> simp [h]

inductive Opens : Item → Frame → List Item → Prop
  | sub {s : YamlStep} {steps : List Item} : isSubsequence s = true → Opens (.step s steps) (subFrame s) steps
  | loop {l : YamlLoop} {steps : List Item} {n : Nat} :
    expands l = true → n < iterations l → Opens (.loop l steps) (loopFrame l n) steps

theorem Unfolds.opens {item : Item} {k : Nat} {frame : Nat → Frame} {steps : List Item}
    (h : Unfolds item k frame steps) {n : Nat} (hn : n < k) : Opens item (frame n) steps := by
  cases h with
  | sub hs => exact .sub hs
  | loop hl => exact .loop hl hn

variable (items : List Item)

theorem occs_eq_flatMap : occs items = items.flatMap occsItem := by
  induction items with
  | nil => rw [occs]; rfl
  | cons item items ih => rw [occs, ih, flatMap_cons]

theorem bodies_eq_flatMap : bodies items = items.flatMap bodiesItem := by
  induction items with
  | nil => rw [bodies]; rfl
  | cons item items ih => rw [bodies, ih, flatMap_cons]

theorem scopes_eq_flatMap : scopes items = items.flatMap scopesItem := by
  induction items with
  | nil => rw [scopes]; rfl
  | cons item items ih => rw [scopes, ih, flatMap_cons]

theorem ids_eq_flatMap : ids items = items.flatMap idsItem := by
  induction items with
  | nil => rw [ids]; rfl
  | cons item items ih => rw [ids, ih, flatMap_cons]

variable {items} {item : Item}

theorem occsItem_subset (hi : item ∈ items) : occsItem item ⊆ occs items := by
  rw [occs_eq_flatMap]
  exact fun o ho => mem_flatMap.mpr ⟨item, hi, ho⟩

theorem bodiesItem_subset (hi : item ∈ items) : bodiesItem item ⊆ bodies items := by
  rw [bodies_eq_flatMap]
  exact fun b hb => mem_flatMap.mpr ⟨item, hi, hb⟩

theorem mem_occsItem_iff {item : Item} {o : Occ} :
    o ∈ occsItem item ↔
      (leafOf? item = some o.leaf ∧ o.path = []) ∨
        ∃ f steps, Opens item f steps ∧ ∃ o' ∈ occs steps, o = o'.within [f] := by
  constructor
  · intro ho
    cases item with
    | step s steps =>
      rw [occsItem] at ho
      split at ho
      · obtain ⟨o', ho', rfl⟩ := mem_map.mp ho
        exact .inr ⟨_, steps, .sub ‹_›, o', ho', rfl⟩
      · rw [mem_singleton] at ho
        subst ho
        exact .inl ⟨by simp [leafOf?, *], rfl⟩
    | loop l steps =>
      rw [occsItem] at ho
      split at ho
      · obtain ⟨n, hn, ho⟩ := mem_flatMap.mp ho
        obtain ⟨o', ho', rfl⟩ := mem_map.mp ho
        exact .inr ⟨_, steps, .loop ‹_› (mem_range.mp hn), o', ho', rfl⟩
      · rw [mem_singleton] at ho
        subst ho
        exact .inl ⟨by simp [leafOf?, *], rfl⟩
    | raw entry => simp [occsItem] at ho
  · rintro (⟨hleaf, hp⟩ | ⟨f, steps, hopen, o', ho', rfl⟩)
    · obtain ⟨path, leaf⟩ := o
      subst hp
      obtain ⟨_, _, rfl, hk, rfl⟩ | ⟨_, _, rfl, hk, rfl⟩ := leafOf?_cases hleaf <;> simp [occsItem, hk]
    · cases hopen with
      | sub hs => simpa [occsItem, hs] using ⟨o', ho', rfl⟩
      | loop hl hn => simpa [occsItem, hl] using ⟨_, hn, o', ho', rfl⟩

theorem mem_bodiesItem_iff {item : Item} {b : List Frame × List Item} :
    b ∈ bodiesItem item ↔
      ∃ f steps, Opens item f steps ∧
        (b = ([f], steps) ∨ ∃ b' ∈ bodies steps, b = (f :: b'.1, b'.2)) := by
  constructor
  · intro hb
    cases item with
    | step s steps =>
      rw [bodiesItem] at hb
      split at hb
      · refine ⟨_, steps, .sub ‹_›, ?_⟩
        simpa [eq_comm] using hb
      · simp at hb
    | loop l steps =>
      rw [bodiesItem] at hb
      split at hb
      · obtain ⟨n, hn, hb⟩ := mem_flatMap.mp hb
        refine ⟨_, steps, .loop ‹_› (mem_range.mp hn), ?_⟩
        simpa [eq_comm] using hb
      · simp at hb
    | raw entry => simp [bodiesItem] at hb
  · rintro ⟨f, steps, hopen, hb⟩
    cases hopen with
    | sub hs => simpa [bodiesItem, hs, eq_comm] using hb
    | loop hl hn =>
      rw [bodiesItem, if_pos hl, mem_flatMap]
      exact ⟨_, mem_range.mpr hn, by simpa [eq_comm] using hb⟩

end AteStudio.Compiler
