import Mathlib

/-!
# Insertion-ordered dictionaries

A key occurs once. Setting a known key keeps its place, a new key goes to the end.
-/

namespace AteStudio

universe u v w

theorem find?_of_mem {α : Type u} {κ : Type v} [DecidableEq κ] {key : α → κ} {xs : List α}
    (hnodup : (xs.map key).Nodup) {x : α} (hx : x ∈ xs) : (xs.find? fun y => key y = key x) = some x := by
  cases hfind : xs.find? fun y => decide (key y = key x) with
  | none =>
    have := List.find?_eq_none.mp hfind x hx
    simp at this
  | some y =>
    have hkey : key y = key x := by simpa using List.find?_some hfind
    rw [List.inj_on_of_nodup_map hnodup (List.mem_of_find?_eq_some hfind) hx hkey]

structure Dict (κ : Type u) (ν : Type v) where
  entries : List (κ × ν)
  nodup : (entries.map Prod.fst).Nodup

namespace Dict

variable {κ : Type u} {ν : Type v} {ω : Type w}

def empty : Dict κ ν := ⟨[], List.nodup_nil⟩

instance : EmptyCollection (Dict κ ν) := ⟨empty⟩

instance : Inhabited (Dict κ ν) := ⟨empty⟩

instance [DecidableEq κ] [DecidableEq ν] : DecidableEq (Dict κ ν) := fun a b =>
  decidable_of_iff (a.entries = b.entries) (by cases a; cases b; simp)

def keys (d : Dict κ ν) : List κ := d.entries.map Prod.fst

def values (d : Dict κ ν) : List ν := d.entries.map Prod.snd

def mapVals (d : Dict κ ν) (f : κ → ν → ω) : Dict κ ω :=
  ⟨d.entries.map fun e => (e.1, f e.1 e.2), by
    rw [List.map_map]; exact d.nodup⟩

variable [DecidableEq κ] (d : Dict κ ν) (k : κ)

def get? : Option ν := d.entries.lookup k

def getD (default : ν) : ν := (d.get? k).getD default

def contains : Bool := (d.get? k).isSome

/-! ## Setting and erasing -/

def setEntries : List (κ × ν) → κ → ν → List (κ × ν)
  | [], k, v => [(k, v)]
  | e :: es, k, v => if e.1 = k then (k, v) :: es else e :: setEntries es k v

theorem setEntries_keys (es : List (κ × ν)) (k : κ) (v : ν) :
    (setEntries es k v).map Prod.fst =
      if k ∈ es.map Prod.fst then es.map Prod.fst else es.map Prod.fst ++ [k] := by
  induction es with
  | nil => simp [setEntries]
  | cons e es ih =>
    by_cases h : e.1 = k
    · simp [setEntries, h]
    · have hk : k ≠ e.1 := fun he => h he.symm
      simp only [setEntries, if_neg h, List.map_cons, ih, List.mem_cons, hk, false_or]
      split <;> simp

theorem setEntries_nodup (es : List (κ × ν)) (k : κ) (v : ν) (h : (es.map Prod.fst).Nodup) :
    ((setEntries es k v).map Prod.fst).Nodup := by
  rw [setEntries_keys]
  split
  · exact h
  · rename_i hk
    exact List.nodup_append.mpr ⟨h, List.nodup_singleton _, by
      intro a ha b hb; rw [List.mem_singleton] at hb; rintro rfl; exact hk (hb ▸ ha)⟩

def set (v : ν) : Dict κ ν :=
  ⟨setEntries d.entries k v, setEntries_nodup _ _ _ d.nodup⟩

theorem keys_set (v : ν) :
    (d.set k v).keys = if k ∈ d.keys then d.keys else d.keys ++ [k] := setEntries_keys d.entries k v

def setDefault (v : ν) : Dict κ ν :=
  if d.contains k then d else d.set k v

def erase : Dict κ ν :=
  ⟨d.entries.filter fun e => e.1 ≠ k, (List.filter_sublist.map _).nodup d.nodup⟩

def filter (p : κ → ν → Bool) : Dict κ ν :=
  ⟨d.entries.filter fun e => p e.1 e.2, (List.filter_sublist.map _).nodup d.nodup⟩

/-- A new value for a known key, nothing for an unknown one. -/
def update (f : ν → ν) : Dict κ ν :=
  match d.get? k with
  | some v => d.set k (f v)
  | none => d

theorem keys_erase : (d.erase k).keys = d.keys.erase k := by
  rw [keys, keys, d.nodup.erase_eq_filter, erase, List.filter_map]
  congr 1
  apply List.filter_congr
  intro e _
  simp [bne, beq_eq_decide]

/-- Entry after entry: a key that comes again keeps its place and gets the later value. -/
def ofList (es : List (κ × ν)) : Dict κ ν := es.foldl (fun d e => d.set e.1 e.2) ∅

variable {es : List (κ × ν)}

theorem setEntries_new {k : κ} (h : k ∉ es.map Prod.fst) (v : ν) : setEntries es k v = es ++ [(k, v)] := by
  induction es with
  | nil => rfl
  | cons e es ih =>
    rw [List.map_cons, List.mem_cons, not_or] at h
    obtain ⟨hne, hrest⟩ := h
    rw [setEntries, if_neg (Ne.symm hne), ih hrest, List.cons_append]

theorem ofList_entries (h : (es.map Prod.fst).Nodup) : (ofList es).entries = es := by
  -- Every entry is new when its turn comes.
  have hfold (d : Dict κ ν) (es : List (κ × ν)) (h : ((d.entries ++ es).map Prod.fst).Nodup) :
      (es.foldl (fun d e => d.set e.1 e.2) d).entries = d.entries ++ es := by
    induction es generalizing d with
    | nil => simp
    | cons e es ih =>
      have hnew : e.1 ∉ d.entries.map Prod.fst := by
        rw [List.map_append, List.map_cons] at h
        exact fun hmem => (List.nodup_append.mp h).2.2 _ hmem _ List.mem_cons_self rfl
      have hset : (d.set e.1 e.2).entries = d.entries ++ [e] := setEntries_new hnew e.2
      rw [List.foldl_cons, ih _ (by rwa [hset, List.append_assoc]), hset, List.append_assoc]
      rfl
  exact hfold ∅ es h

theorem ofList_self (d : Dict κ ν) : ofList d.entries = d := by
  cases d with
  | mk entries nodup => exact mk.injEq .. ▸ ofList_entries nodup

/-! ## What a lookup sees -/

@[simp] theorem get?_empty (k : κ) : (∅ : Dict κ ν).get? k = none := rfl

theorem lookup_cons_if (a k : κ) (b : ν) (es : List (κ × ν)) :
    ((a, b) :: es).lookup k = if k = a then some b else es.lookup k := by
  by_cases h : k = a
  · simp [h]
  · rw [List.lookup_cons, beq_eq_false_iff_ne.mpr h, if_neg h]

theorem lookup_setEntries (es : List (κ × ν)) (k k' : κ) (v : ν) :
    (setEntries es k v).lookup k' = if k' = k then some v else es.lookup k' := by
  induction es with
  | nil => simp [setEntries, lookup_cons_if]
  | cons e es ih =>
    obtain ⟨a, b⟩ := e
    by_cases ha : a = k
    · subst ha
      by_cases h : k' = a <;> simp [setEntries, lookup_cons_if, h]
    · simp only [setEntries, if_neg ha, lookup_cons_if, ih]
      by_cases h : k' = a
      · subst h; simp [ha]
      · simp [h]

section

include d

theorem get?_set (k k' : κ) (v : ν) : (d.set k v).get? k' = if k' = k then some v else d.get? k' :=
  lookup_setEntries d.entries k k' v

@[simp] theorem get?_set_self (k : κ) (v : ν) : (d.set k v).get? k = some v := by
  simp [get?_set]

theorem get?_set_of_ne {k k' : κ} (v : ν) (h : k' ≠ k) : (d.set k v).get? k' = d.get? k' := by
  simp [get?_set, h]

theorem get?_setDefault (k k' : κ) (v : ν) :
    (d.setDefault k v).get? k' = if k' = k then some ((d.get? k).getD v) else d.get? k' := by
  unfold setDefault contains
  cases h : d.get? k with
  | none => simp [get?_set]
  | some w =>
    by_cases hk : k' = k
    · simp [hk, h]
    · simp [hk]

theorem get?_mapVals (f : κ → ν → ω) (k : κ) : (d.mapVals f).get? k = (d.get? k).map (f k) := by
  obtain ⟨es, hes⟩ := d
  simp only [get?, mapVals]
  clear hes
  induction es with
  | nil => rfl
  | cons e es ih =>
    rw [List.map_cons, lookup_cons_if, ih, lookup_cons_if]
    by_cases h : k = e.1
    · simp [h]
    · simp [h]

theorem get?_eq_some_iff (k : κ) (v : ν) : d.get? k = some v ↔ (k, v) ∈ d.entries := by
  obtain ⟨es, hes⟩ := d
  simp only [get?]
  induction es with
  | nil => simp
  | cons e es ih =>
    obtain ⟨a, b⟩ := e
    simp only [List.map_cons, List.nodup_cons] at hes
    by_cases h : k = a
    · subst h
      have hn : (k, v) ∉ es := fun hm => hes.1 (List.mem_map.mpr ⟨_, hm, rfl⟩)
      simp [hn, eq_comm]
    · simp [lookup_cons_if, h, ih hes.2]

theorem get?_erase (k k' : κ) : (d.erase k).get? k' = if k' = k then none else d.get? k' := by
  ext v
  rw [get?_eq_some_iff]
  split
  · next h => simp [erase, h]
  · next h => simp [erase, h, get?_eq_some_iff]

theorem find?_entries {α : Type w} (toKey : κ → α) (key? : α → Option κ) (h : ∀ k, key? (toKey k) = some k) (k : κ) :
    ((d.entries.map fun e => (toKey e.1, e.2)).find? fun e => key? e.1 == some k).map Prod.snd = d.get? k := by
  unfold get?
  induction d.entries with
  | nil => rfl
  | cons e es ih =>
    by_cases hk : k = e.1
    · rw [List.map_cons, List.find?_cons_of_pos (by simp [h, hk]), lookup_cons_if, if_pos hk]
      rfl
    · rw [List.map_cons, List.find?_cons_of_neg (by simpa [h] using Ne.symm hk), lookup_cons_if, if_neg hk, ih]

end

theorem mem_of_mem_ofList {e : κ × ν} (h : e ∈ (ofList es).entries) : e ∈ es := by
  obtain ⟨k, v⟩ := e
  have hfold (d : Dict κ ν) (es : List (κ × ν)) (h : (es.foldl (fun d e => d.set e.1 e.2) d).get? k = some v) :
      d.get? k = some v ∨ (k, v) ∈ es := by
    induction es generalizing d with
    | nil => exact .inl h
    | cons e es ih =>
      rcases ih _ h with hset | hmem
      · rw [get?_set] at hset
        split at hset
        · next heq =>
          cases hset
          exact .inr (heq ▸ List.mem_cons_self)
        · exact .inl hset
      · exact .inr (List.mem_cons_of_mem _ hmem)
  rcases hfold ∅ es ((get?_eq_some_iff _ _ _).mpr h) with hempty | hmem
  · cases hempty
  · exact hmem

theorem mem_keys_iff (k : κ) : k ∈ d.keys ↔ ∃ v, d.get? k = some v := by
  simp only [keys, List.mem_map, get?_eq_some_iff]
  constructor
  · rintro ⟨⟨a, b⟩, h, rfl⟩; exact ⟨b, h⟩
  · rintro ⟨v, h⟩; exact ⟨(k, v), h, rfl⟩

theorem mem_values {d : Dict κ ν} {v : ν} : v ∈ d.values ↔ ∃ k, d.get? k = some v := by
  simp only [values, List.mem_map, get?_eq_some_iff]
  constructor
  · rintro ⟨⟨k, _⟩, hmem, rfl⟩
    exact ⟨k, hmem⟩
  · rintro ⟨k, hmem⟩
    exact ⟨(k, v), hmem, rfl⟩

theorem get?_eq_none_iff (k : κ) : d.get? k = none ↔ k ∉ d.keys := by
  rw [mem_keys_iff, Option.eq_none_iff_forall_ne_some]
  push Not
  rfl

theorem get?_filter (p : κ → ν → Bool) (k : κ) : (d.filter p).get? k = (d.get? k).filter (p k) := by
  ext v
  rw [get?_eq_some_iff, Option.filter_eq_some_iff, get?_eq_some_iff]
  simp [filter]

theorem get?_update (k k' : κ) (f : ν → ν) :
    (d.update k f).get? k' = if k' = k then (d.get? k).map f else d.get? k' := by
  unfold update
  split
  · next v hv => rw [get?_set, hv, Option.map_some]
  · next hnone =>
    split
    · next heq => rw [heq, hnone, Option.map_none]
    · rfl

theorem keys_set_of_get? {d : Dict κ ν} {k : κ} {v : ν} (h : d.get? k = some v) (v' : ν) :
    (d.set k v').keys = d.keys := by
  rw [keys_set, if_pos ((mem_keys_iff d k).mpr ⟨v, h⟩)]

end Dict

end AteStudio
