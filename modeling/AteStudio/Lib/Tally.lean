import AteStudio.Lib.Dict

/-!
# Loops that write one key at a time

What such a loop leaves under a key is made by the items of that key alone, in their order.
-/

namespace AteStudio.Dict

universe u v w

variable {α : Type w} {κ : Type u} {ν : Type v} [DecidableEq κ]

def alter (d : Dict κ ν) (k : κ) (f : Option ν → ν) : Dict κ ν :=
  d.set k (f (d.get? k))

theorem get?_alter (d : Dict κ ν) (k k' : κ) (f : Option ν → ν) :
    (d.alter k f).get? k' = if k' = k then some (f (d.get? k)) else d.get? k' :=
  get?_set ..

theorem get?_foldl_alter (key : α → κ) (f : α → Option ν → ν) (items : List α) (d : Dict κ ν) (k : κ) :
    (items.foldl (fun d a => d.alter (key a) (f a)) d).get? k =
      (items.filter (key · = k)).foldl (fun v a => some (f a v)) (d.get? k) := by
  induction items generalizing d with
  | nil => rfl
  | cons a items ih =>
    rw [List.foldl_cons, ih, get?_alter]
    by_cases h : key a = k
    · rw [if_pos h.symm, h, List.filter_cons_of_pos (by simpa using h), List.foldl_cons]
    · rw [if_neg (Ne.symm h), List.filter_cons_of_neg (by simpa using h)]

omit [DecidableEq κ] in
open List in
/-- Where every item has a key of its own, what a loop leaves under a key is made by one item. -/
theorem foldl_distinct {σ ρ : Type*} (read : σ → κ → ρ) {key : α → κ} {step : σ → α → σ} {value : α → ρ} {blank : ρ}
    (hself : ∀ s a, read s (key a) = blank → read (step s a) (key a) = value a)
    (hother : ∀ s a k, k ≠ key a → read (step s a) k = read s k) {items : List α} (hkeys : (items.map key).Nodup)
    {a : α} (ha : a ∈ items) {s : σ} (hs : read s (key a) = blank) : read (items.foldl step s) (key a) = value a := by
  have hlater (items : List α) (s : σ) (k : κ) (hk : k ∉ items.map key) : read (items.foldl step s) k = read s k := by
    induction items generalizing s with
    | nil => rfl
    | cons b items ih =>
      rw [map_cons, mem_cons, not_or] at hk
      rw [foldl_cons, ih _ hk.2, hother _ _ _ hk.1]
  induction items generalizing s with
  | nil => cases ha
  | cons b items ih =>
    rw [map_cons, nodup_cons] at hkeys
    rw [foldl_cons]
    rcases mem_cons.mp ha with rfl | ha
    · rw [hlater _ _ _ hkeys.1, hself _ _ hs]
    · refine ih hkeys.2 ha ?_
      rw [hother _ _ _ fun heq => hkeys.1 (heq ▸ mem_map_of_mem ha), hs]

end AteStudio.Dict
