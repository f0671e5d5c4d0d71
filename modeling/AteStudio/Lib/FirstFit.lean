import Mathlib

/-!
# First fit

A group takes the elements that do not clash with it, and the next group is made from those that are left. An element
comes into the first group where nothing before it clashes with it.
-/

namespace AteStudio.FirstFit

universe u

open List

variable {α : Type u} (clash : α → List α → Bool)

/-- The group takes what fits, and the others are left. -/
def sweep (g : List α) : List α → List α × List α
  | [] => (g, [])
  | x :: l =>
    if clash x g then ((sweep g l).1, x :: (sweep g l).2) else sweep (g ++ [x]) l

theorem length_sweep (g l : List α) : (sweep clash g l).2.length ≤ l.length := by
  induction l generalizing g with
  | nil => simp [sweep]
  | cons x l ih =>
    rw [sweep]
    split
    · simpa using ih g
    · exact Nat.le_succ_of_le (ih _)

def byGroup : List α → List (List α)
  | [] => []
  | x :: l => (sweep clash [x] l).1 :: byGroup (sweep clash [x] l).2
termination_by l => l.length
decreasing_by exact Nat.lt_succ_of_le (length_sweep clash [x] l)

/-! ## Levels -/

def column (ls : List (α × ℕ)) (n : ℕ) : List α := (ls.filter (·.2 = n)).map Prod.fst

/-- Each element after `before` has the first level at which nothing before it clashes with it. -/
def Levelled : List (α × ℕ) → List (α × ℕ) → Prop
  | _, [] => True
  | before, p :: rest =>
    (clash p.1 (column before p.2) = false ∧ ∀ m < p.2, clash p.1 (column before m) = true) ∧
      Levelled (before ++ [p]) rest

variable {clash} {ls : List (α × ℕ)}

theorem sweep_columns {before rest : List (α × ℕ)} (h : Levelled clash before rest) (k : ℕ) :
    sweep clash (column before k) ((rest.filter (k ≤ ·.2)).map Prod.fst) =
      (column (before ++ rest) k, (rest.filter (k < ·.2)).map Prod.fst) := by
  induction rest generalizing before with
  | nil => simp [sweep]
  | cons p rest ih =>
    obtain ⟨⟨hfits, hbelow⟩, hrest⟩ := h
    have hnext := ih hrest
    have hcolumn : column (before ++ [p]) k = column before k ++ if p.2 = k then [p.1] else [] := by
      by_cases hk : p.2 = k <;> simp [column, hk]
    rw [hcolumn, append_assoc, singleton_append] at hnext
    rcases lt_trichotomy p.2 k with hlt | rfl | hgt
    · simpa [hlt.not_ge, hlt.ne, hlt.not_gt] using hnext
    · simpa [sweep, hfits] using hnext
    · rw [if_neg hgt.ne', append_nil] at hnext
      simp [sweep, hbelow k hgt, hgt, hgt.le, hnext]

variable (hnil : ∀ x, clash x [] = false)

include hnil

theorem exists_levelled (before : List (α × ℕ)) (l : List α) : ∃ ls, ls.map Prod.fst = l ∧ Levelled clash before ls := by
  induction l generalizing before with
  | nil => exact ⟨[], rfl, trivial⟩
  | cons x l ih =>
    have hfree : ∃ n, clash x (column before n) = false := by
      obtain ⟨n, hn⟩ := Infinite.exists_notMem_finset (before.map Prod.snd).toFinset
      have hempty : column before n = [] := by
        simp only [column, map_eq_nil_iff, filter_eq_nil_iff, decide_eq_true_eq]
        exact fun p hp hpn => hn (mem_toFinset.mpr (mem_map.mpr ⟨p, hp, hpn⟩))
      exact ⟨n, hempty ▸ hnil x⟩
    obtain ⟨ls, rfl, hls⟩ := ih (before ++ [(x, Nat.find hfree)])
    exact ⟨_ :: ls, rfl, ⟨Nat.find_spec hfree, fun m hm => by simpa using Nat.find_min hfree hm⟩, hls⟩

/-- The groups of the levels from `k` on. -/
theorem byGroup_from (h : Levelled clash [] ls) (k : ℕ) :
    byGroup clash ((ls.filter (k ≤ ·.2)).map Prod.fst) = [] ∧ (∀ n, column ls (k + n) = []) ∨
      byGroup clash ((ls.filter (k ≤ ·.2)).map Prod.fst) =
        column ls k :: byGroup clash ((ls.filter (k + 1 ≤ ·.2)).map Prod.fst) := by
  have hsweep : sweep clash [] _ = _ := sweep_columns h k
  cases hl : (ls.filter (k ≤ ·.2)).map Prod.fst with
  | nil =>
    refine .inl ⟨by rw [byGroup], fun n => ?_⟩
    simp only [column, map_eq_nil_iff, filter_eq_nil_iff, decide_eq_true_eq] at hl ⊢
    exact fun p hp hpn => hl p hp (by omega)
  | cons x l =>
    rw [hl, sweep, if_neg (by simp [hnil]), nil_append] at hsweep
    exact .inr (by rw [byGroup, hsweep]; rfl)

theorem getD_byGroup (h : Levelled clash [] ls) (k n : ℕ) :
    (byGroup clash ((ls.filter (k ≤ ·.2)).map Prod.fst)).getD n [] = column ls (k + n) := by
  induction n generalizing k with
  | zero =>
    rcases byGroup_from hnil h k with ⟨hempty, hnone⟩ | hcons
    · rw [hempty, hnone, getD_nil]
    · rw [hcons, getD_cons_zero, Nat.add_zero]
  | succ n ih =>
    rcases byGroup_from hnil h k with ⟨hempty, hnone⟩ | hcons
    · rw [hempty, hnone, getD_nil]
    · rw [hcons, getD_cons_succ, ih, Nat.add_right_comm, Nat.add_assoc]

/-- The groups are the levels. -/
theorem exists_byGroup_iff (h : Levelled clash [] ls) {P : List α → Prop} (hP : ¬ P []) :
    (∃ g ∈ byGroup clash (ls.map Prod.fst), P g) ↔ ∃ n, P (column ls n) := by
  have hcolumns (n : ℕ) : (byGroup clash (ls.map Prod.fst)).getD n [] = column ls n := by
    simpa using getD_byGroup hnil h 0 n
  constructor
  · rintro ⟨g, hg, hPg⟩
    obtain ⟨n, hn, rfl⟩ := mem_iff_getElem.mp hg
    exact ⟨n, by rwa [← hcolumns, getD_eq_getElem _ _ hn]⟩
  · rintro ⟨n, hPn⟩
    rw [← hcolumns] at hPn
    by_cases hn : n < (byGroup clash (ls.map Prod.fst)).length
    · exact ⟨_, getElem_mem hn, getD_eq_getElem _ [] hn ▸ hPn⟩
    · rw [getD_eq_default _ _ (not_lt.mp hn)] at hPn
      exact absurd hPn hP

end AteStudio.FirstFit
