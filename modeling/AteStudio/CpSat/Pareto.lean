import Mathlib

/-! # The Pareto filter (`CPSATScheduler._filter_pareto`) -/

namespace AteStudio.CpSat

open List

variable {σ : Type}

structure Solution (σ : Type) where
  schedule : σ
  makespan : ℚ
  utilization : ℚ
  energy : ℚ

def dominates (sj si : Solution σ) : Bool :=
  let msBetter := sj.makespan ≤ si.makespan
  let utilBetter := sj.utilization ≥ si.utilization
  let energyBetter := sj.energy ≤ si.energy
  let strictlyBetter := sj.makespan < si.makespan ∨ sj.utilization > si.utilization ∨ sj.energy < si.energy
  msBetter ∧ utilBetter ∧ energyBetter ∧ strictlyBetter

/-- The loop over `j`: a solution that is marked already is not compared. -/
def mark {n : Nat} (solutions : Fin n → Solution σ) (dominated : Fin n → Bool) (i : Fin n) : Fin n → Bool :=
  if (List.finRange n).any fun j => i ≠ j ∧ !dominated j ∧ dominates (solutions j) (solutions i) then
    Function.update dominated i true
  else dominated

def filterPareto (solutions : List (Solution σ)) : List (Solution σ) :=
  let dominated := (List.finRange solutions.length).foldl (mark solutions.get) fun _ => false
  ((List.finRange solutions.length).filter fun i => !dominated i).map solutions.get

theorem dominates_irrefl (s : Solution σ) : ¬ dominates s s := by
  simp [dominates]

theorem dominates_trans {a b c : Solution σ} (hab : dominates a b) (hbc : dominates b c) : dominates a c := by
  simp only [dominates, decide_eq_true_eq] at hab hbc ⊢
  obtain ⟨hms, hutil, henergy, hstrict⟩ := hab
  obtain ⟨hms', hutil', henergy', -⟩ := hbc
  refine ⟨hms.trans hms', hutil'.trans hutil, henergy.trans henergy', ?_⟩
  rcases hstrict with h | h | h
  · exact .inl (h.trans_le hms')
  · exact .inr (.inl (hutil'.trans_lt h))
  · exact .inr (.inr (h.trans_le henergy'))

section Marking

variable {n : Nat} {solutions : Fin n → Solution σ} {dominated : Fin n → Bool} {i : Fin n}

/-- What dominates `i` has a first one, that nothing dominates. -/
theorem exists_undominated {j : Fin n} (h : dominates (solutions j) (solutions i)) :
    ∃ j, dominates (solutions j) (solutions i) ∧ ∀ k, ¬ dominates (solutions k) (solutions j) := by
  let r (j i : Fin n) : Prop := dominates (solutions j) (solutions i)
  have : IsTrans (Fin n) r := ⟨fun _ _ _ => dominates_trans⟩
  have : Std.Irrefl r := ⟨fun i => dominates_irrefl (solutions i)⟩
  obtain ⟨m, hm, hmin⟩ := (Finite.wellFounded_of_trans_of_irrefl r).has_min {j | r j i} ⟨j, h⟩
  exact ⟨m, hm, fun k hk => hmin k (dominates_trans hk hm) hk⟩

theorem mark_iff (hs : ∀ k, dominated k → ∃ j, dominates (solutions j) (solutions k)) {k : Fin n} :
    mark solutions dominated i k ↔ dominated k ∨ k = i ∧ ∃ j, dominates (solutions j) (solutions k) := by
  unfold mark
  split
  · rename_i hany
    obtain ⟨j, -, hj⟩ := any_eq_true.mp hany
    simp only [decide_eq_true_eq] at hj
    by_cases hk : k = i
    · subst hk
      simpa using .inr ⟨j, hj.2.2⟩
    · simp [hk]
  · rename_i hany
    refine ⟨.inl, fun h => h.elim id ?_⟩
    rintro ⟨rfl, j, hj⟩
    refine absurd ?_ hany
    -- The first that dominates `k` is dominated by none, so it is not marked.
    obtain ⟨m, hm, hfirst⟩ := exists_undominated hj
    have hne : k ≠ m := by
      rintro rfl
      exact dominates_irrefl _ hm
    have hunmarked : dominated m = false := Bool.eq_false_iff.mpr fun h => not_exists.mpr hfirst (hs m h)
    exact any_eq_true.mpr ⟨m, mem_finRange m, by simp [hne, hunmarked, hm]⟩

theorem foldl_mark_iff (is : List (Fin n)) (k : Fin n) :
    is.foldl (mark solutions) (fun _ => false) k ↔ k ∈ is ∧ ∃ j, dominates (solutions j) (solutions k) := by
  induction is using reverseRecOn generalizing k with
  | nil => simp
  | append_singleton is i ih =>
    rw [foldl_concat, mark_iff fun k hk => ((ih k).mp hk).2, ih]
    simp [or_and_right]

end Marking

theorem filterPareto_eq (solutions : List (Solution σ)) :
    filterPareto solutions = solutions.filter fun s => ∀ t ∈ solutions, ¬ dominates t s := by
  have hflag : ∀ i : Fin solutions.length,
      (!(finRange solutions.length).foldl (mark solutions.get) (fun _ => false) i) =
        decide (∀ t ∈ solutions, ¬ dominates t (solutions.get i)) := by
    intro i
    rw [Bool.eq_iff_iff, Bool.not_eq_true', Bool.eq_false_iff, Ne, foldl_mark_iff, decide_eq_true_eq,
      forall_mem_iff_get]
    simp
  unfold filterPareto
  simp only [hflag]
  refine Eq.trans ?_ (congrArg (filter _) (map_get_finRange solutions))
  rw [filter_map]
  rfl

theorem filterPareto_exact (solutions : List (Solution σ)) :
    filterPareto solutions = solutions.filter (fun s => ∀ t ∈ solutions, ¬ dominates t s) ∧
    (solutions ≠ [] → filterPareto solutions ≠ []) ∧
    filterPareto (filterPareto solutions) = filterPareto solutions := by
  refine ⟨filterPareto_eq solutions, fun hne => ?_, ?_⟩
  · have hpos : 0 < solutions.length := length_pos_of_ne_nil hne
    obtain ⟨s, hs, hfirst⟩ : ∃ s ∈ solutions, ∀ t ∈ solutions, ¬ dominates t s := by
      by_cases h : ∃ j, dominates (solutions.get j) (solutions.get ⟨0, hpos⟩)
      · obtain ⟨j, hj⟩ := h
        obtain ⟨m, -, hm⟩ := exists_undominated hj
        exact ⟨_, solutions.get_mem m, forall_mem_iff_get.mpr hm⟩
      · exact ⟨_, solutions.get_mem _, forall_mem_iff_get.mpr (not_exists.mp h)⟩
    rw [filterPareto_eq]
    exact ne_nil_of_mem (mem_filter.mpr ⟨hs, by simpa using hfirst⟩)
  · rw [filterPareto_eq (filterPareto solutions), filterPareto_eq solutions]
    refine filter_eq_self.mpr fun s hs => ?_
    have hfirst := (mem_filter.mp hs).2
    simp only [decide_eq_true_eq] at hfirst ⊢
    exact fun t ht => hfirst t (mem_of_mem_filter ht)

end AteStudio.CpSat
