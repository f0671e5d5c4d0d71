import AteStudio.Frontend.Code
import AteStudio.Lib.Tally

/-!
# Sorting keeps the steps

No step is lost or doubled, and a step without preconditions comes first.
-/

namespace AteStudio.Frontend

open List

structure Settled (ids : List String) (degree : String → Int) (xs : List String) : Prop where
  nodup : xs.Nodup
  inside : ∀ x ∈ xs, x ∈ ids ∧ degree x ≤ 0

theorem Settled.relax {ids ys done queue : List String} {degree : String → Int} (hys : ∀ y ∈ ys, y ∈ ids)
    (h : Settled ids degree (done ++ queue)) :
    Settled ids (ys.foldl Kahn.relax (degree, queue)).1 (done ++ (ys.foldl Kahn.relax (degree, queue)).2) := by
  obtain ⟨hnodup, hinside⟩ := Kahn.foldl_relax_taken hys h.nodup h.inside
  exact ⟨hnodup, hinside⟩

section Sorting

variable {α : Type} {id : α → String} (preconditions : α → List String) {steps : List α}

theorem drain_settled {fuel : Nat} {degree : String → Int} {queue done : List String}
    (h : Settled (steps.map id) degree (done ++ queue)) :
    (drain id preconditions steps fuel degree queue done).Nodup ∧
      ∀ x ∈ drain id preconditions steps fuel degree queue done, x ∈ steps.map id := by
  induction fuel generalizing degree queue done with
  | zero =>
    rw [drain]
    exact ⟨(nodup_append.mp h.nodup).1, fun x hx => (h.inside x (mem_append_left _ hx)).1⟩
  | succ fuel ih =>
    cases queue with
    | nil =>
      rw [drain]
      exact ⟨(nodup_append.mp h.nodup).1, fun x hx => (h.inside x (mem_append_left _ hx)).1⟩
    | cons current queue =>
      rw [drain]
      refine ih (Settled.relax (fun y hy => ?_) (by rwa [append_assoc]))
      obtain ⟨s, hs, rfl⟩ := mem_map.mp hy
      exact mem_map_of_mem (mem_filter.mp hs).1

theorem drain_eq_append (id : α → String) (steps : List α) (fuel : Nat) (degree : String → Int)
    (queue done : List String) : ∃ more, drain id preconditions steps fuel degree queue done = done ++ more := by
  induction fuel generalizing degree queue done with
  | zero => exact ⟨[], by rw [drain, append_nil]⟩
  | succ fuel ih =>
    cases queue with
    | nil => exact ⟨[], by rw [drain, append_nil]⟩
    | cons current queue =>
      rw [drain]
      obtain ⟨more, hmore⟩ := ih _ _ (done ++ [current])
      exact ⟨current :: more, hmore.trans (by rw [append_assoc, singleton_append])⟩

variable {s : α}

section

variable (hnodup : (steps.map id).Nodup)

include hnodup

theorem inDegrees_eq (hs : s ∈ steps) : inDegrees id preconditions steps (id s) = (preconditions s).length := by
  let count (degree : String → Int) (s : α) := Function.update degree (id s) ((preconditions s).length : Int)
  have hself (degree : String → Int) (s : α) (_ : degree (id s) = 0) : count degree s (id s) = (preconditions s).length :=
    Function.update_self ..
  have hother (degree : String → Int) (s : α) (i : String) (hi : i ≠ id s) : count degree s i = degree i :=
    Function.update_of_ne hi ..
  exact Dict.foldl_distinct (fun degree : String → Int => degree) hself hother hnodup hs rfl

theorem settled_start :
    Settled (steps.map id) (inDegrees id preconditions steps)
      ([] ++ (steps.map id).filter fun i => inDegrees id preconditions steps i = 0) := by
  refine ⟨hnodup.filter _, fun x hx => ?_⟩
  obtain ⟨hx, hzero⟩ := mem_filter.mp hx
  exact ⟨hx, (of_decide_eq_true hzero).le⟩

theorem find?_reverse (hs : s ∈ steps) : (steps.reverse.find? fun t => id t = id s) = some s :=
  find?_of_mem (by rw [map_reverse]; exact nodup_reverse.mpr hnodup) (mem_reverse.mpr hs)

theorem map_id_filterMap_find? {ids : List String} (hids : ∀ i ∈ ids, i ∈ steps.map id) :
    (ids.filterMap fun i => steps.reverse.find? fun t => id t = i).map id = ids := by
  induction ids with
  | nil => rfl
  | cons i ids ih =>
    rw [forall_mem_cons] at hids
    obtain ⟨s, hs, rfl⟩ := mem_map.mp hids.1
    rw [filterMap_cons, find?_reverse hnodup hs, map_cons, ih hids.2]

end

theorem mem_of_mem_appendMissing {result missing : List α} (h : s ∈ appendMissing id result missing) :
    s ∈ result ∨ s ∈ missing := by
  unfold appendMissing at h
  induction missing generalizing result with
  | nil => exact .inl h
  | cons x missing ih =>
    rw [foldl_cons] at h
    rcases ih h with h | h
    · split at h
      · exact .inl h
      · rcases mem_append.mp h with h | h
        · exact .inl h
        · exact .inr (mem_singleton.mp h ▸ mem_cons_self)
    · exact .inr (mem_cons_of_mem _ h)

theorem appendMissing_spec (result missing : List α) (hresult : (result.map id).Nodup) :
    ((appendMissing id result missing).map id).Nodup ∧ result <+: appendMissing id result missing ∧
      ∀ s ∈ missing, id s ∈ (appendMissing id result missing).map id := by
  induction missing generalizing result with
  | nil => exact ⟨hresult, prefix_refl _, by simp⟩
  | cons x missing ih =>
    unfold appendMissing at ih ⊢
    rw [foldl_cons, forall_mem_cons]
    split
    · next hany =>
      obtain ⟨hnd, hpre, hall⟩ := ih result hresult
      obtain ⟨r, hr, hid⟩ := any_eq_true.mp hany
      exact ⟨hnd, hpre, mem_map.mpr ⟨r, hpre.subset hr, of_decide_eq_true hid⟩, hall⟩
    · next hany =>
      have hnew : ((result ++ [x]).map id).Nodup := by
        rw [map_append, map_singleton, nodup_append]
        refine ⟨hresult, nodup_singleton _, ?_⟩
        rintro i hi _ hx rfl
        obtain ⟨r, hr, rfl⟩ := mem_map.mp hi
        exact hany (any_eq_true.mpr ⟨r, hr, decide_eq_true (mem_singleton.mp hx)⟩)
      obtain ⟨hnd, hpre, hall⟩ := ih (result ++ [x]) hnew
      exact ⟨hnd, (prefix_append _ _).trans hpre, mem_map_of_mem (hpre.subset (by simp)), hall⟩

theorem sortBy_eq (hnodup : (steps.map id).Nodup) : ∃ result : List α, (result.map id).Nodup ∧ result ⊆ steps ∧
    result.map id = drain id preconditions steps steps.length (inDegrees id preconditions steps)
      ((steps.map id).filter fun i => inDegrees id preconditions steps i = 0) [] ∧
    sortBy id preconditions steps = if result.length < steps.length then appendMissing id result steps else result := by
  obtain ⟨hdone, hinside⟩ := @drain_settled _ _ preconditions _ steps.length _ _ _ (settled_start preconditions hnodup)
  have hids := map_id_filterMap_find? hnodup hinside
  refine ⟨_, by rw [hids]; exact hdone, fun s hs => ?_, hids, rfl⟩
  obtain ⟨i, -, hfind⟩ := mem_filterMap.mp hs
  exact mem_reverse.mp (mem_of_find?_eq_some hfind)

theorem sortBy_perm (hnodup : (steps.map id).Nodup) : (sortBy id preconditions steps).Perm steps := by
  obtain ⟨result, hresult, hsub, -, hsort⟩ := sortBy_eq preconditions hnodup
  rw [hsort]
  split
  · obtain ⟨hnd, -, hall⟩ := appendMissing_spec result steps hresult
    have hmem (s : α) (hs : s ∈ appendMissing id result steps) : s ∈ steps :=
      (mem_of_mem_appendMissing hs).elim (fun h => hsub h) fun h => h
    refine (perm_ext_iff_of_nodup hnd.of_map hnodup.of_map).mpr fun s => ⟨fun hs => ?_, fun hs => ?_⟩
    · exact hmem s hs
    · obtain ⟨t, ht, hid⟩ := mem_map.mp (hall s hs)
      rwa [← inj_on_of_nodup_map hnodup (hmem t ht) hs hid]
  · next hlength =>
    exact (hresult.of_map.subperm hsub).perm_of_length_le (Nat.le_of_not_lt hlength)

theorem mem_of_mem_sortBy (h : s ∈ sortBy id preconditions steps) : s ∈ steps := by
  unfold sortBy at h
  dsimp only at h
  have hresult (ids : List String) (h : s ∈ ids.filterMap fun i => steps.reverse.find? fun s => decide (id s = i)) :
      s ∈ steps := by
    obtain ⟨i, -, hfind⟩ := mem_filterMap.mp h
    exact mem_reverse.mp (mem_of_find?_eq_some hfind)
  split at h
  · exact (mem_of_mem_appendMissing h).elim (hresult _) fun h => h
  · exact hresult _ h

theorem sortBy_head (hnodup : (steps.map id).Nodup) (hs : s ∈ steps) (hfree : preconditions s = []) :
    ∃ first rest, sortBy id preconditions steps = first :: rest ∧ preconditions first = [] := by
  obtain ⟨result, hresult, hsub, hids, hsort⟩ := sortBy_eq preconditions hnodup
  have hqueue : id s ∈ (steps.map id).filter fun i => inDegrees id preconditions steps i = 0 := by
    refine mem_filter.mpr ⟨mem_map_of_mem hs, decide_eq_true ?_⟩
    rw [inDegrees_eq preconditions hnodup hs, hfree]
    rfl
  obtain ⟨fuel, hfuel⟩ := Nat.exists_eq_add_one.mpr (length_pos_of_mem hs)
  cases hstart : (steps.map id).filter fun i => decide (inDegrees id preconditions steps i = 0) with
  | nil =>
    rw [hstart] at hqueue
    cases hqueue
  | cons i queue =>
    rw [hfuel, hstart, drain] at hids
    obtain ⟨more, hmore⟩ := drain_eq_append preconditions id steps fuel _ _ ([] ++ [i])
    have hids := hids.trans hmore
    obtain ⟨first, rest, rfl⟩ : ∃ first rest, result = first :: rest := by
      cases result with
      | nil => cases hids
      | cons first rest => exact ⟨first, rest, rfl⟩
    have hfirst : id first = i := (List.cons.inj hids).1
    have hzero : i ∈ (steps.map id).filter fun i => decide (inDegrees id preconditions steps i = 0) := by
      rw [hstart]
      exact mem_cons_self
    have hfree : preconditions first = [] := by
      have hdegree := of_decide_eq_true (mem_filter.mp hzero).2
      rw [← hfirst, inDegrees_eq preconditions hnodup (hsub mem_cons_self)] at hdegree
      exact length_eq_zero_iff.mp (by exact_mod_cast hdegree)
    rw [hsort]
    split
    · obtain ⟨tail, htail⟩ := (appendMissing_spec (first :: rest) steps hresult).2.1
      exact ⟨first, rest ++ tail, htail.symm, hfree⟩
    · exact ⟨first, rest, rfl, hfree⟩

end Sorting

end AteStudio.Frontend
