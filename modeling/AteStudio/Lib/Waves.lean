import AteStudio.Lib.Kahn

/-!
# Running items in waves

Each wave runs every item whose dependencies are completed. What is left at the end waits for
something that never completes.
-/

namespace AteStudio.Waves

open List

/-! ## Before -/

section Before

variable {α β : Type*}

def Before (l : List α) (a b : α) : Prop := ∃ l₁ l₂, l = l₁ ++ l₂ ∧ a ∈ l₁ ∧ b ∈ l₂

variable {l : List α} {a b : α}

theorem Before.append_left (h : Before l a b) (x : List α) : Before (x ++ l) a b := by
  obtain ⟨l₁, l₂, rfl, ha, hb⟩ := h
  exact ⟨x ++ l₁, l₂, by rw [append_assoc], mem_append_right _ ha, hb⟩

theorem Before.append_right (h : Before l a b) (x : List α) : Before (l ++ x) a b := by
  obtain ⟨l₁, l₂, rfl, ha, hb⟩ := h
  exact ⟨l₁, l₂ ++ x, by rw [append_assoc], ha, mem_append_left _ hb⟩

theorem Before.map (h : Before l a b) (f : α → β) : Before (l.map f) (f a) (f b) := by
  obtain ⟨l₁, l₂, rfl, ha, hb⟩ := h
  exact ⟨l₁.map f, l₂.map f, map_append, mem_map_of_mem ha, mem_map_of_mem hb⟩

theorem Before.flatMap {x : α} (hx : x ∈ l) {f : α → List β} {a b : β} (h : Before (f x) a b) :
    Before (l.flatMap f) a b := by
  obtain ⟨l₁, l₂, rfl⟩ := append_of_mem hx
  rw [flatMap_append, flatMap_cons]
  exact (h.append_right _).append_left _

theorem Before.flatMap_of {x y : α} (h : Before l x y) {f : α → List β} {a b : β} (ha : a ∈ f x)
    (hb : b ∈ f y) : Before (l.flatMap f) a b := by
  obtain ⟨l₁, l₂, rfl, hx, hy⟩ := h
  exact ⟨l₁.flatMap f, l₂.flatMap f, flatMap_append, mem_flatMap.mpr ⟨x, hx, ha⟩, mem_flatMap.mpr ⟨y, hy, hb⟩⟩

theorem Before.idxOf_lt [DecidableEq α] (hl : l.Nodup) (h : Before l a b) : l.idxOf a < l.idxOf b := by
  obtain ⟨l₁, l₂, rfl, ha, hb⟩ := h
  exact Kahn.idxOf_lt_of_nodup hl ha hb

end Before

/-! ## Waves -/

variable {α κ : Type*} [DecidableEq κ] (id : α → κ) (deps : α → List κ)

def isReady (completed : List κ) (a : α) : Bool := (deps a).all (· ∈ completed)

def waves : Nat → List α → List κ → List α × List α
  | 0, remaining, _ => ([], remaining)
  | fuel + 1, remaining, completed =>
    if (remaining.filter (isReady deps completed)).isEmpty then ([], remaining)
    else
      let rest := waves fuel (remaining.filter fun a => !isReady deps completed a)
        (completed ++ (remaining.filter (isReady deps completed)).map id)
      (remaining.filter (isReady deps completed) ++ rest.1, rest.2)

def edges (items : List α) : List (κ × κ) := items.flatMap fun a => (deps a).map (·, id a)

variable {id deps}

theorem length_waiting_le {fuel : Nat} {remaining : List α} {completed : List κ}
    (hready : remaining.filter (isReady deps completed) ≠ []) (hfuel : remaining.length ≤ fuel + 1) :
    (remaining.filter fun a => !isReady deps completed a).length ≤ fuel := by
  have hpos := length_pos_of_ne_nil hready
  have hsum := (filter_append_perm (isReady deps completed) remaining).length_eq
  rw [length_append] at hsum
  omega

section

variable (fuel : Nat) (remaining : List α) (completed : List κ)

include fuel remaining completed

theorem waves_perm :
    ((waves id deps fuel remaining completed).1 ++ (waves id deps fuel remaining completed).2).Perm remaining := by
  induction fuel generalizing remaining completed with
  | zero => simp [waves]
  | succ fuel ih =>
    unfold waves
    split
    · simp
    · rw [append_assoc]
      exact ((ih _ _).append_left _).trans (filter_append_perm _ _)

theorem waves_order {l l' : List α} {a : α} (h : (waves id deps fuel remaining completed).1 = l ++ a :: l') :
    ∀ d ∈ deps a, d ∈ completed ++ l.map id := by
  induction fuel generalizing remaining completed l with
  | zero => simp [waves] at h
  | succ fuel ih =>
    unfold waves at h
    split at h
    · simp at h
    · rcases append_eq_append_iff.mp h with ⟨c, rfl, hc⟩ | ⟨c, hc, hc'⟩
      · intro d hd
        simpa using ih _ _ hc d hd
      · cases c with
        | nil =>
          intro d hd
          simp only [append_nil] at hc
          have := ih _ _ (l := []) hc'.symm d hd
          rw [hc] at this
          simpa using this
        | cons b c =>
          obtain ⟨rfl, _⟩ : a = b ∧ l' = c ++ _ := by simpa using hc'
          have ha : a ∈ remaining.filter (isReady deps completed) := by rw [hc]; simp
          have hready := (mem_filter.mp ha).2
          intro d hd
          exact mem_append_left _ (by simpa using all_eq_true.mp hready d hd)

theorem waves_stuck (hfuel : remaining.length ≤ fuel) {a : α} (ha : a ∈ (waves id deps fuel remaining completed).2) :
    ∃ d ∈ deps a, d ∉ completed ++ (waves id deps fuel remaining completed).1.map id := by
  induction fuel generalizing remaining completed with
  | zero =>
    rw [length_eq_zero_iff.mp (Nat.le_zero.mp hfuel)] at ha
    simp [waves] at ha
  | succ fuel ih =>
    unfold waves at ha ⊢
    split at ha
    · rename_i hnone
      rw [if_pos hnone]
      rw [List.isEmpty_iff, filter_eq_nil_iff] at hnone
      simpa [isReady] using hnone a ha
    · rename_i hsome
      rw [if_neg hsome]
      obtain ⟨d, hd, hnot⟩ := ih _ _ (length_waiting_le (by simpa using hsome) hfuel) ha
      exact ⟨d, hd, by simpa using hnot⟩

end

theorem waves_complete {items : List α} (hclosed : ∀ a ∈ items, ∀ d ∈ deps a, d ∈ items.map id)
    (hacyc : Kahn.Acyclic (edges id deps items)) : (waves id deps items.length items []).2 = [] := by
  by_contra hne
  have hperm := @waves_perm _ _ _ id deps items.length items []
  generalize hw : waves id deps items.length items [] = w at hne hperm
  obtain ⟨m, hm, hfirst⟩ := hacyc.exists_first (s := w.2.map id) (by simpa using hne)
  obtain ⟨a, ha, rfl⟩ := mem_map.mp hm
  obtain ⟨d, hd, hnot⟩ := @waves_stuck _ _ _ id deps items.length items [] le_rfl a (by rw [hw]; exact ha)
  rw [hw] at hnot
  have hitem : a ∈ items := hperm.subset (mem_append_right _ ha)
  -- The dependency is an item that did not run, so it is left as well.
  have hleft : d ∈ w.2.map id := by
    have := (hperm.map id).symm.subset (hclosed a hitem d hd)
    rw [map_append, mem_append] at this
    exact this.resolve_left (by simpa using hnot)
  exact hfirst (d, id a) (mem_flatMap.mpr ⟨a, hitem, mem_map_of_mem hd⟩) rfl hleft

theorem waves_before {items : List α} (hids : (items.map id).Nodup)
    (hall : (waves id deps items.length items []).2 = []) {a b : α} (ha : a ∈ items) (hb : b ∈ items)
    (hab : id a ∈ deps b) : Before (waves id deps items.length items []).1 a b := by
  have hperm := @waves_perm _ _ _ id deps items.length items []
  rw [hall, append_nil] at hperm
  obtain ⟨l₁, l₂, hl⟩ := append_of_mem (hperm.symm.subset hb)
  have hmem := waves_order items.length items [] hl (id a) hab
  rw [nil_append, mem_map] at hmem
  obtain ⟨a', ha', hid⟩ := hmem
  have ha'' : a' ∈ items := hperm.subset (by rw [hl]; exact mem_append_left _ ha')
  obtain rfl := inj_on_of_nodup_map hids ha'' ha hid
  exact ⟨l₁, b :: l₂, hl, ha', mem_cons_self⟩

end AteStudio.Waves
