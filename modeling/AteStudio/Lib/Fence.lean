import AteStudio.Lib.Splits

/-!
# Fences in a sequence

Some entries of a sequence expose what comes after them, some need that nothing is exposed, and some are fences that
end an exposure.
-/

namespace AteStudio.Fence

open List

structure Mark where
  exposes : Bool
  needs : Bool
  fences : Bool
deriving DecidableEq

def Exposed (l : List Mark) : Prop := ∃ x a y, l = x ++ a :: y ∧ a.exposes = true ∧ ∀ e ∈ y, e.fences = false

def Fenced (l : List Mark) : Prop := ∀ x b y, l = x ++ b :: y → b.needs = true → ¬ Exposed x

theorem fenced_iff (l : List Mark) :
    Fenced l ↔ ∀ x a m b y, l = x ++ a :: (m ++ b :: y) → a.exposes = true → b.needs = true →
      ∃ e ∈ m, e.fences = true := by
  constructor
  · intro h x a m b y hl ha hb
    by_contra hnone
    refine h (x ++ a :: m) b y (by simp [hl]) hb ⟨x, a, m, rfl, ha, fun e he => ?_⟩
    by_contra hfence
    exact hnone ⟨e, he, by simpa using hfence⟩
  · rintro h x b y rfl hb ⟨x', a, m, rfl, ha, hm⟩
    obtain ⟨e, he, hfence⟩ := h x' a m b y (by simp) ha hb
    rw [hm e he] at hfence
    cases hfence

theorem fenced_map_iff {α : Type*} (f : α → Mark) (l : List α) :
    Fenced (l.map f) ↔ ∀ x a m b y, l = x ++ a :: (m ++ b :: y) → (f a).exposes = true → (f b).needs = true →
      ∃ e ∈ m, (f e).fences = true := by
  rw [fenced_iff]
  constructor
  · rintro h x a m b y rfl ha hb
    obtain ⟨e, he, hfence⟩ := h (x.map f) (f a) (m.map f) (f b) (y.map f) (by simp) ha hb
    obtain ⟨e', he', rfl⟩ := mem_map.mp he
    exact ⟨e', he', hfence⟩
  · intro h x a m b y hl ha hb
    obtain ⟨x', r₁, rfl, rfl, h₁⟩ := map_eq_append_iff.mp hl
    obtain ⟨a', r₂, rfl, rfl, h₂⟩ := map_eq_cons_iff.mp h₁
    obtain ⟨m', r₃, rfl, rfl, h₃⟩ := map_eq_append_iff.mp h₂
    obtain ⟨b', y', rfl, rfl, rfl⟩ := map_eq_cons_iff.mp h₃
    obtain ⟨e, he, hfence⟩ := h x' a' m' b' y' rfl ha hb
    exact ⟨f e, mem_map_of_mem he, hfence⟩

@[simp] theorem not_exposed_nil : ¬ Exposed [] := by
  rintro ⟨x, a, y, h, -⟩
  simp at h

@[simp] theorem fenced_nil : Fenced [] := by
  intro x b y h
  simp at h

variable (l l' : List Mark)

theorem exposed_append : Exposed (l ++ l') ↔ Exposed l' ∨ Exposed l ∧ ∀ e ∈ l', e.fences = false := by
  constructor
  · rintro ⟨x, a, y, h, ha, hy⟩
    rcases append_eq_append_iff.mp h with ⟨z, rfl, hz⟩ | ⟨z, rfl, hz⟩
    · exact .inl ⟨z, a, y, hz, ha, hy⟩
    · cases z with
      | nil => exact .inl ⟨[], a, y, hz.symm, ha, hy⟩
      | cons c z =>
        obtain ⟨rfl, rfl⟩ := List.cons.inj hz
        exact .inr ⟨⟨x, a, z, rfl, ha, fun e he => hy e (by simp [he])⟩, fun e he => hy e (by simp [he])⟩
  · rintro (⟨x, a, y, rfl, ha, hy⟩ | ⟨⟨x, a, y, rfl, ha, hy⟩, h⟩)
    · exact ⟨l ++ x, a, y, by simp, ha, hy⟩
    · refine ⟨x, a, y ++ l', by simp, ha, fun e he => ?_⟩
      rcases mem_append.mp he with he | he
      · exact hy e he
      · exact h e he

/-- The entries of `l` that need are safe after a part that is exposed when `before` holds. -/
def FencedAfter (before : Prop) (l : List Mark) : Prop :=
  ∀ x b y, l = x ++ b :: y → b.needs = true → ¬ (Exposed x ∨ before ∧ ∀ e ∈ x, e.fences = false)

theorem fenced_append : Fenced (l ++ l') ↔ Fenced l ∧ FencedAfter (Exposed l) l' := by
  have h := Splits.atEach_append (P := fun x b => b.needs = true → ¬ Exposed x) l l'
  simp only [exposed_append] at h
  exact h

theorem fencedAfter_congr {p q : Prop} (h : p ↔ q) (l : List Mark) : FencedAfter p l ↔ FencedAfter q l := by
  unfold FencedAfter
  rw [h]

theorem fencedAfter_false (l : List Mark) : FencedAfter False l ↔ Fenced l := by
  simp [FencedAfter, Fenced]

theorem fenced_singleton (a : Mark) : Fenced [a] := by
  intro x b y h _
  cases x with
  | nil => exact not_exposed_nil
  | cons c x => simp at h

theorem not_exposed_singleton {a : Mark} (ha : a.exposes = false) : ¬ Exposed [a] := by
  rintro ⟨x, b, y, h, hb, -⟩
  cases x with
  | nil =>
    simp only [nil_append, List.cons.injEq] at h
    rw [← h.1, ha] at hb
    cases hb
  | cons c x => simp at h

theorem fenced_append_of_not {l : List Mark} (h : ¬ Exposed l) (l' : List Mark) :
    (Fenced (l ++ l') ↔ Fenced l ∧ Fenced l') ∧ (Exposed (l ++ l') ↔ Exposed l') := by
  rw [fenced_append, fencedAfter_congr (iff_false_intro h), fencedAfter_false, exposed_append]
  exact ⟨Iff.rfl, or_iff_left fun hl => h hl.1⟩

theorem fenced_fence :
    (Fenced (l ++ ⟨false, false, true⟩ :: l') ↔ Fenced l ∧ Fenced l') ∧
      (Exposed (l ++ ⟨false, false, true⟩ :: l') ↔ Exposed l') := by
  have hexposed : ¬ Exposed (l ++ [⟨false, false, true⟩]) := by
    rw [exposed_append]
    rintro (h | ⟨-, h⟩)
    · exact not_exposed_singleton rfl h
    · simp at h
  have hfenced : Fenced (l ++ [⟨false, false, true⟩]) ↔ Fenced l := by
    rw [fenced_append, and_iff_left]
    intro x b y h hb
    cases x with
    | nil =>
      simp only [nil_append, List.cons.injEq] at h
      rw [← h.1] at hb
      cases hb
    | cons c x => simp at h
  rw [append_cons, ← hfenced]
  exact fenced_append_of_not hexposed l'

end AteStudio.Fence
