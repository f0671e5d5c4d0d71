import Mathlib

/-! # Every entry of a list with what comes before it -/

namespace AteStudio.Splits

variable {α β : Type*} {P Q : List α → α → Prop}

def AtEach (P : List α → α → Prop) (l : List α) : Prop := ∀ x b y, l = x ++ b :: y → P x b

theorem atEach_nil : AtEach P [] := by
  intro x b y h
  simp at h

theorem atEach_append (l l' : List α) : AtEach P (l ++ l') ↔ AtEach P l ∧ AtEach (fun x b => P (l ++ x) b) l' := by
  constructor
  · intro h
    exact ⟨fun x b y hl => h x b (y ++ l') (by simp [hl]), fun x b y hl => h (l ++ x) b y (by simp [hl])⟩
  · rintro ⟨hl, hl'⟩ x b y h
    rcases List.append_eq_append_iff.mp h with ⟨z, rfl, hz⟩ | ⟨z, rfl, hz⟩
    · exact hl' z b y hz
    · cases z with
      | nil => simpa using hl' [] b y (by simpa using hz.symm)
      | cons c z =>
        obtain ⟨rfl, rfl⟩ := List.cons.inj hz
        exact hl x b z rfl

theorem atEach_singleton (a : α) : AtEach P [a] ↔ P [] a := by
  constructor
  · exact fun h => h [] a [] rfl
  · intro h x b y heq
    cases x with
    | nil =>
      obtain ⟨rfl, -⟩ := List.cons.inj heq
      exact h
    | cons c x => simp at heq

theorem atEach_congr {l : List α} (h : ∀ x b y, l = x ++ b :: y → (P x b ↔ Q x b)) : AtEach P l ↔ AtEach Q l :=
  forall_congr' fun x => forall_congr' fun b => forall_congr' fun y => forall_congr' fun hl => h x b y hl

theorem atEach_map {P : List β → β → Prop} (f : α → β) (l : List α) :
    AtEach P (l.map f) ↔ AtEach (fun x b => P (x.map f) (f b)) l := by
  constructor
  · intro h x b y hl
    exact h _ _ (y.map f) (by simp [hl])
  · intro h x b y hl
    obtain ⟨x', rest, rfl, rfl, hrest⟩ := List.map_eq_append_iff.mp hl
    obtain ⟨b', y', rfl, rfl, rfl⟩ := List.map_eq_cons_iff.mp hrest
    exact h x' b' y' rfl

end AteStudio.Splits
