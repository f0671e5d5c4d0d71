import Mathlib

/-!
# `mapM` over `Except`

A traversal that returns has returned at every element, and `Forall₂` says where.
-/

namespace AteStudio

open List

universe u

variable {ε γ : Type*} {α β : Type u} {f : α → Except ε β}

theorem bind_eq_ok {x : Except ε α} {b : β} : x >>= f = .ok b ↔ ∃ a, x = .ok a ∧ f a = .ok b := by
  cases x <;> simp [bind, Except.bind]

theorem bind_eq_error {x : Except ε α} {e : ε} :
    x >>= f = .error e ↔ x = .error e ∨ ∃ a, x = .ok a ∧ f a = .error e := by
  cases x <;> simp [bind, Except.bind]

theorem pure_eq_ok {a b : α} : (pure a : Except ε α) = .ok b ↔ a = b := by
  simp [pure, Except.pure]

variable {l : List α}

theorem mapM_eq_ok_iff {r : List β} : l.mapM f = .ok r ↔ Forall₂ (fun a b => f a = .ok b) l r := by
  induction l generalizing r with
  | nil => rw [mapM_nil, pure_eq_ok, forall₂_nil_left_iff, eq_comm]
  | cons a l ih =>
    rw [mapM_cons, forall₂_cons_left_iff]
    simp only [bind_eq_ok, pure_eq_ok, ih]
    constructor
    · rintro ⟨b, hb, r', hr', rfl⟩
      exact ⟨b, r', hb, hr', rfl⟩
    · rintro ⟨b, r', hb, hr', rfl⟩
      exact ⟨b, hb, r', hr', rfl⟩

theorem mapM_eq_some_iff {f : α → Option β} {r : List β} :
    l.mapM f = some r ↔ Forall₂ (fun a b => f a = some b) l r := by
  induction l generalizing r with
  | nil => simp [eq_comm]
  | cons a l ih =>
    rw [mapM_cons, forall₂_cons_left_iff]
    simp only [Option.bind_eq_bind, Option.bind_eq_some_iff, Option.pure_def, Option.some.injEq, ih]
    constructor
    · rintro ⟨b, hb, r', hr', rfl⟩
      exact ⟨b, r', hb, hr', rfl⟩
    · rintro ⟨b, r', hb, hr', rfl⟩
      exact ⟨b, hb, r', hr', rfl⟩

theorem mapM_isSome_iff {f : α → Option β} : (l.mapM f).isSome ↔ ∀ a ∈ l, (f a).isSome := by
  induction l with
  | nil => simp
  | cons a l ih =>
    rw [forall_mem_cons, ← ih, mapM_cons]
    cases f a <;> cases l.mapM f <;> simp

theorem mapM_eq_error {e : ε} (h : l.mapM f = .error e) : ∃ a ∈ l, f a = .error e := by
  induction l with
  | nil => cases h
  | cons a l ih =>
    rw [mapM_cons, bind_eq_error] at h
    rcases h with h | ⟨b, _, h⟩
    · exact ⟨a, by simp, h⟩
    · rcases bind_eq_error.mp h with h | ⟨r, _, h⟩
      · obtain ⟨a', ha', hf⟩ := ih h
        exact ⟨a', by simp [ha'], hf⟩
      · cases h

section Forall₂

variable {R : α → β → Prop} {r : List β}

theorem forall₂_append_left_iff {l₁ l₂ : List α} :
    Forall₂ R (l₁ ++ l₂) r ↔
      ∃ r₁ r₂, r = r₁ ++ r₂ ∧ Forall₂ R l₁ r₁ ∧ Forall₂ R l₂ r₂ := by
  constructor
  · intro h
    exact ⟨_, _, (take_append_drop l₁.length r).symm, (forall₂_take_append r l₁ l₂ h.flip).flip,
      (forall₂_drop_append r l₁ l₂ h.flip).flip⟩
  · rintro ⟨r₁, r₂, rfl, h₁, h₂⟩
    exact rel_append h₁ h₂

theorem forall₂_flatMap_left_iff {l : List γ} {f : γ → List α} :
    Forall₂ R (l.flatMap f) r ↔
      ∃ parts : List (List β), r = parts.flatten ∧
        Forall₂ (fun c part => Forall₂ R (f c) part) l parts := by
  induction l generalizing r with
  | nil =>
    simp only [flatMap_nil, forall₂_nil_left_iff]
    constructor
    · rintro rfl
      exact ⟨[], rfl, rfl⟩
    · rintro ⟨parts, rfl, rfl⟩
      rfl
  | cons c l ih =>
    rw [flatMap_cons, forall₂_append_left_iff]
    constructor
    · rintro ⟨r₁, r₂, rfl, h₁, h₂⟩
      obtain ⟨parts, rfl, hp⟩ := ih.mp h₂
      exact ⟨r₁ :: parts, rfl, .cons h₁ hp⟩
    · rintro ⟨parts, rfl, hp⟩
      obtain ⟨part, rest, h₁, hr, rfl⟩ := forall₂_cons_left_iff.mp hp
      exact ⟨part, rest.flatten, rfl, h₁, ih.mpr ⟨rest, rfl, hr⟩⟩

variable {l : List α}

theorem Forall₂.exists_zip (h : Forall₂ R l r) {a : α} (ha : a ∈ l) : ∃ b, (a, b) ∈ l.zip r := by
  induction h with
  | nil => cases ha
  | @cons a' b l r _ _ ih =>
    rcases mem_cons.mp ha with rfl | ha
    · exact ⟨b, mem_cons_self⟩
    · obtain ⟨b', hb'⟩ := ih ha
      exact ⟨b', mem_cons_of_mem _ hb'⟩

theorem Forall₂.exists_right (h : Forall₂ R l r) {a : α} (ha : a ∈ l) : ∃ b ∈ r, R a b := by
  obtain ⟨b, hb⟩ := Forall₂.exists_zip h ha
  exact ⟨b, (of_mem_zip hb).2, forall₂_zip h hb⟩

theorem Forall₂.exists_left (h : Forall₂ R l r) {b : β} (hb : b ∈ r) : ∃ a ∈ l, R a b :=
  Forall₂.exists_right h.flip hb

theorem Forall₂.comp {S : β → γ → Prop} {m : List β} {r : List γ} (h : Forall₂ R l m)
    (h' : Forall₂ S m r) : Forall₂ (fun a c => ∃ b, R a b ∧ S b c) l r := by
  induction h generalizing r with
  | nil =>
    cases h'
    exact .nil
  | @cons a b l m hab _ ih =>
    obtain ⟨c, r', hbc, hr', rfl⟩ := forall₂_cons_left_iff.mp h'
    exact .cons ⟨b, hab, hbc⟩ (ih hr')

theorem Forall₂.mem_iff {g : α → Option β}
    (h : Forall₂ (fun a b => g a = some b) l r) {b : β} : b ∈ r ↔ ∃ a ∈ l, g a = some b := by
  constructor
  · exact Forall₂.exists_left h
  · rintro ⟨a, ha, hab⟩
    obtain ⟨b', hb', hab'⟩ := Forall₂.exists_right h ha
    rw [hab] at hab'
    cases hab'
    exact hb'

theorem exists_forall₂ (h : ∀ a ∈ l, ∃ b, R a b) : ∃ r, Forall₂ R l r := by
  induction l with
  | nil => exact ⟨[], .nil⟩
  | cons a l ih =>
    obtain ⟨b, hb⟩ := h a (by simp)
    obtain ⟨r, hr⟩ := ih fun a' ha' => h a' (by simp [ha'])
    exact ⟨b :: r, .cons hb hr⟩

end Forall₂

end AteStudio
