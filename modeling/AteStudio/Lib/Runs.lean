import Mathlib

/-!
# Runs of a state machine

A machine is a function of a state and a move. A condition on moves is met along a run when each
move meets it in the state it is made in.
-/

namespace AteStudio.Runs

-- States keep maps as functions.
attribute [grind =] Function.update_apply

variable {σ μ : Type} (step : σ → μ → σ)

def run (s : σ) (moves : List μ) : σ := moves.foldl step s

/-- Every move of the run meets `good` in the state before it. -/
def Meets (good : σ → μ → Prop) : σ → List μ → Prop
  | _, [] => True
  | s, m :: moves => good s m ∧ Meets good (step s m) moves

instance Meets.decidable (good : σ → μ → Prop) [∀ s m, Decidable (good s m)] :
    ∀ s moves, Decidable (Meets step good s moves)
  | _, [] => isTrue trivial
  | s, m :: moves =>
    have := Meets.decidable good (step s m) moves
    inferInstanceAs (Decidable (_ ∧ _))

variable {step} {good : σ → μ → Prop} {moves : List μ} {s : σ} {inv : σ → Prop}

theorem run_invariant (h : ∀ s m, inv s → good s m → inv (step s m))
    (hs : inv s) (hgood : Meets step good s moves) : inv (run step s moves) := by
  induction moves generalizing s with
  | nil => exact hs
  | cons m moves ih => exact ih (h s m hs hgood.1) hgood.2

theorem meets_append {before after : List μ} :
    Meets step good s (before ++ after) ↔ Meets step good s before ∧ Meets step good (run step s before) after := by
  induction before generalizing s with
  | nil => exact ⟨fun h => ⟨trivial, h⟩, fun h => h.2⟩
  | cons m before ih =>
    constructor
    · rintro ⟨hm, h⟩
      exact ⟨⟨hm, (ih.mp h).1⟩, (ih.mp h).2⟩
    · rintro ⟨⟨hm, hbefore⟩, hafter⟩
      exact ⟨hm, ih.mpr ⟨hbefore, hafter⟩⟩

variable {good' : σ → μ → Prop}

theorem meets_and :
    Meets step (fun s m => good s m ∧ good' s m) s moves ↔ Meets step good s moves ∧ Meets step good' s moves := by
  induction moves generalizing s with
  | nil => exact (and_self_iff).symm
  | cons m moves ih => exact (and_congr_right' ih).trans and_and_and_comm

theorem meets_congr (h : ∀ s m, good s m ↔ good' s m) : Meets step good s moves ↔ Meets step good' s moves := by
  rw [show good = good' from funext fun s => funext fun m => propext (h s m)]

theorem meets_of_invariant (h : ∀ s m, inv s → good s m → inv (step s m))
    (h' : ∀ s m, inv s → good s m → good' s m) (hs : inv s)
    (hgood : Meets step good s moves) : Meets step good' s moves := by
  induction moves generalizing s with
  | nil => trivial
  | cons m moves ih => exact ⟨h' s m hs hgood.1, ih (h s m hs hgood.1) hgood.2⟩

theorem meets_iff_always {inv kept : σ → Prop} (hinv : ∀ s m, inv s → inv (step s m))
    (h : ∀ s m, inv s → kept s → (good s m ↔ kept (step s m))) (hs : inv s) (hkept : kept s) :
    Meets step good s moves ↔ ∀ before, before <+: moves → kept (run step s before) := by
  induction moves generalizing s with
  | nil =>
    refine ⟨fun _ before hbefore => ?_, fun _ => trivial⟩
    rw [List.prefix_nil.mp hbefore]
    exact hkept
  | cons m moves ih =>
    constructor
    · rintro ⟨hm, hmoves⟩ before hbefore
      have hkept' := (h s m hs hkept).mp hm
      rcases List.prefix_cons_iff.mp hbefore with rfl | ⟨rest, rfl, hrest⟩
      · exact hkept
      · exact (ih (hinv s m hs) hkept').mp hmoves rest hrest
    · intro hall
      have hkept' : kept (step s m) := hall [m] (List.prefix_append [m] moves)
      refine ⟨(h s m hs hkept).mpr hkept', (ih (hinv s m hs) hkept').mpr fun rest hrest => ?_⟩
      exact hall (m :: rest) (List.cons_prefix_cons.mpr ⟨rfl, hrest⟩)

theorem meets_iff_run_kept {inv kept : σ → Prop} (hinv : ∀ s m, inv s → good s m → inv (step s m))
    (hkept : ∀ s, inv s → kept s) (h : ∀ s m, inv s → kept (step s m) → good s m) (hs : inv s) :
    Meets step good s moves ↔ ∀ before, before <+: moves → kept (run step s before) := by
  constructor
  · rintro hmeets before ⟨rest, rfl⟩
    exact hkept _ (run_invariant hinv hs (meets_append.mp hmeets).1)
  · intro hall
    induction moves generalizing s with
    | nil => trivial
    | cons m moves ih =>
      have hm : good s m := h s m hs (hall [m] (List.prefix_append [m] moves))
      refine ⟨hm, ih (hinv s m hs hm) fun rest hrest => ?_⟩
      exact hall (m :: rest) (List.cons_prefix_cons.mpr ⟨rfl, hrest⟩)

theorem meets_iff_not_spoiled {spoiled : σ → Prop} (hstays : ∀ s m, spoiled s → spoiled (step s m))
    (h : ∀ s m, ¬ spoiled s → (good s m ↔ ¬ spoiled (step s m))) (hs : ¬ spoiled s) :
    Meets step good s moves ↔ ¬ spoiled (run step s moves) := by
  induction moves generalizing s with
  | nil => exact iff_of_true trivial hs
  | cons m moves ih =>
    by_cases hm : good s m
    · exact (and_iff_right hm).trans (ih ((h s m hs).mp hm))
    · have hspoiled : spoiled (step s m) := not_not.mp fun hnot => hm ((h s m hs).mpr hnot)
      have hlast : spoiled (run step (step s m) moves) :=
        List.foldlRecOn moves step hspoiled fun s hs m _ => hstays s m hs
      exact iff_of_false (fun hmeets => hm hmeets.1) fun hnot => hnot hlast

theorem run_always (h : ∀ s m, inv s → inv (step s m)) (hs : inv s) (moves : List μ) : inv (run step s moves) := by
  induction moves generalizing s with
  | nil => exact hs
  | cons m moves ih => exact ih (h s m hs)

section Collect

variable {ω : Type}

variable (step) in
/-- What `out` gives for the moves of a run, in order. -/
def collect (out : σ → μ → List ω) : σ → List μ → List ω
  | _, [] => []
  | s, m :: moves => out s m ++ collect out (step s m) moves

theorem run_collect {out : σ → μ → List ω} {log : σ → List ω} (h : ∀ s m, log (step s m) = log s ++ out s m) (s : σ)
    (moves : List μ) : log (run step s moves) = log s ++ collect step out s moves := by
  induction moves generalizing s with
  | nil => exact (List.append_nil _).symm
  | cons m moves ih => rw [collect, ← List.append_assoc, ← h, ← ih]; rfl

end Collect

end AteStudio.Runs
