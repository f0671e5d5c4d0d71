import Mathlib

/-!
# Commands that are not repeated

A list of commands, each for one slot. A command that was issued once is not issued again, whatever came between,
unless it is always issued.
-/

namespace AteStudio.Setpoint

open List

structure Command (κ δ τ : Type) where
  slot : κ
  data : δ
  always : Bool
  -- not compared
  tag : τ

variable {κ δ τ : Type} [DecidableEq κ] [DecidableEq δ] (seen : List (κ × δ)) (c : Command κ δ τ)
  (cs : List (Command κ δ τ))

def Command.key : κ × δ := (c.slot, c.data)

def note : List (κ × δ) :=
  if c.always = true ∨ c.key ∈ seen then seen else seen ++ [c.key]

def noted : List (κ × δ) := cs.foldl note seen

def issued (seen : List (κ × δ)) : List (Command κ δ τ) → List (Command κ δ τ)
  | [] => []
  | c :: cs => if c.always = true ∨ c.key ∉ seen then c :: issued (note seen c) cs else issued seen cs

def last (slot : κ) : Option δ := ((cs.filter (·.slot = slot)).getLast?).map (·.data)

theorem issued_cons :
    issued seen (c :: cs) = (if c.always = true ∨ c.key ∉ seen then [c] else []) ++ issued (note seen c) cs := by
  rw [issued]
  split
  · rfl
  · next h =>
    rw [note, if_pos (.inr (not_not.mp fun hk => h (.inr hk))), nil_append]

theorem issued_append (cs' : List (Command κ δ τ)) :
    issued seen (cs ++ cs') = issued seen cs ++ issued (noted seen cs) cs' := by
  induction cs generalizing seen with
  | nil => rfl
  | cons c cs ih => rw [cons_append, issued_cons, issued_cons, ih, append_assoc, noted, noted, foldl_cons]

variable {seen c}

theorem mem_note {k : κ × δ} : k ∈ note seen c ↔ k ∈ seen ∨ c.always = false ∧ c.key = k := by
  unfold note
  split
  · next h =>
    refine ⟨.inl, fun hk => hk.elim id ?_⟩
    rintro ⟨halways, rfl⟩
    exact h.resolve_left (by simp [halways])
  · next h =>
    rw [not_or] at h
    simp [h.1, eq_comm]

variable {cs : List (Command κ δ τ)}

theorem mem_noted {k : κ × δ} : k ∈ noted seen cs ↔ k ∈ seen ∨ ∃ c ∈ cs, c.always = false ∧ c.key = k := by
  induction cs generalizing seen with
  | nil => simp [noted]
  | cons c cs ih =>
    rw [noted, foldl_cons, ← noted, ih, mem_note, or_assoc]
    simp

theorem mem_of_mem_issued (h : c ∈ issued seen cs) : c ∈ cs := by
  induction cs generalizing seen with
  | nil => exact h
  | cons a cs ih =>
    rw [issued] at h
    split at h
    · exact mem_cons.mpr ((mem_cons.mp h).imp_right ih)
    · exact mem_cons_of_mem _ (ih h)

omit [DecidableEq δ] in
theorem last_append (cs cs' : List (Command κ δ τ)) (slot : κ) :
    last (cs ++ cs') slot = (last cs' slot).or (last cs slot) := by
  rw [last, last, last, filter_append, getLast?_append, Option.map_or]

omit [DecidableEq δ] in
theorem last_eq_none {slot : κ} (h : ∀ c ∈ cs, c.slot ≠ slot) : last cs slot = none := by
  rw [last, filter_eq_nil_iff.mpr fun c hc => by simp [h c hc]]
  rfl

omit [DecidableEq δ] in
theorem last_cons (c : Command κ δ τ) (cs : List (Command κ δ τ)) (slot : κ) :
    last (c :: cs) slot = (last cs slot).or (if c.slot = slot then some c.data else none) := by
  rw [← singleton_append, last_append]
  congr 1
  by_cases h : c.slot = slot <;> simp [last, h]

theorem last_issued (hslots : (cs.map (·.slot)).Nodup)
    (hc : c ∈ cs) : last (issued seen cs) c.slot = if c.always = true ∨ c.key ∉ seen then some c.data else none := by
  induction cs generalizing seen with
  | nil => cases hc
  | cons a cs ih =>
    obtain ⟨ha, hslots⟩ := nodup_cons.mp hslots
    rcases mem_cons.mp hc with rfl | hc
    · have hrest : ∀ seen, last (issued seen cs) c.slot = none := fun seen =>
        last_eq_none fun c' hc' heq => ha (mem_map.mpr ⟨c', mem_of_mem_issued hc', heq⟩)
      rw [issued]
      split
      · simp [last_cons, hrest]
      · exact hrest seen
    · have hne : a.slot ≠ c.slot := fun heq => ha (mem_map.mpr ⟨c, hc, heq.symm⟩)
      rw [issued]
      split
      · have hkey : c.key ∈ note seen a ↔ c.key ∈ seen := by
          have : a.key ≠ c.key := fun heq => hne (congrArg Prod.fst heq)
          simp [mem_note, this]
        rw [last_cons, if_neg hne, Option.or_none, ih hslots hc]
        simp only [hkey]
      · exact ih hslots hc

theorem last_issued_append_iff (before : List (Command κ δ τ)) (hslots : (cs.map (·.slot)).Nodup) (hc : c ∈ cs) :
    last (issued [] (before ++ cs)) c.slot = some c.data ↔
      (c.always = false → (∃ c' ∈ before, c'.always = false ∧ c'.key = c.key) →
        last (issued [] before) c.slot = some c.data) := by
  have hseen : c.key ∈ noted [] before ↔ ∃ c' ∈ before, c'.always = false ∧ c'.key = c.key := by
    simp [mem_noted]
  rw [issued_append, last_append, last_issued hslots hc, ← hseen]
  by_cases hskip : c.always = false ∧ c.key ∈ noted [] before
  · simp [hskip.1, hskip.2]
  · have hissue : c.always = true ∨ c.key ∉ noted [] before := by
      rw [not_and_or, Bool.not_eq_false] at hskip
      exact hskip
    rw [if_pos hissue]
    simp only [Option.some_or, true_iff]
    exact fun h h' => absurd ⟨h, h'⟩ hskip

end AteStudio.Setpoint
