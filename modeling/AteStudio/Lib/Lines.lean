import Mathlib

/-!
# Lines of a text

`str.splitlines`, `str.strip` and `"\n".join` on the characters of a text.
-/

namespace AteStudio.Lines

open List

def isBoundary (c : Char) : Bool :=
  let n := c.toNat
  (10 ≤ n && n ≤ 13) || (28 ≤ n && n ≤ 30) || n == 133 || n == 8232 || n == 8233

def splitLines : List Char → List (List Char)
  | [] => []
  | '\r' :: '\n' :: cs => [] :: splitLines cs
  | c :: cs =>
    if isBoundary c then [] :: splitLines cs
    else
      match splitLines cs with
      | [] => [[c]]
      | line :: lines => (c :: line) :: lines

def joinLines : List (List Char) → List Char
  | [] => []
  | [line] => line
  | line :: lines => line ++ '\n' :: joinLines lines

theorem joinLines_cons_cons (l l' : List Char) (ls : List (List Char)) :
    joinLines (l :: l' :: ls) = l ++ '\n' :: joinLines (l' :: ls) := rfl

def strip (isSpace : Char → Bool) (cs : List Char) : List Char := (cs.dropWhile isSpace).rdropWhile isSpace

/-! ## Splitting -/

def OneLine (cs : List Char) : Prop := ∀ c ∈ cs, isBoundary c = false

variable {cs : List Char} {c : Char}

theorem OneLine.tail (h : OneLine (c :: cs)) : OneLine cs :=
  fun d hd => h d (mem_cons_of_mem _ hd)

theorem splitLines_cons (h : isBoundary c = false) : splitLines (c :: cs) = match splitLines cs with
      | [] => [[c]]
      | line :: lines => (c :: line) :: lines := by
  rw [splitLines.eq_3]
  · simp [h]
  · rintro rest rfl -
    exact absurd h (by decide)

theorem splitLines_boundary (h : isBoundary c = true) (hr : c ≠ '\r') : splitLines (c :: cs) = [] :: splitLines cs := by
  rw [splitLines.eq_3]
  · simp [h]
  · rintro rest rfl -
    exact hr rfl

theorem splitLines_oneLine (h : OneLine cs) (hne : cs ≠ []) : splitLines cs = [cs] := by
  induction cs with
  | nil => exact absurd rfl hne
  | cons c cs ih =>
    rw [splitLines_cons (h c mem_cons_self)]
    cases cs with
    | nil => rfl
    | cons d ds => rw [ih h.tail (cons_ne_nil _ _)]

theorem splitLines_append {a b : List Char} (ha : OneLine a) (hc : isBoundary c = true) (hr : c ≠ '\r') :
    splitLines (a ++ c :: b) = a :: splitLines b := by
  induction a with
  | nil => exact splitLines_boundary hc hr
  | cons x a ih =>
    rw [cons_append, splitLines_cons (ha x mem_cons_self), ih ha.tail]

theorem splitLines_joinLines {lines : List (List Char)} (h : ∀ l ∈ lines, OneLine l ∧ l ≠ []) :
    splitLines (joinLines lines) = lines := by
  induction lines with
  | nil => rfl
  | cons l ls ih =>
    obtain ⟨hl, hls⟩ := forall_mem_cons.mp h
    cases ls with
    | nil => exact splitLines_oneLine hl.1 hl.2
    | cons l' ls => rw [joinLines_cons_cons, splitLines_append hl.1 (by decide) (by decide), ih hls]

/-- The first line that ends inside is torn there: its beginning is a line of its own. -/
theorem exists_torn {lines : List (List Char)} {l : List Char} (hl : l ∈ lines) (hcr : ∀ l ∈ lines, '\r' ∉ l)
    (h : ¬ OneLine l) :
    ∃ l ∈ lines, ∃ a c b, l = a ++ c :: b ∧ isBoundary c = true ∧ a ∈ splitLines (joinLines lines) := by
  induction lines with
  | nil => exact absurd hl not_mem_nil
  | cons m ls ih =>
    obtain ⟨hm, hls⟩ := forall_mem_cons.mp hcr
    by_cases hone : OneLine m
    · have hmem : l ∈ ls := (mem_cons.mp hl).resolve_left fun he => h (he ▸ hone)
      obtain ⟨l', hl', a, c, b, he, hc, ha⟩ := ih hmem hls
      refine ⟨l', mem_cons_of_mem _ hl', a, c, b, he, hc, ?_⟩
      cases ls with
      | nil => exact absurd hmem not_mem_nil
      | cons l'' ls =>
        rw [joinLines_cons_cons, splitLines_append hone (by decide) (by decide)]
        exact mem_cons_of_mem _ ha
    · obtain ⟨a, c, b, rfl, ha, hc⟩ : ∃ a c b, m = a ++ c :: b ∧ OneLine a ∧ isBoundary c = true := by
        refine ⟨m.takeWhile (!isBoundary ·), ?_⟩
        have hd : m.dropWhile (!isBoundary ·) ≠ [] := by
          intro hnil
          rw [dropWhile_eq_nil_iff] at hnil
          exact hone fun c hc => by simpa using hnil c hc
        obtain ⟨c, b, hcb⟩ := exists_cons_of_ne_nil hd
        refine ⟨c, b, by rw [← hcb, takeWhile_append_dropWhile], fun c hc => ?_, ?_⟩
        · simpa using mem_takeWhile_imp hc
        · have := head_dropWhile_not (!isBoundary ·) hd
          simpa [hcb] using this
      have hcr' : c ≠ '\r' := fun he => hm (by simp [he])
      refine ⟨_, mem_cons_self, a, c, b, rfl, hc, ?_⟩
      cases ls with
      | nil => rw [joinLines, splitLines_append ha hc hcr']; exact mem_cons_self
      | cons l'' ls =>
        rw [joinLines_cons_cons, append_assoc, cons_append, splitLines_append ha hc hcr']
        exact mem_cons_self

/-! ## Stripping -/

theorem strip_cons {isSpace : Char → Bool} (h : isSpace c = false) :
    ∃ ds, strip isSpace (c :: cs) = c :: ds ∧ c :: ds <+: c :: cs := by
  rw [strip, dropWhile_cons_of_neg (by simp [h])]
  have hp := rdropWhile_prefix isSpace (c :: cs)
  obtain ⟨ds, hds⟩ : ∃ ds, (c :: cs).rdropWhile isSpace = c :: ds := by
    cases hr : (c :: cs).rdropWhile isSpace with
    | nil =>
      rw [rdropWhile_eq_nil_iff] at hr
      exact absurd (hr c mem_cons_self) (by simp [h])
    | cons d ds =>
      rw [hr, cons_prefix_cons] at hp
      exact ⟨ds, by rw [hp.1]⟩
  exact ⟨ds, hds, hds ▸ hp⟩

theorem strip_eq_self {isSpace : Char → Bool} {d : Char} (hc : isSpace c = false)
    (hd : isSpace d = false) : strip isSpace (c :: (cs ++ [d])) = c :: (cs ++ [d]) := by
  rw [strip, dropWhile_cons_of_neg (by simp [hc]), ← cons_append, rdropWhile_concat_neg _ _ _ (by simp [hd])]

end AteStudio.Lines
