import Mathlib

/-!
# Paths

A place in the file system is the list of the names that lead to it. A path is resolved to a place by a walk that goes up
at `..` and follows symbolic links.
-/

namespace AteStudio.Path

open List

structure Name where
  chars : List Char
  ne_nil : chars ≠ []
  ne_dot : chars ≠ ['.']
  ne_dots : chars ≠ ['.', '.']
  no_slash : '/' ∉ chars
deriving DecidableEq

theorem Name.ext {a b : Name} (h : a.chars = b.chars) : a = b := by
  cases a
  cases b
  simpa using h

inductive Segment where
  | parent
  | name (n : Name)
deriving DecidableEq

/-- Empty parts and `.` are dropped. -/
def segment? (part : List Char) : Option Segment :=
  if h : part ≠ [] ∧ part ≠ ['.'] ∧ part ≠ ['.', '.'] ∧ '/' ∉ part then
    some (.name ⟨part, h.1, h.2.1, h.2.2.1, h.2.2.2⟩)
  else if part = ['.', '.'] then some .parent
  else none

structure PurePath where
  absolute : Bool
  segments : List Segment
deriving DecidableEq

namespace PurePath

def parse (text : List Char) : PurePath where
  absolute := text.head? = some '/'
  segments := (text.splitOn '/').filterMap segment?

def join (p q : PurePath) : PurePath := if q.absolute then q else ⟨p.absolute, p.segments ++ q.segments⟩

end PurePath

abbrev Place := List Name

/-! ## Resolving -/

section Resolve

/- The target of the symbolic link at a place. -/
variable (links : Place → Option PurePath)

/-- Goes along the segments up to the first link, which `next` goes on from. -/
def follow (next : Place → List Segment → Option Place) : Place → List Segment → Option Place
  | here, [] => some here
  | here, .parent :: rest => follow next here.dropLast rest
  | here, .name n :: rest =>
    match links (here ++ [n]) with
    | none => follow next (here ++ [n]) rest
    | some target => next (if target.absolute then [] else here) (target.segments ++ rest)

def walk : Nat → Place → List Segment → Option Place
  | 0 => follow links fun _ _ => none
  | fuel + 1 => follow links (walk fuel)

def resolve (fuel : Nat) (cwd : Place) (path : PurePath) : Option Place :=
  walk links fuel (if path.absolute then [] else cwd) path.segments

end Resolve

/-! ## Texts -/

def slashed (place : Place) : List Char := place.flatMap fun n => '/' :: n.chars

def text (place : Place) : List Char := if place = [] then ['/'] else slashed place

/-- The second place lies beside the first, under a longer name that starts the same way. -/
def Beside (place other : Place) : Prop :=
  ∃ dir n m rest, place = dir ++ [n] ∧ other = dir ++ m :: rest ∧ n ≠ m ∧ n.chars <+: m.chars

@[simp] theorem slashed_cons (n : Name) (place : Place) : slashed (n :: place) = '/' :: n.chars ++ slashed place := rfl

def Slashes (x : List Char) : Prop := x = [] ∨ ∃ y, x = '/' :: y

theorem slashes_slashed (place : Place) : Slashes (slashed place) := by
  cases place with
  | nil => exact Or.inl rfl
  | cons n place => exact Or.inr ⟨_, rfl⟩

theorem append_prefix_append_iff {u v x y : List Char} (hu : '/' ∉ u) (hv : '/' ∉ v) (hx : Slashes x) (hy : Slashes y) :
    u ++ x <+: v ++ y ↔ x = [] ∧ u <+: v ∨ u = v ∧ x <+: y := by
  constructor
  · rintro ⟨z, hz⟩
    rw [append_assoc] at hz
    rcases append_eq_append_iff.mp hz with ⟨w, rfl, hw⟩ | ⟨w, rfl, hw⟩
    · rcases hx with rfl | ⟨x, rfl⟩
      · exact Or.inl ⟨rfl, prefix_append u w⟩
      · cases w with
        | nil => exact Or.inr ⟨(append_nil u).symm, z, hw⟩
        | cons c w =>
          obtain ⟨rfl, -⟩ := List.cons.inj hw
          simp at hv
    · cases w with
      | nil => exact Or.inr ⟨append_nil v, z, hw.symm⟩
      | cons c w =>
        rcases hy with rfl | ⟨y, rfl⟩
        · cases hw
        · obtain ⟨rfl, -⟩ := List.cons.inj hw
          simp at hu
  · rintro (⟨rfl, h⟩ | ⟨rfl, h⟩)
    · rw [append_nil]
      exact h.trans (prefix_append v y)
    · exact prefix_append_right_inj u |>.mpr h

theorem beside_cons_iff (n m : Name) (place other : Place) :
    Beside (n :: place) (m :: other) ↔ place = [] ∧ n ≠ m ∧ n.chars <+: m.chars ∨ n = m ∧ Beside place other := by
  constructor
  · rintro ⟨dir, a, b, rest, hplace, hother, hne, hpre⟩
    cases dir with
    | nil =>
      obtain ⟨rfl, rfl⟩ := List.cons.inj hplace
      obtain ⟨rfl, rfl⟩ := List.cons.inj hother
      exact Or.inl ⟨rfl, hne, hpre⟩
    | cons d dir =>
      obtain ⟨rfl, rfl⟩ := List.cons.inj hplace
      obtain ⟨rfl, rfl⟩ := List.cons.inj hother
      exact Or.inr ⟨rfl, dir, a, b, rest, rfl, rfl, hne, hpre⟩
  · rintro (⟨rfl, hne, hpre⟩ | ⟨rfl, dir, a, b, rest, rfl, rfl, hne, hpre⟩)
    · exact ⟨[], n, m, other, rfl, rfl, hne, hpre⟩
    · exact ⟨n :: dir, a, b, rest, rfl, rfl, hne, hpre⟩

theorem not_beside_nil (place : Place) : ¬ Beside place [] := by
  rintro ⟨dir, n, m, rest, -, h, -⟩
  simp at h

theorem slashed_prefix_iff (place other : Place) :
    slashed place <+: slashed other ↔ place <+: other ∨ Beside place other := by
  induction place generalizing other with
  | nil => exact iff_of_true nil_prefix (Or.inl nil_prefix)
  | cons n place ih =>
    cases other with
    | nil =>
      refine iff_of_false (fun h => ?_) ?_
      · exact cons_ne_nil _ _ (prefix_nil.mp h)
      · rintro (h | h)
        · exact cons_ne_nil _ _ (prefix_nil.mp h)
        · exact not_beside_nil _ h
    | cons m other =>
      have hnil : slashed place = [] ↔ place = [] := by cases place <;> simp [slashed]
      rw [slashed_cons, slashed_cons, cons_append, cons_append, cons_prefix_cons,
        append_prefix_append_iff n.no_slash m.no_slash (slashes_slashed _) (slashes_slashed _), beside_cons_iff, ih,
        cons_prefix_cons, hnil]
      have hchars : n.chars = m.chars ↔ n = m := ⟨Name.ext, congrArg Name.chars⟩
      rw [hchars]
      by_cases hnm : n = m
      · subst hnm
        have hself : place = [] → place <+: other := fun h => h ▸ nil_prefix
        simp only [true_and, ne_eq, not_true, false_and, and_false, false_or]
        tauto
      · simp [hnm]

theorem text_prefix_iff (place other : Place) : text place <+: text other ↔ place <+: other ∨ Beside place other := by
  cases place with
  | nil =>
    refine iff_of_true ?_ (Or.inl nil_prefix)
    cases other with
    | nil => exact prefix_refl _
    | cons m other => exact ⟨m.chars ++ slashed other, rfl⟩
  | cons n place =>
    cases other with
    | nil =>
      refine iff_of_false (fun h => ?_) ?_
      · have hchars : n.chars ++ slashed place <+: [] := (cons_prefix_cons.mp h).2
        exact n.ne_nil (append_eq_nil_iff.mp (prefix_nil.mp hchars)).1
      · rintro (h | h)
        · exact cons_ne_nil _ _ (prefix_nil.mp h)
        · exact not_beside_nil _ h
    | cons m other => exact slashed_prefix_iff (n :: place) (m :: other)

end AteStudio.Path
