import Mathlib

/-!
# Forests in one list

Every element has a key and may name the key of its parent. A list in which the parents come
first and what is inside an element follows it without a gap is a forest, read in preorder.
-/

namespace AteStudio.Forest

open List Option

variable {α κ : Type} (key : α → κ) (parent : α → Option κ)

/-- The elements of `l` that reach the key `k` by going from parent to parent. -/
inductive Inside (l : List α) (k : κ) : α → Prop
  | child {x : α} : x ∈ l → parent x = some k → Inside l k x
  | deeper {x y : α} : Inside l k y → x ∈ l → parent x = some (key y) → Inside l k x

structure Nested (l : List α) : Prop where
  before : ∀ pre x post, l = pre ++ x :: post → ∀ k, parent x = some k → ∃ y ∈ pre, key y = k
  contiguous : ∀ pre a mid x post, l = pre ++ a :: (mid ++ x :: post) → Inside key parent l (key a) x →
    ∀ y ∈ mid, Inside key parent l (key a) y

/-- A forest whose roots have the parent `p`: each root is followed by its own forest. -/
inductive IsForest : Option κ → List α → Prop
  | nil (p : Option κ) : IsForest p []
  | cons {p : Option κ} {a : α} {body rest : List α} : parent a = p → IsForest (some (key a)) body →
      IsForest p rest → IsForest p (a :: (body ++ rest))

variable {key parent}

/-! ## Nested lists are forests -/

theorem mem_post_of_mem {pre post u v : List α} {a z : α} (hn : (pre ++ a :: post).Nodup)
    (h : pre ++ a :: post = u ++ z :: v) (ha : a ∈ u) : z ∈ post := by
  have hpre : a ∉ pre := by
    intro hmem
    exact (nodup_append.mp hn).2.2 a hmem a (by simp) rfl
  rcases append_eq_append_iff.mp h with ⟨w, rfl, hw⟩ | ⟨w, rfl, _⟩
  · rcases w with _ | ⟨b, w⟩
    · exact absurd (by simpa using ha) hpre
    · obtain ⟨-, rfl⟩ := List.cons.inj hw
      simp
  · exact absurd (mem_append_left w ha) hpre

section Nested

variable {l : List α} {post pre : List α}

theorem Nested.parent_before (h : Nested key parent l) (hk : (l.map key).Nodup) {a z : α}
    (hl : l = pre ++ a :: post) (hz : z ∈ l) (hp : parent z = some (key a)) : z ∈ post := by
  obtain ⟨u, v, huv⟩ := append_of_mem hz
  obtain ⟨y, hy, hkey⟩ := h.before u z v huv (key a) hp
  have hya : y = a := inj_on_of_nodup_map hk (by simp [huv, hy]) (by simp [hl]) hkey
  exact mem_post_of_mem (hl ▸ hk.of_map) (hl ▸ huv) (hya ▸ hy)

theorem Nested.inside_after (h : Nested key parent l) (hk : (l.map key).Nodup) {a x : α}
    (hl : l = pre ++ a :: post) (hx : Inside key parent l (key a) x) : x ∈ post := by
  induction hx with
  | child hmem hp => exact h.parent_before hk hl hmem hp
  | @deeper x y _ hmem hp ih =>
    obtain ⟨s, t, rfl⟩ := append_of_mem ih
    have hl' : l = (pre ++ a :: s) ++ y :: t := by simp [hl]
    have hafter := h.parent_before hk hl' hmem hp
    simp [hafter]

theorem Nested.exists_split (h : Nested key parent l) {tail : List α} {a : α} (hl : l = pre ++ a :: (tail ++ post)) :
    ∃ body rest, tail = body ++ rest ∧ (∀ x ∈ body, Inside key parent l (key a) x) ∧
      ∀ x ∈ rest, ¬ Inside key parent l (key a) x := by
  classical
  let inside : α → Bool := fun x => decide (Inside key parent l (key a) x)
  refine ⟨tail.takeWhile inside, tail.dropWhile inside, takeWhile_append_dropWhile.symm, ?_, ?_⟩
  · intro x hx
    simpa [inside] using mem_takeWhile_imp hx
  · intro x hx hinside
    obtain ⟨b, rest, hrest⟩ := exists_cons_of_ne_nil (ne_nil_of_mem hx)
    have hb : ¬ Inside key parent l (key a) b := by
      have hhead := head_dropWhile_not inside (by simp [hrest] : tail.dropWhile inside ≠ [])
      simpa [hrest, inside] using hhead
    rw [hrest] at hx
    rcases mem_cons.mp hx with rfl | hx
    · exact hb hinside
    · -- The first element of the rest stands between `a` and `x`.
      obtain ⟨s, t, rfl⟩ := append_of_mem hx
      have htail : tail = tail.takeWhile inside ++ b :: (s ++ x :: t) := by
        rw [← hrest, takeWhile_append_dropWhile]
      have hl' : l = pre ++ a :: ((tail.takeWhile inside ++ b :: s) ++ x :: (t ++ post)) := by
        rw [hl]
        nth_rewrite 1 [htail]
        simp
      exact hb (h.contiguous _ _ _ _ _ hl' hinside b (by simp))

variable (key parent l) in
/-- A part of the list whose elements have their parents in the part, or the parent `p`. -/
structure Part (p : Option κ) (pre seg post : List α) : Prop where
  split : l = pre ++ (seg ++ post)
  root : ∀ k, p = some k → ∃ y ∈ pre, key y = k
  inner : ∀ s x t, seg = s ++ x :: t → parent x = p ∨ ∃ y ∈ s, parent x = some (key y)

section Part

variable {p : Option κ} {pre body rest post : List α} {a : α}

theorem Part.parent_head (hpart : Part key parent l p pre (a :: (body ++ rest)) post) : parent a = p := by
  rcases hpart.inner [] a _ rfl with hroot | ⟨y, hy, _⟩
  · exact hroot
  · cases hy

theorem Part.inBody (hpart : Part key parent l p pre (a :: (body ++ rest)) post) (h : Nested key parent l)
    (hk : (l.map key).Nodup) (hin : ∀ x ∈ body, Inside key parent l (key a) x) :
    Part key parent l (some (key a)) (pre ++ [a]) body (rest ++ post) := by
  have hl : l = pre ++ a :: (body ++ rest ++ post) := by simpa using hpart.split
  refine ⟨by simpa using hpart.split, ?_, ?_⟩
  · rintro k hkey
    cases hkey
    exact ⟨a, by simp, rfl⟩
  rintro s x t rfl
  rcases hpart.inner (a :: s) x (t ++ rest) (by simp) with hpx | ⟨y, hy, hpx⟩
  · exfalso
    -- The parent of `x` is `a` or inside `a`, so it does not come before `a`.
    obtain ⟨z, hz, hpz⟩ : ∃ z ∈ a :: (s ++ x :: t ++ rest ++ post), parent x = some (key z) := by
      cases hin x (by simp) with
      | child _ hpa => exact ⟨a, by simp, hpa⟩
      | @deeper _ y hy _ hpy => exact ⟨y, mem_cons_of_mem _ (h.inside_after hk hl hy), hpy⟩
    obtain ⟨y, hy, hyz⟩ := hpart.root (key z) (hpx ▸ hpz)
    rw [hl, map_append] at hk
    exact (nodup_append.mp hk).2.2 _ (mem_map_of_mem hy) _ (mem_map_of_mem hz) hyz
  · rcases mem_cons.mp hy with rfl | hy
    · exact .inl hpx
    · exact .inr ⟨y, hy, hpx⟩

theorem Part.inRest (hpart : Part key parent l p pre (a :: (body ++ rest)) post)
    (hin : ∀ x ∈ body, Inside key parent l (key a) x) (hout : ∀ x ∈ rest, ¬ Inside key parent l (key a) x) :
    Part key parent l p (pre ++ a :: body) rest post := by
  refine ⟨by simpa using hpart.split, ?_, ?_⟩
  · intro k hk
    obtain ⟨y, hy, hyk⟩ := hpart.root k hk
    exact ⟨y, by simp [hy], hyk⟩
  rintro s x t rfl
  have hmem : x ∈ l := by simp [hpart.split]
  rcases hpart.inner (a :: (body ++ s)) x t (by simp) with hpx | ⟨y, hy, hpx⟩
  · exact .inl hpx
  rcases mem_cons.mp hy with rfl | hy
  · exact absurd (.child hmem hpx) (hout x (by simp))
  rcases mem_append.mp hy with hy | hy
  · exact absurd (.deeper (hin y hy) hmem hpx) (hout x (by simp))
  · exact .inr ⟨y, hy, hpx⟩

end Part

theorem Nested.part_isForest (h : Nested key parent l) (hk : (l.map key).Nodup) (n : Nat) {p : Option κ}
    {seg : List α} (hlen : seg.length ≤ n) (hpart : Part key parent l p pre seg post) : IsForest key parent p seg := by
  induction n generalizing p pre seg post with
  | zero =>
    rw [length_eq_zero_iff.mp (Nat.le_zero.mp hlen)]
    exact .nil p
  | succ n ih =>
    rcases seg with _ | ⟨a, tail⟩
    · exact .nil p
    obtain ⟨body, rest, rfl, hin, hout⟩ := h.exists_split (by simpa using hpart.split)
    simp only [length_cons, length_append] at hlen
    exact .cons hpart.parent_head (ih (by omega) (hpart.inBody h hk hin)) (ih (by omega) (hpart.inRest hin hout))

theorem Nested.isForest (h : Nested key parent l) (hk : (l.map key).Nodup) : IsForest key parent none l := by
  have hpart : Part key parent l none [] l [] := by
    refine ⟨by simp, by simp, ?_⟩
    intro s x t hl
    cases hp : parent x with
    | none => exact .inl rfl
    | some k =>
      obtain ⟨y, hy, rfl⟩ := h.before s x t hl k hp
      exact .inr ⟨y, hy, rfl⟩
  exact h.part_isForest hk l.length le_rfl hpart

end Nested

/-! ## Induction over a forest -/

theorem IsForest.parent_cases {p : Option κ} {l : List α} (h : IsForest key parent p l) {x : α} (hx : x ∈ l) :
    parent x = p ∨ ∃ y ∈ l, parent x = some (key y) := by
  induction h with
  | nil => cases hx
  | @cons p a body rest ha _ _ ihb ihr =>
    rcases mem_cons.mp hx with rfl | hx
    · exact .inl ha
    rcases mem_append.mp hx with hx | hx
    · rcases ihb hx with hp | ⟨y, hy, hp⟩
      · exact .inr ⟨a, by simp, hp⟩
      · exact .inr ⟨y, by simp [hy], hp⟩
    · rcases ihr hx with hp | ⟨y, hy, hp⟩
      · exact .inl hp
      · exact .inr ⟨y, by simp [hy], hp⟩

/-- A forest none of whose elements is the parent of an element around it. -/
structure Island (key : α → κ) (parent : α → Option κ) (p : Option κ) (l pre seg post : List α) : Prop where
  split : l = pre ++ (seg ++ post)
  root : ∀ x ∈ seg, p ≠ some (key x)
  outside : ∀ x ∈ pre ++ post, ∀ y ∈ seg, parent x ≠ some (key y)

section Island

variable {p : Option κ} {l pre body rest post : List α} {a : α}

section

variable (h : Island key parent p l pre (a :: (body ++ rest)) post) (hk : (l.map key).Nodup)

include h hk

theorem Island.distinct :
    (∀ y ∈ body, key a ≠ key y) ∧ (∀ y ∈ rest, key a ≠ key y) ∧ ∀ x ∈ body, ∀ y ∈ rest, key x ≠ key y := by
  rw [h.split] at hk
  simp only [map_append, map_cons] at hk
  have hseg := (nodup_append.mp (nodup_append.mp hk).2.1).1
  obtain ⟨ha, hbr⟩ := nodup_cons.mp hseg
  simp only [mem_append, List.mem_map, not_or, not_exists, not_and] at ha
  exact ⟨fun y hy he => ha.1 y hy he.symm, fun y hy he => ha.2 y hy he.symm, fun x hx y hy =>
    (nodup_append.mp hbr).2.2 _ (mem_map_of_mem hx) _ (mem_map_of_mem hy)⟩

theorem Island.parent_rest (hrest : IsForest key parent p rest) {x y : α} (hx : x ∈ rest) (hy : y ∈ a :: body) :
    parent x ≠ some (key y) := by
  obtain ⟨-, hra, hbr⟩ := h.distinct hk
  have hroot := h.root y (by rcases mem_cons.mp hy with rfl | hy <;> simp [*])
  rcases hrest.parent_cases hx with hp | ⟨z, hz, hp⟩
  · rw [hp]
    exact hroot
  · rw [hp]
    intro he
    rcases mem_cons.mp hy with rfl | hy
    · exact hra z hz (some.inj he).symm
    · exact hbr y hy z hz (some.inj he).symm

theorem Island.inBody (ha : parent a = p) (hrest : IsForest key parent p rest) :
    Island key parent (some (key a)) l (pre ++ [a]) body (rest ++ post) := by
  obtain ⟨hab, -, -⟩ := h.distinct hk
  refine ⟨by simpa using h.split, fun x hx he => hab x hx (some.inj he), ?_⟩
  intro x hx y hy
  simp only [mem_append, mem_singleton] at hx
  rcases hx with (hx | rfl) | (hx | hx)
  · exact h.outside x (by simp [hx]) y (by simp [hy])
  · rw [ha]
    exact h.root y (by simp [hy])
  · exact h.parent_rest hk hrest hx (by simp [hy])
  · exact h.outside x (by simp [hx]) y (by simp [hy])

theorem Island.inRest (ha : parent a = p) (hbody : IsForest key parent (some (key a)) body) :
    Island key parent p l (pre ++ a :: body) rest post := by
  obtain ⟨-, hra, hbr⟩ := h.distinct hk
  refine ⟨by simpa using h.split, fun x hx => h.root x (by simp [hx]), ?_⟩
  intro x hx y hy
  simp only [mem_append, mem_cons] at hx
  rcases hx with (hx | rfl | hx) | hx
  · exact h.outside x (by simp [hx]) y (by simp [hy])
  · rw [ha]
    exact h.root y (by simp [hy])
  · rcases hbody.parent_cases hx with hp | ⟨z, hz, hp⟩
    · rw [hp]
      exact fun he => hra y hy (some.inj he)
    · rw [hp]
      exact fun he => hbr z hz y hy (some.inj he)
  · exact h.outside x (by simp [hx]) y (by simp [hy])

end

end Island

section Children

variable [DecidableEq κ]

variable (parent) in
def childrenOf (l : List α) (p : Option κ) : List α := l.filter fun x => parent x = p

variable {l : List α} {p : Option κ}

theorem mem_childrenOf {x : α} : x ∈ childrenOf parent l p ↔ x ∈ l ∧ parent x = p := by
  simp [childrenOf]

theorem childrenOf_append (l l' : List α) (p : Option κ) :
    childrenOf parent (l ++ l') p = childrenOf parent l p ++ childrenOf parent l' p := by
  simp [childrenOf]

theorem childrenOf_eq_nil (h : ∀ x ∈ l, parent x ≠ p) : childrenOf parent l p = [] := by
  simpa [childrenOf] using h

section

variable {pre body rest post : List α} {a : α} (h : Island key parent p l pre (a :: (body ++ rest)) post)

include h

theorem Island.childrenOf_eq (hk : (l.map key).Nodup) (ha : parent a = p) (hrest : IsForest key parent p rest) :
    childrenOf parent l (some (key a)) = childrenOf parent body (some (key a)) := by
  have hl : l = pre ++ ([a] ++ (body ++ (rest ++ post))) := by simpa using h.split
  have hself : parent a ≠ some (key a) := ha ▸ h.root a (by simp)
  have hpre : childrenOf parent pre (some (key a)) = [] :=
    childrenOf_eq_nil fun x hx => h.outside x (by simp [hx]) a (by simp)
  have hrest' : childrenOf parent rest (some (key a)) = [] :=
    childrenOf_eq_nil fun x hx => h.parent_rest hk hrest hx (by simp)
  have hpost : childrenOf parent post (some (key a)) = [] :=
    childrenOf_eq_nil fun x hx => h.outside x (by simp [hx]) a (by simp)
  have hone : childrenOf parent [a] (some (key a)) = [] := by simpa [childrenOf] using hself
  simp only [hl, childrenOf_append, hpre, hone, hrest', hpost, append_nil, nil_append]

theorem childrenOf_cons (ha : parent a = p) (hbody : IsForest key parent (some (key a)) body) :
    childrenOf parent (a :: (body ++ rest)) p = a :: childrenOf parent rest p := by
  have hnil : childrenOf parent body p = [] := by
    apply childrenOf_eq_nil
    intro x hx he
    rcases hbody.parent_cases hx with hp | ⟨y, hy, hp⟩
    · exact h.root a (by simp) (he ▸ hp)
    · exact h.root y (by simp [hy]) (he ▸ hp)
  rw [show a :: (body ++ rest) = [a] ++ (body ++ rest) from rfl, childrenOf_append, childrenOf_append, hnil]
  simp [childrenOf, ha]

end

theorem IsForest.scope_induction (hk : (l.map key).Nodup) (h : IsForest key parent none l)
    {motive : Option κ → List α → Prop} (nil : ∀ p, motive p [])
    (cons : ∀ p a body rest, a ∈ l → parent a = p → IsForest key parent (some (key a)) body →
      childrenOf parent l (some (key a)) = childrenOf parent body (some (key a)) →
      childrenOf parent (a :: (body ++ rest)) p = a :: childrenOf parent rest p →
      motive (some (key a)) body → motive p rest → motive p (a :: (body ++ rest))) : motive none l := by
  have hall : ∀ p seg, IsForest key parent p seg → ∀ pre post, Island key parent p l pre seg post →
      motive p seg := by
    intro p seg hseg
    induction hseg with
    | nil p => exact fun _ _ _ => nil p
    | @cons p a body rest ha hbody hrest ihb ihr =>
      intro pre post hi
      exact cons p a body rest (by simp [hi.split]) ha hbody (hi.childrenOf_eq hk ha hrest)
        (childrenOf_cons hi ha hbody) (ihb _ _ (hi.inBody hk ha hrest)) (ihr _ _ (hi.inRest hk ha hbody))
  exact hall none l h [] [] ⟨by simp, by simp, by simp⟩

end Children

end AteStudio.Forest
