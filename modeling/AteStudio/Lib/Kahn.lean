import Mathlib

/-!
# Kahn's algorithm

The queue is read while it grows. An edge `(a, b)` says that `a` comes before `b`, and a
repeated edge counts twice.
-/

namespace AteStudio.Kahn

open Relation List

variable {α : Type*} [DecidableEq α]

/-! ## The algorithm -/

variable (edges : List (α × α))

def indegree (y : α) : Int := edges.countP fun e => e.2 = y

def dependents (x : α) : List α := (edges.filter fun e => e.1 = x).map Prod.snd

/-- Takes one edge into `y` away. `y` joins the queue when that was its last one. -/
def relax (st : (α → Int) × List α) (y : α) : (α → Int) × List α :=
  (Function.update st.1 y (st.1 y - 1), if st.1 y - 1 = 0 then st.2 ++ [y] else st.2)

def loop (edges : List (α × α)) : Nat → (α → Int) → List α → List α → (α → Int) × List α
  | 0, indeg, _, done => (indeg, done)
  | _ + 1, indeg, [], done => (indeg, done)
  | fuel + 1, indeg, x :: queue, done =>
    let st := (dependents edges x).foldl relax (indeg, queue)
    loop edges fuel st.1 st.2 (done ++ [x])

def run (nodes start : List α) : (α → Int) × List α :=
  loop edges nodes.length (indegree edges) start []

def Acyclic : Prop := ∀ x, ¬ TransGen (fun a b => (a, b) ∈ edges) x x

variable {edges}

omit [DecidableEq α] in
theorem acyclic_of_rank (rank : α → Nat) (h : ∀ e ∈ edges, rank e.1 < rank e.2) : Acyclic edges := by
  have hlt {x y : α} (hxy : TransGen (fun a b => (a, b) ∈ edges) x y) : rank x < rank y := by
    induction hxy with
    | single he => exact h _ he
    | tail _ he ih => exact ih.trans (h _ he)
  intro x hx
  exact (hlt hx).false

theorem Acyclic.exists_first (h : Acyclic edges) {s : List α} (hs : s ≠ []) :
    ∃ m ∈ s, ∀ e ∈ edges, e.2 = m → e.1 ∉ s := by
  let r : {y // y ∈ s} → {y // y ∈ s} → Prop := fun a b => TransGen (fun a b => (a, b) ∈ edges) a.1 b.1
  have : IsTrans _ r := ⟨fun _ _ _ h1 h2 => TransGen.trans h1 h2⟩
  have : Std.Irrefl r := ⟨fun a ha => h a.1 ha⟩
  have : Finite {y // y ∈ s} := Fintype.finite (List.Subtype.fintype s)
  have hwf : WellFounded r := Finite.wellFounded_of_trans_of_irrefl r
  obtain ⟨y, hy⟩ := exists_mem_of_ne_nil s hs
  obtain ⟨m, _, hmin⟩ := hwf.has_min Set.univ ⟨⟨y, hy⟩, trivial⟩
  refine ⟨m.1, m.2, ?_⟩
  rintro ⟨a, b⟩ he rfl ha
  exact hmin ⟨a, ha⟩ trivial (TransGen.single he)

/-! ## One node -/

theorem foldl_relax_degree (ys : List α) (indeg : α → Int) (queue : List α) (z : α) :
    (ys.foldl relax (indeg, queue)).1 z = indeg z - ys.count z := by
  induction ys generalizing indeg queue with
  | nil => simp
  | cons y ys ih =>
    rw [foldl_cons, relax, ih, count_cons]
    by_cases h : z = y
    · subst h; simp; omega
    · have hy : y ≠ z := fun he => h he.symm
      simp [Function.update_of_ne h, hy]

variable {nodes done queue ys : List α} {indeg : α → Int}

/-- Nothing joins the queue twice. -/
theorem foldl_relax_taken (hys : ∀ y ∈ ys, y ∈ nodes) (hnodup : (done ++ queue).Nodup)
    (htaken : ∀ x ∈ done ++ queue, x ∈ nodes ∧ indeg x ≤ 0) :
    (done ++ (ys.foldl relax (indeg, queue)).2).Nodup ∧
      ∀ x ∈ done ++ (ys.foldl relax (indeg, queue)).2, x ∈ nodes ∧ (ys.foldl relax (indeg, queue)).1 x ≤ 0 := by
  induction ys generalizing indeg queue with
  | nil => exact ⟨hnodup, htaken⟩
  | cons y ys ih =>
    rw [forall_mem_cons] at hys
    rw [foldl_cons, relax]
    have hlower (x : α) (hx : x ∈ done ++ queue) : x ∈ nodes ∧ Function.update indeg y (indeg y - 1) x ≤ 0 := by
      refine ⟨(htaken x hx).1, ?_⟩
      have := (htaken x hx).2
      by_cases hxy : x = y
      · subst hxy
        rw [Function.update_self]
        omega
      · rwa [Function.update_of_ne hxy]
    split
    · next hzero =>
      dsimp only at hzero
      -- The degree was one, so `y` was not taken before.
      have hnew : y ∉ done ++ queue := fun hy => by
        have := (htaken y hy).2
        omega
      refine ih hys.2 ?_ fun x hx => ?_
      · rw [← append_assoc, nodup_append]
        refine ⟨hnodup, nodup_singleton y, ?_⟩
        rintro x hx _ hy rfl
        exact hnew (mem_singleton.mp hy ▸ hx)
      · rw [← append_assoc] at hx
        rcases mem_append.mp hx with hx | hx
        · exact hlower x hx
        · cases mem_singleton.mp hx
          exact ⟨hys.1, by rw [Function.update_self, hzero]⟩
    · exact ih hys.2 hnodup hlower

theorem mem_foldl_relax {z : α} (h : indeg z = 0 → z ∈ done ++ queue) (hz : (ys.foldl relax (indeg, queue)).1 z = 0) :
    z ∈ done ++ (ys.foldl relax (indeg, queue)).2 := by
  induction ys generalizing indeg queue with
  | nil => exact h hz
  | cons y ys ih =>
    refine ih (fun hzero => ?_) hz
    by_cases hzy : z = y
    · subst hzy
      rw [Function.update_self] at hzero
      simp [hzero]
    · rw [Function.update_of_ne hzy] at hzero
      split
      · rw [← append_assoc]
        exact mem_append_left _ (h hzero)
      · exact h hzero

/-! ## The invariant -/

def openEdges (edges : List (α × α)) (done : List α) (y : α) : Nat :=
  edges.countP fun e => e.2 = y ∧ e.1 ∉ done

structure Inv (edges : List (α × α)) (nodes : List α) (indeg : α → Int) (queue done : List α) : Prop where
  degree : ∀ y, indeg y = openEdges edges done y
  nodup : (done ++ queue).Nodup
  inside : ∀ y ∈ done ++ queue, y ∈ nodes
  ready : ∀ y ∈ nodes, y ∈ done ++ queue ↔ indeg y = 0
  order : ∀ l y r, done = l ++ y :: r → ∀ e ∈ edges, e.2 = y → e.1 ∈ l

theorem openEdges_snoc (edges : List (α × α)) (done : List α) (x y : α) (hx : x ∉ done) :
    openEdges edges done y = openEdges edges (done ++ [x]) y + (dependents edges x).count y := by
  induction edges with
  | nil => simp [openEdges, dependents]
  | cons e es ih =>
    obtain ⟨a, b⟩ := e
    simp only [openEdges, dependents, countP_cons, filter_cons] at ih ⊢
    rw [ih]
    by_cases hb : b = y
    · subst hb
      by_cases ha : a = x
      · subst ha; simp [hx]; omega
      · simp [ha]; omega
    · by_cases ha : a = x
      · subst ha; simp [hb]
      · simp [ha, hb]

theorem openEdges_eq_zero (edges : List (α × α)) (done : List α) (y : α) :
    openEdges edges done y = 0 ↔ ∀ e ∈ edges, e.2 = y → e.1 ∈ done := by
  simp only [openEdges, countP_eq_zero, decide_eq_true_eq]
  constructor
  · intro h e he hy
    by_contra hn
    exact h e he ⟨hy, hn⟩
  · rintro h e he ⟨hy, hn⟩
    exact hn (h e he hy)

theorem inv_step {x : α} (hclosed : ∀ e ∈ edges, e.2 ∈ nodes) (h : Inv edges nodes indeg (x :: queue) done) :
    Inv edges nodes ((dependents edges x).foldl relax (indeg, queue)).1
      ((dependents edges x).foldl relax (indeg, queue)).2 (done ++ [x]) := by
  have hx : x ∉ done := fun hd => (nodup_append.mp h.nodup).2.2 x hd x (by simp) rfl
  have hsplit : done ++ x :: queue = done ++ [x] ++ queue := append_cons ..
  have hdependents : ∀ y ∈ dependents edges x, y ∈ nodes := fun y hy => by
    obtain ⟨e, he, rfl⟩ := mem_map.mp hy
    exact hclosed e (mem_of_mem_filter he)
  have hdeg : ∀ y, ((dependents edges x).foldl relax (indeg, queue)).1 y =
      openEdges edges (done ++ [x]) y := by
    intro y
    rw [foldl_relax_degree, h.degree y, openEdges_snoc edges done x y hx]
    push_cast; omega
  obtain ⟨hnodup, htaken⟩ := foldl_relax_taken hdependents (hsplit ▸ h.nodup) fun y hy =>
    have hin := h.inside y (hsplit ▸ hy)
    ⟨hin, ((h.ready y hin).mp (hsplit ▸ hy)).le⟩
  refine ⟨hdeg, hnodup, fun y hy => (htaken y hy).1, fun y hy => ⟨fun hy' => ?_, ?_⟩, ?_⟩
  · have := (htaken y hy').2
    rw [hdeg] at this ⊢
    omega
  · exact mem_foldl_relax fun h0 => hsplit ▸ (h.ready y hy).mpr h0
  · intro l y r hl e he hey
    rcases eq_nil_or_concat r with rfl | ⟨r', z, rfl⟩
    · -- `y` is the node just taken: its degree was zero.
      obtain ⟨rfl, hxy⟩ := append_inj' hl rfl
      have hyx : x = y := by simpa using hxy
      subst hyx
      have hin : x ∈ nodes := h.inside x (by simp)
      have h0 := (h.ready x hin).mp (by simp)
      rw [h.degree x] at h0
      exact (openEdges_eq_zero edges done x).mp (by exact_mod_cast h0) e he hey
    · have hl' : done ++ [x] = (l ++ y :: r') ++ [z] := by simpa using hl
      obtain ⟨hd, -⟩ := append_inj' hl' rfl
      exact h.order l y r' hd e he hey

theorem loop_inv (hclosed : ∀ e ∈ edges, e.2 ∈ nodes)
    (fuel : Nat) (indeg : α → Int) (queue done : List α) (h : Inv edges nodes indeg queue done)
    (hfuel : nodes.length ≤ done.length + fuel) :
    Inv edges nodes (loop edges fuel indeg queue done).1 [] (loop edges fuel indeg queue done).2 := by
  induction fuel generalizing indeg queue done with
  | zero =>
    have hlen := (h.nodup.subperm h.inside).length_le
    rw [length_append] at hlen
    have hq : queue = [] := eq_nil_of_length_eq_zero (by omega)
    subst hq
    exact h
  | succ fuel ih =>
    cases queue with
    | nil => exact h
    | cons x queue =>
      exact ih _ _ _ (inv_step hclosed h) (by rw [length_append, length_singleton]; omega)

theorem inv_start {start : List α} (hnd : start.Nodup) (hstart : ∀ y, y ∈ start ↔ y ∈ nodes ∧ indegree edges y = 0) :
    Inv edges nodes (indegree edges) start [] := by
  refine ⟨?_, by simpa using hnd, ?_, ?_, by simp⟩
  · intro y; simp [indegree, openEdges]
  · intro y hy
    exact ((hstart y).mp (by simpa using hy)).1
  · intro y hy
    simp [hstart y, hy]

/-! ## What the result says -/

theorem idxOf_lt_of_nodup {l r : List α} {a b : α} (h : (l ++ r).Nodup) (ha : a ∈ l) (hb : b ∈ r) :
    (l ++ r).idxOf a < (l ++ r).idxOf b := by
  have hbl : b ∉ l := fun hb' => (nodup_append.mp h).2.2 b hb' b hb rfl
  rw [idxOf_append_of_mem ha, idxOf_append_of_notMem hbl]
  have := idxOf_lt_length_of_mem ha
  omega

theorem order_lt {nodes indeg queue done} (h : Inv (α := α) edges nodes indeg queue done) (hall : ∀ y ∈ nodes, y ∈ done)
    (hclosed : ∀ e ∈ edges, e.2 ∈ nodes) {a b : α} (hab : (a, b) ∈ edges) :
    done.idxOf a < done.idxOf b := by
  have hb : b ∈ done := hall b (hclosed _ hab)
  obtain ⟨l, r, hl⟩ := append_of_mem hb
  have ha : a ∈ l := h.order l b r hl _ hab rfl
  have hnd := (nodup_append.mp h.nodup).1
  rw [hl] at hnd ⊢
  exact idxOf_lt_of_nodup hnd ha mem_cons_self

theorem run_length_iff {start : List α} (hnodes : nodes.Nodup)
    (hstartnd : start.Nodup) (hclosed : ∀ e ∈ edges, e.1 ∈ nodes ∧ e.2 ∈ nodes)
    (hstart : ∀ y, y ∈ start ↔ y ∈ nodes ∧ indegree edges y = 0) :
    (run edges nodes start).2.length = nodes.length ↔ Acyclic edges := by
  have hinv := loop_inv (fun e he => (hclosed e he).2) nodes.length _ _ _
    (inv_start hstartnd hstart) (by simp)
  rw [← run] at hinv
  generalize (run edges nodes start).1 = indeg at hinv
  generalize (run edges nodes start).2 = done at hinv ⊢
  have hnd : done.Nodup := by simpa using hinv.nodup
  have hsub : done ⊆ nodes := fun y hy => hinv.inside y (by simpa using hy)
  constructor
  · intro hlen
    have hall : ∀ y ∈ nodes, y ∈ done :=
      fun y hy => ((hnd.subperm hsub).perm_of_length_le hlen.ge).symm.subset hy
    exact acyclic_of_rank done.idxOf fun e he => order_lt hinv hall (fun e he => (hclosed e he).2) he
  · intro hacyc
    by_contra hlen
    -- Some node is left. A first one among those has an edge from another one.
    have hleft : nodes.filter (· ∉ done) ≠ [] := by
      intro hnil
      have hn : ∀ y ∈ nodes, y ∈ done := by simpa [filter_eq_nil_iff] using hnil
      exact hlen (le_antisymm (hnd.subperm hsub).length_le (hnodes.subperm hn).length_le)
    obtain ⟨m, hm, hmin⟩ := hacyc.exists_first hleft
    have hm' : m ∈ nodes ∧ m ∉ done := by simpa using hm
    have hdeg : ¬ indeg m = 0 := fun h0 => hm'.2 (by simpa using (hinv.ready m hm'.1).mpr h0)
    rw [hinv.degree m] at hdeg
    have hopen : ¬ ∀ e ∈ edges, e.2 = m → e.1 ∈ done := by
      rw [← openEdges_eq_zero]; exact_mod_cast hdeg
    push Not at hopen
    obtain ⟨e, he, hem, ha⟩ := hopen
    exact hmin e he hem (by simpa using ⟨(hclosed e he).1, ha⟩)

end AteStudio.Kahn
