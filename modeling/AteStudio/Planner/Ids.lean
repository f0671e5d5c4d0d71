import AteStudio.Planner.Segments

/-!
# Step ids

`_disambiguate_step_ids` numbers repeated ids, and points every dependency on one to the last step that had it.
-/

namespace AteStudio.Planner

open List

/-! ## Numbered names -/

def suffixed (id : String) (n : Nat) : String := id ++ "_d" ++ toString n

theorem toList_suffixed (id : String) (n : Nat) :
    (suffixed id n).toList = id.toList ++ '_' :: 'd' :: Nat.toDigits 10 n := by
  have hdigits : (toString n).toList = Nat.toDigits 10 n := by
    simp [toString, Nat.repr]
  rw [suffixed, String.toList_append, String.toList_append, hdigits]
  simp

variable {x : String}

theorem suffixed_inj {y : String} {n m : Nat} (h : suffixed x n = suffixed y m) : x = y ∧ n = m := by
  have hlist := congrArg (fun s => s.toList.reverse) h
  simp only [toList_suffixed, reverse_append, reverse_cons, append_assoc, singleton_append] at hlist
  have hdigits : ∀ k : Nat, ∀ c ∈ (Nat.toDigits 10 k).reverse, c.isDigit = true := fun k c hc =>
    Json.isDigit_of_mem_toDigits (mem_reverse.mp hc)
  have hspan : ∀ (k : Nat) (rest : List Char),
      ((Nat.toDigits 10 k).reverse ++ 'd' :: rest).takeWhile Char.isDigit = (Nat.toDigits 10 k).reverse := by
    intro k rest
    rw [takeWhile_append_of_pos (hdigits k), takeWhile_cons_of_neg (by decide), append_nil]
  have hnm : (Nat.toDigits 10 n).reverse = (Nat.toDigits 10 m).reverse := by
    rw [← hspan n _, ← hspan m _]
    exact congrArg _ hlist
  have hn : n = m := by
    have := congrArg Json.readNat? (reverse_injective hnm)
    simpa [Json.readNat?_toDigits] using this
  subst hn
  have hx : 'd' :: '_' :: x.toList.reverse = 'd' :: '_' :: y.toList.reverse := append_cancel_left hlist
  simp only [List.cons.injEq, true_and, reverse_inj, String.toList_inj] at hx
  exact ⟨hx, rfl⟩

theorem suffixed_ne (x : String) (n : Nat) : suffixed x n ≠ x := by
  intro h
  have := congrArg (fun s => s.toList.length) h
  simp [toList_suffixed] at this

def name (done : List String) (id : String) : String := if done.count id = 0 then id else suffixed id (done.count id)

def numbered : List String → List String → List String
  | _, [] => []
  | done, id :: rest => name done id :: numbered (done ++ [id]) rest

def target (all : List String) (id : String) : String :=
  if all.count id ≤ 1 then id else suffixed id (all.count id - 1)

theorem numbered_append (done l l' : List String) :
    numbered done (l ++ l') = numbered done l ++ numbered (done ++ l) l' := by
  induction l generalizing done with
  | nil => simp [numbered]
  | cons x l ih => simp [numbered, ih]

variable {done l : List String}

theorem mem_numbered {y : String} : y ∈ numbered done l ↔ ∃ l₁ x l₂, l = l₁ ++ x :: l₂ ∧ y = name (done ++ l₁) x := by
  induction l generalizing done with
  | nil => simp [numbered]
  | cons a l ih =>
    rw [numbered, mem_cons, ih]
    constructor
    · rintro (rfl | ⟨l₁, x, l₂, rfl, rfl⟩)
      · exact ⟨[], a, l, rfl, by simp⟩
      · exact ⟨a :: l₁, x, l₂, rfl, by simp⟩
    · rintro ⟨l₁, x, l₂, hl, rfl⟩
      cases l₁ with
      | nil =>
        obtain ⟨rfl, rfl⟩ := List.cons.inj hl
        exact .inl (by simp)
      | cons b l₁ =>
        obtain ⟨rfl, rfl⟩ := List.cons.inj hl
        exact .inr ⟨l₁, x, l₂, rfl, by simp⟩

theorem exists_occurrence {n : Nat} (h : n < l.count x) : ∃ l₁ l₂, l = l₁ ++ x :: l₂ ∧ l₁.count x = n := by
  induction l generalizing n with
  | nil => simp at h
  | cons a l ih =>
    by_cases ha : a = x
    · subst ha
      cases n with
      | zero => exact ⟨[], l, rfl, rfl⟩
      | succ n =>
        rw [count_cons_self] at h
        obtain ⟨l₁, l₂, rfl, hcount⟩ := ih (by omega : n < l.count a)
        exact ⟨a :: l₁, l₂, rfl, by rw [count_cons_self, hcount]⟩
    · rw [count_cons_of_ne (by simpa using ha)] at h
      obtain ⟨l₁, l₂, rfl, hcount⟩ := ih h
      exact ⟨a :: l₁, l₂, rfl, by rw [count_cons_of_ne (by simpa using ha), hcount]⟩

theorem mem_numbered_self (hdone : done.count x = 0) (hx : x ∈ l) : x ∈ numbered done l := by
  obtain ⟨l₁, l₂, rfl, hcount⟩ := exists_occurrence (count_pos_iff.mpr hx)
  exact mem_numbered.mpr ⟨l₁, x, l₂, rfl, by simp [name, count_append, hdone, hcount]⟩

theorem name_eq_name {d d' : List String} {y : String} (h : name d x = name d' y) :
    (x = y ∧ d.count x = d'.count y) ∨ (x ≠ y ∧ d.count x = 0 ∧ 0 < d'.count y ∧ x = suffixed y (d'.count y)) ∨
      (x ≠ y ∧ 0 < d.count x ∧ d'.count y = 0 ∧ y = suffixed x (d.count x)) := by
  unfold name at h
  split at h <;> split at h
  · exact .inl ⟨h, by subst h; simp_all⟩
  · refine .inr (.inl ⟨fun hxy => ?_, by assumption, by omega, h⟩)
    subst hxy
    exact suffixed_ne x _ h.symm
  · refine .inr (.inr ⟨fun hxy => ?_, by omega, by assumption, h.symm⟩)
    subst hxy
    exact suffixed_ne x _ h
  · obtain ⟨rfl, hn⟩ := suffixed_inj h
    exact .inl ⟨rfl, hn⟩

/-- The numbering makes ids distinct unless one of them looks like a numbered one. -/
theorem numbered_nodup_iff (l : List String) :
    (numbered [] l).Nodup ↔ ∀ x n, 0 < n → n < l.count x → suffixed x n ∉ l := by
  constructor
  · intro hnodup x n hpos hn hmem
    obtain ⟨l₁, l₂, rfl, hcount⟩ := exists_occurrence hn
    have hname : name l₁ x = suffixed x n := by simp [name, hcount, Nat.pos_iff_ne_zero.mp hpos]
    rw [numbered_append, nil_append, numbered, hname] at hnodup
    obtain ⟨-, hright, hdisjoint⟩ := nodup_append.mp hnodup
    by_cases hleft : suffixed x n ∈ l₁
    · exact hdisjoint _ (mem_numbered_self rfl hleft) _ mem_cons_self rfl
    · have hin : suffixed x n ∈ l₂ := by
        simpa [hleft, suffixed_ne x n] using hmem
      refine (nodup_cons.mp hright).1 (mem_numbered_self ?_ hin)
      rw [count_append, count_eq_zero.mpr hleft, count_singleton]
      simp [(suffixed_ne x n).symm]
  · intro h
    have key : ∀ done rest, done ++ rest = l → (numbered done rest).Nodup := by
      intro done rest
      induction rest generalizing done with
      | nil => exact fun _ => nodup_nil
      | cons x rest ih =>
        intro hl
        refine nodup_cons.mpr ⟨fun hmem => ?_, ih (done ++ [x]) (by simp [hl])⟩
        obtain ⟨l₁, y, l₂, rfl, heq⟩ := mem_numbered.mp hmem
        have hsplit : l = (done ++ [x] ++ l₁) ++ y :: l₂ := by simp [← hl]
        rcases name_eq_name heq with ⟨rfl, hcount⟩ | ⟨-, -, hpos, hx⟩ | ⟨-, hpos, -, hy⟩
        · -- The later occurrence has the earlier one before it.
          simp at hcount
        · refine h y _ hpos ?_ (by rw [← hx, ← hl]; simp)
          rw [hsplit]
          generalize done ++ [x] ++ l₁ = before
          rw [count_append, count_cons_self]
          omega
        · refine h x _ hpos ?_ (by rw [← hy, ← hl]; simp)
          rw [← hl, count_append, count_cons_self]
          omega
    exact key [] l rfl

theorem target_mem_numbered {rest : List String} (hdone : x ∈ done) (hx : x ∈ rest) :
    target (done ++ rest) x ∈ numbered done rest := by
  have hpos := count_pos_iff.mpr hdone
  have hpos' := count_pos_iff.mpr hx
  obtain ⟨l₁, l₂, rfl, hcount⟩ := exists_occurrence (show rest.count x - 1 < rest.count x by omega)
  refine mem_numbered.mpr ⟨l₁, x, l₂, rfl, ?_⟩
  have hall : (done ++ (l₁ ++ x :: l₂)).count x = done.count x + (l₁ ++ x :: l₂).count x := count_append
  have hbefore : (done ++ l₁).count x = done.count x + l₁.count x := count_append
  rw [target, if_neg (by omega), name, if_neg (by omega), hbefore]
  congr 1
  omega

theorem target_eq_name_iff (done : List String) (x : String) (rest : List String) :
    target (done ++ x :: rest) x = name done x ↔ x ∉ rest := by
  have hall : (done ++ x :: rest).count x = done.count x + rest.count x + 1 := by
    simp [count_append]
    omega
  rw [← count_eq_zero, target, name]
  by_cases hdone : done.count x = 0
  · rw [if_pos hdone]
    by_cases hrest : rest.count x = 0
    · simp [hall, hdone, hrest]
    · rw [if_neg (by omega)]
      simp [suffixed_ne, hrest]
  · rw [if_neg (by omega), if_neg hdone]
    constructor
    · intro h
      have := (suffixed_inj h).2
      omega
    · intro h
      rw [hall, h]
      simp

/-! ## The renaming -/

structure Renaming.Counts (r : Renaming) (done : List String) : Prop where
  seen : ∀ x, r.seen.getD x 0 = done.count x
  renames : ∀ x, r.renames.getD x x = target done x

theorem counts_start : Renaming.Counts {} [] := ⟨fun _ => rfl, fun _ => rfl⟩

variable {r : Renaming}

theorem renameStep_spec (h : r.Counts done) (st : PlanStep) :
    (renameStep r st).1.Counts (done ++ [st.id]) ∧ (renameStep r st).2 = { st with id := name done st.id } := by
  have hcount : ∀ x, (done ++ [st.id]).count x = done.count x + if x = st.id then 1 else 0 := by
    intro x
    rw [count_append]
    by_cases hx : x = st.id
    · simp [hx]
    · simp [hx, Ne.symm hx]
  have hseen : ∀ x, (r.seen.set st.id (r.seen.getD st.id 0 + 1)).getD x 0 = (done ++ [st.id]).count x := by
    intro x
    rw [Dict.getD, Dict.get?_set, hcount, ← h.seen]
    split
    · next hx => simp [hx, h.seen]
    · simp [Dict.getD]
  have hother : ∀ x, x ≠ st.id → target (done ++ [st.id]) x = target done x := by
    intro x hx
    simp only [target, hcount, if_neg hx, Nat.add_zero]
  have hself : target (done ++ [st.id]) st.id =
      if done.count st.id = 0 then st.id else suffixed st.id (done.count st.id) := by
    simp only [target, hcount, if_true]
    by_cases h0 : done.count st.id = 0
    · simp [h0]
    · rw [if_neg (by omega), if_neg h0, Nat.add_sub_cancel]
  unfold renameStep
  simp only
  split
  · next hn =>
    rw [h.seen] at hn
    refine ⟨⟨hseen, fun x => ?_⟩, ?_⟩
    · by_cases hx : x = st.id
      · rw [hx, hself, if_pos hn, h.renames, target, if_pos (by omega)]
      · rw [hother x hx, h.renames]
    · simp [name, hn]
  · next hn =>
    rw [h.seen] at hn
    refine ⟨⟨hseen, fun x => ?_⟩, ?_⟩
    · rw [Dict.getD, Dict.get?_set]
      split
      · next hx => rw [hx, hself, if_neg hn, h.seen]; rfl
      · next hx => rw [← Dict.getD, h.renames, hother x hx]
    · simp [name, hn, suffixed, h.seen]

def idsOf (steps : List PlanStep) : List String := steps.map (·.id)

def allIds (segments : List Segment) : List String := segments.flatMap fun seg => idsOf seg.steps

@[simp] theorem idsOf_nil : idsOf [] = [] := rfl

@[simp] theorem idsOf_cons (st : PlanStep) (rest : List PlanStep) : idsOf (st :: rest) = st.id :: idsOf rest := rfl

@[simp] theorem allIds_nil : allIds [] = [] := rfl

@[simp] theorem allIds_cons (seg : Segment) (rest : List Segment) :
    allIds (seg :: rest) = idsOf seg.steps ++ allIds rest := by
  simp [allIds]

/-- The steps with their final names, `done` before them and `all` in the whole plan. -/
def finalSteps (all : List String) : List String → List PlanStep → List PlanStep
  | _, [] => []
  | done, st :: rest =>
    { st with id := name done st.id, dependsOn := st.dependsOn.map (target all) } :: finalSteps all (done ++ [st.id]) rest

theorem finalSteps_ne_nil (all done : List String) {steps : List PlanStep} (h : steps ≠ []) :
    finalSteps all done steps ≠ [] := by
  cases steps with
  | nil => exact absurd rfl h
  | cons st rest => exact cons_ne_nil _ _

def Segment.final (all done : List String) (seg : Segment) : Segment :=
  { seg with steps := finalSteps all done seg.steps, nonempty := finalSteps_ne_nil all done seg.nonempty }

def finalSegments (all : List String) : List String → List Segment → List Segment
  | _, [] => []
  | done, seg :: rest =>
    seg.final all done :: finalSegments all (done ++ idsOf seg.steps) rest

theorem renameSteps_spec (h : r.Counts done) (steps : List PlanStep) :
    (renameSteps r steps).1.Counts (done ++ idsOf steps) ∧
      ∀ {renames : Dict String String} {all : List String}, (∀ x, renames.getD x x = target all x) →
        (renameSteps r steps).2.map (redirectStep renames) = finalSteps all done steps := by
  induction steps generalizing r done with
  | nil => exact ⟨by simpa [renameSteps] using h, fun _ => rfl⟩
  | cons st rest ih =>
    obtain ⟨hcounts, hstep⟩ := renameStep_spec h st
    obtain ⟨hrest, hmap⟩ := ih hcounts
    refine ⟨by simpa [renameSteps] using hrest, fun hall => ?_⟩
    simp only [renameSteps, map_cons, hmap hall, finalSteps, hstep, redirectStep, hall]

theorem renameSegments_spec (h : r.Counts done) (segments : List Segment) :
    (renameSegments r segments).1.Counts (done ++ allIds segments) ∧
      ∀ {renames : Dict String String} {all : List String}, (∀ x, renames.getD x x = target all x) →
        (renameSegments r segments).2.map (·.mapSteps (redirectStep renames)) =
          finalSegments all done segments := by
  induction segments generalizing r done with
  | nil => exact ⟨by simpa [renameSegments] using h, fun _ => rfl⟩
  | cons seg rest ih =>
    obtain ⟨hcounts, hsteps⟩ := renameSteps_spec h seg.steps
    obtain ⟨hrest, hmap⟩ := ih hcounts
    refine ⟨by simpa [renameSegments] using hrest, fun hall => ?_⟩
    rw [renameSegments, map_cons, hmap hall, finalSegments]
    simp only [Segment.mapSteps, Segment.final, hsteps hall]

theorem disambiguateStepIds_eq (py : Python) (segments : List Segment) (warnings : List String) :
    (disambiguateStepIds py segments warnings).1 = finalSegments (allIds segments) [] segments := by
  obtain ⟨hcounts, hmap⟩ := renameSegments_spec counts_start segments
  rw [nil_append] at hcounts
  rw [← hmap hcounts.renames]
  unfold disambiguateStepIds
  simp only
  split
  · next hnone =>
    have hid : redirectStep (renameSegments {} segments).1.renames = id := by
      funext st
      have hdep : ∀ d, (renameSegments {} segments).1.renames.getD d d = d := by
        intro d
        rw [Dict.getD, Dict.get?, hnone]
        rfl
      simp only [redirectStep, hdep, map_id', id]
    simp only [hid, Segment.mapSteps, map_id, map_id']
  · rfl

theorem planFlow_segments (py : Python) (binds : Bindings) (includeDraft : Bool) (bundle : BundleModel) :
    (planFlow py binds includeDraft bundle).segments =
      finalSegments (allIds (plannedSegments py binds includeDraft bundle)) []
        (plannedSegments py binds includeDraft bundle) :=
  disambiguateStepIds_eq py _ _

variable (all done : List String) (steps : List PlanStep) (segments : List Segment)

theorem idsOf_finalSteps :
    idsOf (finalSteps all done steps) = numbered done (idsOf steps) := by
  induction steps generalizing done with
  | nil => rfl
  | cons st rest ih => simp only [finalSteps, idsOf_cons, numbered, ih]

theorem allIds_finalSegments :
    allIds (finalSegments all done segments) = numbered done (allIds segments) := by
  induction segments generalizing done with
  | nil => rfl
  | cons seg rest ih =>
    simp only [finalSegments, Segment.final, allIds_cons, numbered_append, idsOf_finalSteps, ih]

theorem name_ne (done : List String) (hx : x ≠ "") : name done x ≠ "" := by
  unfold name
  split
  · exact hx
  · simp [suffixed]

/-! ## What a flow plan keeps -/

theorem finalSteps_content :
    (finalSteps all done steps).map (·.content) = steps.map (·.content) := by
  induction steps generalizing done with
  | nil => rfl
  | cons st rest ih => exact congrArg (st.content :: ·) (ih _)

theorem finalSegments_content :
    (finalSegments all done segments).map (·.content) = segments.map (·.content) := by
  induction segments generalizing done with
  | nil => rfl
  | cons seg rest ih =>
    rw [finalSegments, map_cons, ih, map_cons]
    simp only [Segment.content, Segment.mapSteps, Segment.final, finalSteps_content]

section

variable {py : Python} {binds : Bindings} {includeDraft : Bool} {bundle : BundleModel}

theorem planFlow_content : (planFlow py binds includeDraft bundle).segments.map (·.content) =
    (plannedSegments py binds includeDraft bundle).map (·.content) := by
  rw [planFlow_segments, finalSegments_content]

theorem mem_allIds_planFlow {id : String} (hid : id ∈ allIds (planFlow py binds includeDraft bundle).segments) :
    ∃ done, ∃ seg ∈ plannedSegments py binds includeDraft bundle, ∃ st ∈ seg.steps, name done st.id = id := by
  rw [planFlow_segments, allIds_finalSegments] at hid
  obtain ⟨l₁, x, l₂, hl, rfl⟩ := mem_numbered.mp hid
  have hx : x ∈ allIds (plannedSegments py binds includeDraft bundle) := by simp [hl]
  obtain ⟨seg, hseg, hx⟩ := mem_flatMap.mp hx
  obtain ⟨st, hst, rfl⟩ := mem_map.mp hx
  exact ⟨_, seg, hseg, st, hst, rfl⟩

theorem planFlow_named {seg : Segment} (h : seg ∈ (planFlow py binds includeDraft bundle).segments) :
    Named seg.steps where
  ne_nil := seg.nonempty
  id_ne st hst := by
    obtain ⟨done, seg', hseg', st', hst', hid⟩ := mem_allIds_planFlow (mem_flatMap.mpr ⟨seg, h, mem_map_of_mem hst⟩)
    obtain ⟨e, -, segIndex, hsteps, -⟩ := mem_plannedSegments hseg'
    rw [hsteps] at hst'
    exact hid ▸ name_ne done ((sound_planBucket segIndex e.2).chained.id_ne st' hst')

end

end AteStudio.Planner
