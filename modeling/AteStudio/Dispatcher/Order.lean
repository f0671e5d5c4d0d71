import AteStudio.Compiler.Lookup
import AteStudio.Dispatcher.Code
import AteStudio.Lib.Waves

/-! # What the dispatcher runs when every script passes -/

namespace AteStudio.Dispatcher

open List Waves

open Compiler (Occ Leaf Frame occs occsItem bodies bodiesItem planScopes loopFrame)
open Waves (Before)

/-! ## Plans of scripts and counted loops -/

mutual
def simpleItem : Item → Bool
  | .step s _ => s.type = none ∨ s.type = some .script ∨ s.type = some .action
  | .loop l steps => (l.loopType = .forLoop ∧ 1 ≤ l.count.getD 0) ∧ simple steps
  | .raw _ => false

/-- Scripts, actions and FOR loops with a count of at least one. -/
def simple : List Item → Bool
  | [] => true
  | item :: items => simpleItem item && simple items
end

variable {items : List Item}

theorem simple_iff : simple items = true ↔ ∀ item ∈ items, simpleItem item = true := by
  induction items with
  | nil => simp [simple]
  | cons item items ih => simp [simple, ih]

def Passes {σ : Type} (env : Env σ) : Prop :=
  ∀ executor, env.scriptExecutor = some executor → ∀ world s, (executor world s).1 = true

/-- The dependencies of a scope name items of that scope and have no cycle. -/
structure Sequenced (items : List Item) : Prop where
  distinct : (items.map Item.id).Nodup
  named : ∀ item ∈ items, ∀ d ∈ deps item, d ∈ items.map Item.id
  acyclic : Kahn.Acyclic (Waves.edges Item.id deps items)

/-! ## Outcomes -/

def Leaf.script : Leaf → String
  | .step s => s.script
  | .deferred _ => ""

def iterationPath : List Frame → String
  | [] => ""
  | f :: p => f.container ++ ".iter" ++ toString ((f.iter.map Prod.fst).getD 0) ++ "." ++ iterationPath p

def dispatchId (o : Occ) : String := iterationPath o.path ++ o.leaf.id

def passed (o : Occ) : StepOutcome :=
  { stepId := dispatchId o, stepType := "script", status := .pass
    detail := "script '" ++ Leaf.script o.leaf ++ "' (attempt " ++ toString 1 ++ ")" }

theorem inIteration_passed (l : YamlLoop) (n : Nat) (o : Occ) :
    inIteration l n (passed o) = passed (o.within [loopFrame l n]) := by
  simp [inIteration, passed, dispatchId, iterationPath, loopFrame, String.append_assoc]

/-- Run without an abort, `execute` reports the occurrences in `order`, all passed. -/
def RunsTo {σ : Type} (execute : RunState σ → List StepOutcome × RunState σ) (order : List Occ) : Prop :=
  ∀ st, st.aborted = false → ∃ st', execute st = (order.map passed, st') ∧ st'.aborted = false

section

variable {σ : Type} {env : Env σ} {planFixture : Option String}

theorem runAttempts_pass {executor : σ → YamlStep → Bool × σ} (h : ∀ world s, (executor world s).1 = true)
    (s : YamlStep) (left made : Nat) (world : σ) :
    runAttempts executor s (left + 1) made world = (true, made + 1, (executor world s).2) := by
  rw [runAttempts]
  have hw := h world s
  rcases he : executor world s with ⟨ok, world'⟩
  rw [he] at hw
  simp only at hw
  subst hw
  rfl

theorem executeStep_pass (henv : Passes env) {s : YamlStep}
    (hs : s.type = none ∨ s.type = some .script ∨ s.type = some .action) (hretry : 0 ≤ s.retry) :
    RunsTo (executeStep env planFixture s) [⟨[], .step s⟩] := by
  intro st hst
  have hdispatch : dispatchStep env planFixture s st = dispatchScript env s st := by
    unfold dispatchStep
    rcases hs with hs | hs | hs <;> rw [hs] <;> rfl
  have hexec : ∀ world s, ((env.scriptExecutor.getD fun world _ => (true, world)) world s).1 = true := by
    intro world s
    cases he : env.scriptExecutor with
    | none => rfl
    | some executor => exact henv executor he world s
  obtain ⟨left, hleft⟩ : ∃ left, (1 + s.retry).toNat = left + 1 := ⟨s.retry.toNat, by omega⟩
  simp only [executeStep, hdispatch, dispatchScript, hleft, runAttempts_pass hexec, if_true]
  exact ⟨_, rfl, hst⟩

/-! ## Scopes -/

def Runs {α : Type} (f : α → Entry σ) (out : α → List StepOutcome) (items : List α) : Prop :=
  ∀ a ∈ items, ∀ st, st.aborted = false → ∃ st', (f a).execute st = (out a, st') ∧ st'.aborted = false

theorem runWave_pass {α : Type} {f : α → Entry σ} {out : α → List StepOutcome} (ready : List α) :
    ∀ completed st, st.aborted = false → Runs f out ready →
      ∃ st', runWave (ready.map f) completed st =
        (ready.flatMap out, completed ++ ready.map (Entry.id ∘ f), st') ∧ st'.aborted = false := by
  induction ready with
  | nil =>
    intro completed st hst _
    exact ⟨st, by simp [runWave], hst⟩
  | cons a ready ih =>
    intro completed st hst hready
    obtain ⟨st₁, ha, hst₁⟩ := hready a (by simp) st hst
    obtain ⟨st₂, hrest, hst₂⟩ := ih (completed ++ [(f a).id]) st₁ hst₁ fun b hb => hready b (by simp [hb])
    exact ⟨st₂, by simp [runWave, hst, ha, hrest], hst₂⟩

theorem runEntries_pass {α : Type} {f : α → Entry σ} {out : α → List StepOutcome} (fuel : Nat) :
    ∀ remaining completed st, st.aborted = false → Runs f out remaining →
      (waves (Entry.id ∘ f) (Entry.deps ∘ f) fuel remaining completed).2 = [] →
      ∃ st', runEntries fuel (remaining.map f) completed st =
        ((waves (Entry.id ∘ f) (Entry.deps ∘ f) fuel remaining completed).1.flatMap out, st') ∧
          st'.aborted = false := by
  induction fuel with
  | zero =>
    intro remaining completed st hst _ _
    exact ⟨st, by simp [runEntries, waves], hst⟩
  | succ fuel ih =>
    intro remaining completed st hst hrun hall
    have hready : (fun e : Entry σ => e.isReady completed) ∘ f = isReady (Entry.deps ∘ f) completed := rfl
    have hwait : (fun e : Entry σ => !e.isReady completed) ∘ f =
        fun a => !isReady (Entry.deps ∘ f) completed a := rfl
    unfold runEntries
    unfold waves at hall ⊢
    simp only [filter_map, hready, hwait, isEmpty_map]
    split at hall
    · simp only at hall
      subst hall
      exact ⟨st, by simp, hst⟩
    · rename_i hsome
      have hne : remaining ≠ [] := by
        rintro rfl
        simp at hsome
      simp only at hall
      rw [if_neg (by simpa using hne), if_neg hsome, if_neg hsome]
      obtain ⟨st₁, hwave, hst₁⟩ := runWave_pass (remaining.filter (isReady (Entry.deps ∘ f) completed))
        completed st hst fun a ha => hrun a (mem_filter.mp ha).1
      obtain ⟨st₂, hrest, hst₂⟩ := ih _ _ st₁ hst₁ (fun a ha => hrun a (mem_filter.mp ha).1) hall
      exact ⟨st₂, by simp only [hwave, hrest, flatMap_append], hst₂⟩

theorem entries_eq_map (items : List Item) : entries env planFixture items = items.map (entry env planFixture) := by
  induction items with
  | nil => simp [entries]
  | cons item items ih => rw [entries, ih, map_cons]

theorem entry_id : Entry.id ∘ entry env planFixture = Item.id := by
  funext item
  cases item <;> simp only [Function.comp, entry, Item.id]

theorem entry_deps : Entry.deps ∘ entry env planFixture = deps := by
  funext item
  cases item <;> simp only [Function.comp, entry, deps]

/-- The scopes in `bs` run in order: what an item depends on stands before it. -/
def Ordered (order : List Occ) (bs : List (List Frame × List Item)) : Prop :=
  ∀ b ∈ bs, ∀ i ∈ b.2, ∀ j ∈ b.2, i.id ∈ deps j → ∀ o ∈ occsItem i, ∀ o' ∈ occsItem j,
    Before order (o.within b.1) (o'.within b.1)

def ItemRuns (env : Env σ) (planFixture : Option String) (item : Item) (order : List Occ) : Prop :=
  order.Perm (occsItem item) ∧ RunsTo (entry env planFixture item).execute order ∧ Ordered order (bodiesItem item)

def ScopeRuns (env : Env σ) (planFixture : Option String) (items : List Item) (order : List Occ) : Prop :=
  order.Perm (occs items) ∧ RunsTo (runScope (entries env planFixture items)) order ∧
    Ordered order (planScopes items)

theorem scopeRuns_of_items (hseq : Sequenced items) (h : ∀ item ∈ items, ∃ order, ItemRuns env planFixture item order) :
    ∃ order, ScopeRuns env planFixture items order := by
  choose! ord hord using h
  have hall := waves_complete hseq.named hseq.acyclic
  have hbefore {i j : Item} (hi : i ∈ items) (hj : j ∈ items) := waves_before hseq.distinct hall hi hj
  have hperm := @waves_perm _ _ _ Item.id deps items.length items []
  rw [hall, append_nil] at hperm
  have hruns : RunsTo (runScope (entries env planFixture items))
      ((waves Item.id deps items.length items []).1.flatMap ord) := by
    intro st hst
    have hout : Runs (entry env planFixture) (fun item => (ord item).map passed) items :=
      fun item hi => (hord item hi).2.1
    obtain ⟨st', hrun, hst'⟩ := runEntries_pass items.length items [] st hst hout
      (by rw [entry_id, entry_deps]; exact hall)
    refine ⟨st', ?_, hst'⟩
    rw [runScope, entries_eq_map, length_map, hrun, entry_id, entry_deps, map_flatMap]
  generalize (waves Item.id deps items.length items []).1 = ws at hbefore hperm hruns
  refine ⟨ws.flatMap ord, ?_, hruns, ?_⟩
  · rw [Compiler.occs_eq_flatMap]
    exact (List.Perm.flatMap_left _ fun item hi => (hord item (hperm.subset hi)).1).trans
      (hperm.flatMap_right _)
  · intro b hb i hi j hj hij o ho o' ho'
    rcases mem_cons.mp hb with rfl | hb
    · refine (hbefore hi hj hij).flatMap_of ?_ ?_
      · exact (hord i hi).1.symm.subset ho
      · exact (hord j hj).1.symm.subset ho'
    · rw [Compiler.bodies_eq_flatMap] at hb
      obtain ⟨item, hitem, hb⟩ := mem_flatMap.mp hb
      exact Before.flatMap (hperm.symm.subset hitem) ((hord item hitem).2.2 b hb i hi j hj hij o ho o' ho')

/-! ## Loops -/

variable {l : YamlLoop}

theorem executeLoop_pass {body : RunState σ → List StepOutcome × RunState σ} {order : List Occ}
    (hbody : RunsTo body order) (ns : List Nat) :
    RunsTo (executeLoop l body ns) (ns.flatMap fun n => order.map (.within [loopFrame l n])) := by
  induction ns with
  | nil =>
    intro st hst
    exact ⟨st, by simp [executeLoop], hst⟩
  | cons n ns ih =>
    intro st hst
    obtain ⟨st₁, hrun, hst₁⟩ := hbody st hst
    obtain ⟨st₂, hrest, hst₂⟩ := ih st₁ hst₁
    refine ⟨st₂, ?_, hst₂⟩
    simp [executeLoop, hst, hrun, hrest, inIteration_passed, Function.comp_def]

def Tried : Leaf → Prop
  | .step s => 0 ≤ s.retry
  | .deferred _ => True

instance : DecidablePred Tried
  | .step s => inferInstanceAs (Decidable (0 ≤ s.retry))
  | .deferred _ => inferInstanceAs (Decidable True)

variable {steps : List Item}

theorem loop_counted (h : simpleItem (.loop l steps) = true) :
    Compiler.expands l = true ∧ 1 ≤ Compiler.iterations l ∧ iterations l = Compiler.iterations l ∧
      simple steps = true := by
  simp only [simpleItem, Bool.decide_and, Bool.and_eq_true, decide_eq_true_eq] at h
  obtain ⟨⟨hfor, hcount⟩, hsteps⟩ := h
  cases hc : l.count with
  | none => simp [hc] at hcount
  | some c =>
    simp only [hc, Option.getD_some] at hcount
    simp only [Compiler.expands, Compiler.iterations, iterations, hfor, hc, Option.getD_some, decide_eq_true_eq,
      true_and]
    refine ⟨by omega, by omega, hsteps⟩

theorem simple_step {s : YamlStep} (h : simpleItem (.step s steps) = true) :
    (s.type = none ∨ s.type = some .script ∨ s.type = some .action) ∧ Compiler.isSubsequence s = false := by
  have htype : s.type = none ∨ s.type = some .script ∨ s.type = some .action := by simpa [simpleItem] using h
  refine ⟨htype, ?_⟩
  rcases htype with h | h | h <;> simp [Compiler.isSubsequence, h]

theorem loop_runs (h : simpleItem (.loop l steps) = true)
    {order : List Occ} (hsteps : ScopeRuns env planFixture steps order) :
    ItemRuns env planFixture (.loop l steps)
      ((List.range (Compiler.iterations l)).flatMap fun n => order.map (.within [loopFrame l n])) := by
  obtain ⟨hexp, _, hiter, _⟩ := loop_counted h
  obtain ⟨hperm, hruns, hordered⟩ := hsteps
  refine ⟨?_, ?_, ?_⟩
  · rw [occsItem, if_pos hexp]
    exact List.Perm.flatMap_left _ fun n _ => hperm.map _
  · rw [entry, hiter]
    exact executeLoop_pass hruns _
  · intro b hb i hi j hj hij o ho o' ho'
    rw [bodiesItem, if_pos hexp] at hb
    obtain ⟨n, hn, hb⟩ := mem_flatMap.mp hb
    refine Before.flatMap hn ?_
    rcases mem_cons.mp hb with rfl | hb
    · exact (hordered ([], steps) mem_cons_self i hi j hj hij o ho o' ho').map _
    · obtain ⟨b', hb', rfl⟩ := mem_map.mp hb
      have hbefore := hordered b' (mem_cons_of_mem _ hb') i hi j hj hij o ho o' ho'
      simpa using hbefore.map (Occ.within [loopFrame l n])

theorem item_runs (henv : Passes env) (item : Item) (hsimple : simpleItem item = true)
    (hseq : ∀ b ∈ bodiesItem item, Sequenced b.2) (htried : ∀ o ∈ occsItem item, Tried o.leaf) :
    ∃ order, ItemRuns env planFixture item order := by
  induction item using Item.mem_induction with
  | raw entry => simp [simpleItem] at hsimple
  | step s steps =>
    obtain ⟨htype, hsub⟩ := simple_step hsimple
    have hocc : occsItem (.step s steps) = [⟨[], .step s⟩] := by simp [occsItem, hsub]
    refine ⟨[⟨[], .step s⟩], by rw [hocc], ?_, ?_⟩
    · rw [entry]
      exact executeStep_pass henv htype (htried ⟨[], .step s⟩ (hocc ▸ mem_cons_self))
    · simp [Ordered, bodiesItem, hsub]
  | loop l steps ih =>
    obtain ⟨hexp, hpos, _, hsteps⟩ := loop_counted hsimple
    have hopen : Compiler.Opens (.loop l steps) (loopFrame l 0) steps := .loop hexp hpos
    obtain ⟨order, horder⟩ := scopeRuns_of_items
      (hseq ([loopFrame l 0], steps) (Compiler.mem_bodiesItem_iff.mpr ⟨_, _, hopen, .inl rfl⟩)) fun item hi =>
        ih item hi (simple_iff.mp hsteps item hi)
          (fun b hb => hseq (loopFrame l 0 :: b.1, b.2)
            (Compiler.mem_bodiesItem_iff.mpr ⟨_, _, hopen, .inr ⟨b, Compiler.bodiesItem_subset hi hb, rfl⟩⟩))
          fun o ho => htried (o.within [loopFrame l 0])
            (Compiler.mem_occsItem_iff.mpr (.inr ⟨_, _, hopen, o, Compiler.occsItem_subset hi ho, rfl⟩))
    exact ⟨_, loop_runs hsimple horder⟩

theorem scope_runs (henv : Passes env) (hsimple : simple items = true)
    (hseq : ∀ b ∈ planScopes items, Sequenced b.2) (htried : ∀ o ∈ occs items, Tried o.leaf) :
    ∃ order, ScopeRuns env planFixture items order :=
  scopeRuns_of_items (hseq _ mem_cons_self) fun item hi => item_runs henv item (simple_iff.mp hsimple item hi)
    (fun b hb => hseq b (mem_cons_of_mem _ (Compiler.bodiesItem_subset hi hb)))
    fun o ho => htried o (Compiler.occsItem_subset hi ho)

end

end AteStudio.Dispatcher
