import AteStudio.Compiler.Soundness

/-!
# Coverage of simulated runs (`simulation/coverage.py`)

`merge_reports` builds the steps of the plan again from the first report.
-/

namespace AteStudio.Simulation

open AteStudio.Compiler List
open Function (comp_def)

/-! ## Steps -/

/-- What the coverage reads of a step, compiled or built again from a report. -/
structure CoverageStep where
  id : String
  isBranch : Bool
  thenIds : List String
  elseIds : List String
  sourceStepId : String
deriving DecidableEq

namespace CoverageStep

def ofCompiled (step : CompiledStep) : CoverageStep where
  id := step.id
  isBranch := step.type = .branch
  thenIds := step.thenIds
  elseIds := step.elseIds
  sourceStepId := step.sourceStepId

def source (step : CoverageStep) : String :=
  if step.sourceStepId = "" then step.id else step.sourceStepId

end CoverageStep

section IterSuffix

/- What `\d` matches: a decimal digit of any script. -/
variable (isDecimal : Char → Bool)

def iterGroup (text : List Char) : Option (List Char) :=
  ("_iter".toList.isPrefixOf? text).bind fun rest =>
    if rest.takeWhile isDecimal = [] then none else some (rest.dropWhile isDecimal)

/-- `(_iter\d+)+$`, where `$` also matches before a last line break, which stays. -/
def iterGroups : Nat → List Char → Option (List Char)
  | 0, _ => none
  | fuel + 1, text =>
    match iterGroup isDecimal text with
    | none => none
    | some rest => if rest = [] ∨ rest = ['\n'] then some rest else iterGroups fuel rest

def dropIterSuffix : List Char → List Char
  | [] => []
  | c :: cs =>
    match iterGroups isDecimal (c :: cs).length (c :: cs) with
    | some rest => rest
    | none => c :: dropIterSuffix cs

def stripIterSuffix (id : String) : String := .ofList (dropIterSuffix isDecimal id.toList)

example : stripIterSuffix Char.isDigit "check_iter0_iter12" = "check" := by decide

example : stripIterSuffix Char.isDigit "check_iter0.read" = "check_iter0.read" := by decide

end IterSuffix

/-! ## Recording -/

def armValues : List String := ["else", "then"]

structure Run where
  executedIds : List String := []
  skippedIds : List String := []
  branchDecisions : Dict String String := ∅

structure SimulationCoverage where
  steps : List CoverageStep
  covered : Finset String := ∅
  skipped : Finset String := ∅
  unknown : Finset String := ∅
  decisions : Dict String (Finset String) := ∅

namespace SimulationCoverage

variable (cov : SimulationCoverage)

def plannedIds : List String := cov.steps.map (·.id)

def execute (id : String) : SimulationCoverage :=
  if id ∈ cov.plannedIds then { cov with covered := insert id cov.covered }
  else { cov with unknown := insert id cov.unknown }

def skip (id : String) : SimulationCoverage :=
  if id ∈ cov.plannedIds then { cov with skipped := insert id cov.skipped, covered := cov.covered.erase id }
  else cov

def decideArm (decision : String × String) : SimulationCoverage :=
  if decision.2 ∈ armValues then
    { cov with
      decisions := cov.decisions.set decision.1 (insert decision.2 (cov.decisions.getD decision.1 ∅)) }
  else cov

def record (run : Run) : SimulationCoverage :=
  run.branchDecisions.entries.foldl decideArm (run.skippedIds.foldl skip (run.executedIds.foldl execute cov))

def recordAll (runs : List Run) : SimulationCoverage := runs.foldl record cov

end SimulationCoverage

/-! ## Reports -/

structure PlanBlock where
  totalSteps : Nat
  totalBranches : Nat
  totalBranchArms : Nat
  allStepIds : List String

structure StepBlock where
  planned : Nat
  executed : Nat
  skipped : List String
  unexecuted : List String
  unknownExecuted : List String
  percent : ℚ

structure BranchEntry where
  thenIds : List String
  elseIds : List String
  decisions : List String
  armsCovered : List String
  armsTotal : Nat

structure BranchTotals where
  armsTotal : Nat
  armsCovered : Nat
  percent : ℚ
  bothSidesSeen : List String

structure Bucket where
  planned : Nat
  executed : Nat
deriving DecidableEq

inductive Quality where
  | empty
  | full
  | partly
deriving DecidableEq

structure Summary where
  stepPercent : ℚ
  branchPercent : ℚ
  quality : Quality

structure Report where
  plan : PlanBlock
  stepCoverage : StepBlock
  branches : Dict String BranchEntry
  branchTotals : BranchTotals
  bySourceStep : Dict String Bucket
  summary : Summary

/-- Reports are dictionaries, and the two inner ones are compared without their order. -/
structure Report.Same (a b : Report) : Prop where
  plan : a.plan = b.plan
  stepCoverage : a.stepCoverage = b.stepCoverage
  branches : ∀ id, a.branches.get? id = b.branches.get? id
  branchTotals : a.branchTotals = b.branchTotals
  bySourceStep : ∀ id, a.bySourceStep.get? id = b.bySourceStep.get? id
  summary : a.summary = b.summary

section Branches

variable (covered : Finset String) (decisions : Dict String (Finset String)) (branch : CoverageStep)

def explicitDecisions (id : String) : Finset String :=
  (decisions.getD id ∅).filter (· ∈ armValues)

/-- A step named `else` in the then-arm counts as soon as `else` was decided. -/
def markArm (arm : String) (ids : List String) (seen : Finset String) : Finset String :=
  if (∃ id ∈ ids, id ∈ seen) ∨ ∃ id ∈ ids, id ∈ covered then insert arm seen else seen

def seenArms : Finset String :=
  markArm covered "else" branch.elseIds
    (markArm covered "then" branch.thenIds (explicitDecisions decisions branch.id))

def CoverageStep.arms : Nat := branch.thenIds.length + branch.elseIds.length

def branchEntry : BranchEntry where
  thenIds := branch.thenIds
  elseIds := branch.elseIds
  decisions := (explicitDecisions decisions branch.id).sort
  armsCovered := (seenArms covered decisions branch).sort
  armsTotal := branch.arms

def bothSides : Bool :=
  branch.thenIds ≠ [] ∧ branch.elseIds ≠ [] ∧ (seenArms covered decisions branch).card = 2

def countStep (buckets : Dict String Bucket) (step : CoverageStep) : Dict String Bucket :=
  let bucket := buckets.getD step.source ⟨0, 0⟩
  buckets.set step.source
    ⟨bucket.planned + 1, if step.id ∈ covered then bucket.executed + 1 else bucket.executed⟩

end Branches

def bySource (steps : List CoverageStep) (covered : Finset String) : Dict String Bucket :=
  steps.foldl (countStep covered) ∅

section Build

/- `round(100.0 * n / d, 2)` -/
variable (rounded : Nat → Nat → ℚ)

def pct (numerator denominator : Nat) : ℚ := if denominator = 0 then 0 else rounded numerator denominator

def buildReport (steps : List CoverageStep) (covered skipped unknown : Finset String)
    (decisions : Dict String (Finset String)) : Report :=
  let plannedIds := steps.map (·.id)
  let branches := steps.filter (·.isBranch)
  let executed := (covered ∩ plannedIds.toFinset).card
  let armsTotal := (branches.map (·.arms)).sum
  let armsCovered := (branches.map fun b => (seenArms covered decisions b).card).sum
  let stepPct := pct rounded executed plannedIds.length
  let branchPct := if armsTotal = 0 then 100 else pct rounded armsCovered armsTotal
  { plan := ⟨plannedIds.length, branches.length, (branches.map (·.arms)).sum, plannedIds⟩
    stepCoverage :=
      { planned := plannedIds.length
        executed
        skipped := skipped.sort
        unexecuted := (plannedIds.toFinset \ covered).sort
        unknownExecuted := unknown.sort
        percent := stepPct }
    branches := Dict.ofList (branches.map fun b => (b.id, branchEntry covered decisions b))
    branchTotals :=
      { armsTotal
        armsCovered
        percent := branchPct
        bothSidesSeen := (branches.filter (bothSides covered decisions)).map (·.id) }
    bySourceStep := bySource steps covered
    summary :=
      { stepPercent := stepPct
        branchPercent := branchPct
        quality :=
          if plannedIds = [] then .empty
          else if stepPct = 100 ∧ (armsTotal = 0 ∨ armsCovered = armsTotal) then .full
          else .partly } }

def SimulationCoverage.report (cov : SimulationCoverage) : Report :=
  buildReport rounded cov.steps cov.covered cov.skipped cov.unknown cov.decisions

end Build

/-! ## Merging -/

section Merge

variable (isDecimal : Char → Bool) (rounded : Nat → Nat → ℚ)

def nodeView (id : String) : CoverageStep := ⟨id, false, [], [], stripIterSuffix isDecimal id⟩

def branchView (id : String) (entry : BranchEntry) : CoverageStep := ⟨id, true, entry.thenIds, entry.elseIds, id⟩

/-- `_PlanView`: the branches come last. -/
def planView (report : Report) : List CoverageStep :=
  let branches := report.branches.entries.map fun e => branchView e.1 e.2
  ((report.plan.allStepIds.filter (· ∉ branches.map (·.id))).map (nodeView isDecimal)) ++ branches

def coveredIds (report : Report) : Finset String :=
  report.plan.allStepIds.toFinset \ report.stepCoverage.unexecuted.toFinset

def addDecisions (decisions : Dict String (Finset String)) (entry : String × BranchEntry) :
    Dict String (Finset String) :=
  decisions.set entry.1 (decisions.getD entry.1 ∅ ∪ entry.2.decisions.toFinset)

def mergedDecisions (first second : Report) : Dict String (Finset String) :=
  second.branches.entries.foldl addDecisions (first.branches.entries.foldl addDecisions ∅)

def mergeReports (first second : Report) : Except String Report :=
  if first.plan.allStepIds ≠ second.plan.allStepIds then
    .error "merge_reports requires both reports to cover the same compiled plan"
  else
    .ok (buildReport rounded (planView isDecimal first) (coveredIds first ∪ coveredIds second)
      (first.stepCoverage.skipped.toFinset ∪ second.stepCoverage.skipped.toFinset)
      (first.stepCoverage.unknownExecuted.toFinset ∪ second.stepCoverage.unknownExecuted.toFinset)
      (mergedDecisions first second))

end Merge

/-! ## What a list of runs leaves -/

namespace SimulationCoverage

variable (cov : SimulationCoverage)

theorem foldl_execute (ids : List String) :
    ids.foldl execute cov = { cov with
      covered := cov.covered ∪ ids.toFinset.filter (· ∈ cov.plannedIds)
      unknown := cov.unknown ∪ ids.toFinset.filter (· ∉ cov.plannedIds) } := by
  induction ids generalizing cov with
  | nil => simp
  | cons id ids ih =>
    rw [foldl_cons, execute]
    split
    all_goals
      rw [ih]
      congr 1 <;> (ext x; simp [plannedIds] at *; grind)

theorem foldl_skip (ids : List String) :
    ids.foldl skip cov = { cov with
      covered := cov.covered \ ids.toFinset.filter (· ∈ cov.plannedIds)
      skipped := cov.skipped ∪ ids.toFinset.filter (· ∈ cov.plannedIds) } := by
  induction ids generalizing cov with
  | nil => simp
  | cons id ids ih =>
    rw [foldl_cons, skip]
    split
    all_goals
      rw [ih]
      congr 1 <;> (ext x; simp [plannedIds] at *; grind)

theorem foldl_decideArm (entries : List (String × String)) :
    ∃ decisions, entries.foldl decideArm cov = { cov with decisions } ∧
      ∀ id arm, arm ∈ decisions.getD id ∅ ↔
        arm ∈ cov.decisions.getD id ∅ ∨ (id, arm) ∈ entries ∧ arm ∈ armValues := by
  induction entries generalizing cov with
  | nil => exact ⟨_, rfl, by simp⟩
  | cons e entries ih =>
    rw [foldl_cons, decideArm]
    split
    case isTrue h =>
      obtain ⟨decisions, heq, hmem⟩ := ih { cov with decisions := _ }
      refine ⟨decisions, heq, fun id arm => (hmem id arm).trans ?_⟩
      simp only [Dict.getD, Dict.get?_set, mem_cons, Prod.ext_iff]
      split
      · subst_vars; simp; grind
      · grind
    case isFalse h =>
      obtain ⟨decisions, heq, hmem⟩ := ih cov
      refine ⟨decisions, heq, fun id arm => (hmem id arm).trans ?_⟩
      simp only [mem_cons, Prod.ext_iff]
      grind

structure Recorded (cov : SimulationCoverage) (run : Run) (cov' : SimulationCoverage) : Prop where
  steps : cov'.steps = cov.steps
  covered : ∀ id, id ∈ cov'.covered ↔
    (id ∈ cov.covered ∨ id ∈ run.executedIds ∧ id ∈ cov.plannedIds) ∧ ¬ (id ∈ run.skippedIds ∧ id ∈ cov.plannedIds)
  skipped : ∀ id, id ∈ cov'.skipped ↔ id ∈ cov.skipped ∨ id ∈ run.skippedIds ∧ id ∈ cov.plannedIds
  unknown : ∀ id, id ∈ cov'.unknown ↔ id ∈ cov.unknown ∨ id ∈ run.executedIds ∧ id ∉ cov.plannedIds
  decisions : ∀ id arm, arm ∈ cov'.decisions.getD id ∅ ↔
    arm ∈ cov.decisions.getD id ∅ ∨ (id, arm) ∈ run.branchDecisions.entries ∧ arm ∈ armValues

variable (runs : List Run) (run : Run)

theorem recorded_record : Recorded cov run (cov.record run) := by
  obtain ⟨decisions, heq, hmem⟩ := foldl_decideArm (run.skippedIds.foldl skip (run.executedIds.foldl execute cov))
    run.branchDecisions.entries
  rw [← record, foldl_skip, foldl_execute] at heq
  rw [foldl_skip, foldl_execute] at hmem
  rw [heq]
  constructor <;> simp [plannedIds]
  simpa using hmem

@[simp] theorem steps_recordAll : (cov.recordAll runs).steps = cov.steps := by
  induction runs generalizing cov with
  | nil => rfl
  | cons run runs ih => exact (ih _).trans (recorded_record cov run).steps

theorem recordAll_concat : cov.recordAll (runs ++ [run]) = (cov.recordAll runs).record run := by
  simp [recordAll]

theorem recorded_last : Recorded (cov.recordAll runs) run (cov.recordAll (runs ++ [run])) :=
  recordAll_concat cov runs run ▸ recorded_record _ run

theorem plannedIds_recordAll : (cov.recordAll runs).plannedIds = cov.plannedIds := by
  simp [plannedIds]

theorem recordAll_iff {P : SimulationCoverage → Prop} {A : Run → Prop} {Q : List String → Prop}
    (h : ∀ cov run, P (cov.record run) ↔ P cov ∨ A run ∧ Q cov.plannedIds) :
    P (cov.recordAll runs) ↔ P cov ∨ (∃ run ∈ runs, A run) ∧ Q cov.plannedIds := by
  induction runs using List.reverseRecOn with
  | nil => simp [recordAll]
  | append_singleton runs run ih =>
    rw [recordAll_concat, h, ih, plannedIds_recordAll]
    simp only [mem_append, mem_singleton]
    grind

theorem mem_skipped_recordAll (id : String) :
    id ∈ (cov.recordAll runs).skipped ↔
      id ∈ cov.skipped ∨ (∃ run ∈ runs, id ∈ run.skippedIds) ∧ id ∈ cov.plannedIds :=
  recordAll_iff (P := (id ∈ ·.skipped)) cov runs fun cov run => (recorded_record cov run).skipped id

theorem mem_unknown_recordAll (id : String) :
    id ∈ (cov.recordAll runs).unknown ↔
      id ∈ cov.unknown ∨ (∃ run ∈ runs, id ∈ run.executedIds) ∧ id ∉ cov.plannedIds :=
  recordAll_iff (P := (id ∈ ·.unknown)) (Q := (id ∉ ·)) cov runs fun cov run => (recorded_record cov run).unknown id

theorem mem_decisions_recordAll (id arm : String) :
    arm ∈ (cov.recordAll runs).decisions.getD id ∅ ↔
      arm ∈ cov.decisions.getD id ∅ ∨
        (∃ run ∈ runs, (id, arm) ∈ run.branchDecisions.entries) ∧ arm ∈ armValues :=
  recordAll_iff (P := (arm ∈ ·.decisions.getD id ∅)) (Q := fun _ => arm ∈ armValues) cov runs fun cov run =>
    (recorded_record cov run).decisions id arm

theorem mem_covered_recordAll (id : String) :
    id ∈ (cov.recordAll runs).covered ↔
      id ∈ (recordAll ⟨cov.steps, ∅, ∅, ∅, ∅⟩ runs).covered ∨
        id ∈ cov.covered ∧ ¬ ((∃ run ∈ runs, id ∈ run.skippedIds) ∧ id ∈ cov.plannedIds) := by
  induction runs using List.reverseRecOn with
  | nil => simp [recordAll]
  | append_singleton runs run ih =>
    rw [(recorded_last cov runs run).covered, (recorded_last _ runs run).covered, ih, plannedIds_recordAll,
      plannedIds_recordAll]
    simp only [mem_append, mem_singleton, plannedIds]
    grind

theorem covered_recordAll_subset (cov : SimulationCoverage) (h : cov.covered ⊆ cov.plannedIds.toFinset)
    (runs : List Run) : (cov.recordAll runs).covered ⊆ cov.plannedIds.toFinset := by
  intro id
  induction runs using List.reverseRecOn with
  | nil => exact fun hid => h hid
  | append_singleton runs run ih =>
    rw [(recorded_last cov runs run).covered, plannedIds_recordAll]
    rintro ⟨hid | hid, -⟩
    · exact ih hid
    · exact mem_toFinset.mpr hid.2

end SimulationCoverage

/-! ## What a report keeps -/

variable (steps : List CoverageStep) (covered : Finset String)

theorem bySource_concat (step : CoverageStep) :
    bySource (steps ++ [step]) covered = countStep covered (bySource steps covered) step := by
  simp [bySource]

theorem getD_bySource (k : String) :
    (bySource steps covered).getD k ⟨0, 0⟩ =
      ⟨(steps.map (·.source)).count k, ((steps.filter (·.id ∈ covered)).map (·.source)).count k⟩ := by
  induction steps using List.reverseRecOn with
  | nil => rfl
  | append_singleton steps step ih =>
    rw [bySource_concat, Dict.getD, countStep, Dict.get?_set]
    by_cases hk : k = step.source
    · subst hk
      by_cases hid : step.id ∈ covered <;> simp [ih, hid]
    · rw [if_neg hk, ← Dict.getD, ih]
      by_cases hid : step.id ∈ covered <;> simp [hid, Ne.symm hk]

theorem isSome_bySource (k : String) :
    ((bySource steps covered).get? k).isSome ↔ 0 < (steps.map (·.source)).count k := by
  rw [count_pos_iff]
  induction steps using List.reverseRecOn with
  | nil => simp [bySource]
  | append_singleton steps step ih =>
    rw [bySource_concat, countStep, Dict.get?_set]
    by_cases hk : k = step.source
    · simp [hk]
    · simpa [hk, Ne.symm hk] using ih

theorem bySource_agree_iff (steps' : List CoverageStep) :
    (∀ k, (bySource steps covered).get? k = (bySource steps' covered).get? k) ↔
      (steps.map (·.source)).Perm (steps'.map (·.source)) ∧
        ((steps.filter (·.id ∈ covered)).map (·.source)).Perm ((steps'.filter (·.id ∈ covered)).map (·.source)) := by
  simp only [perm_iff_count, ← forall_and]
  refine forall_congr' fun k => ?_
  have hbucket := getD_bySource steps covered k
  have hbucket' := getD_bySource steps' covered k
  constructor
  · intro h
    rw [Dict.getD, h, ← Dict.getD, hbucket'] at hbucket
    simpa [eq_comm] using hbucket
  · rintro ⟨hall, hexecuted⟩
    have hsome : ((bySource steps covered).get? k).isSome ↔ ((bySource steps' covered).get? k).isSome := by
      rw [isSome_bySource, isSome_bySource, hall]
    have hgetD : (bySource steps covered).getD k ⟨0, 0⟩ = (bySource steps' covered).getD k ⟨0, 0⟩ := by
      rw [hbucket, hbucket', hall, hexecuted]
    unfold Dict.getD at hgetD
    cases h : (bySource steps covered).get? k <;> cases h' : (bySource steps' covered).get? k <;> simp_all

section Rebuilt

variable (isDecimal : Char → Bool) (rounded : Nat → Nat → ℚ)

def rebuiltStep (step : CoverageStep) : CoverageStep :=
  if step.isBranch then ⟨step.id, true, step.thenIds, step.elseIds, step.id⟩ else nodeView isDecimal step.id

def rebuilt (steps : List CoverageStep) : List CoverageStep :=
  (steps.filter (!·.isBranch) ++ steps.filter (·.isBranch)).map (rebuiltStep isDecimal)

def recoveredSource (step : CoverageStep) : String := (rebuiltStep isDecimal step).source

variable {isDecimal rounded} {steps : List CoverageStep} {cov : SimulationCoverage}

variable (step : CoverageStep)

@[simp] theorem rebuiltStep_id : (rebuiltStep isDecimal step).id = step.id := by
  unfold rebuiltStep; split <;> rfl

@[simp] theorem rebuiltStep_isBranch : (rebuiltStep isDecimal step).isBranch = step.isBranch := by
  unfold rebuiltStep; split <;> simp_all [nodeView]

@[simp] theorem rebuiltStep_rebuiltStep :
    rebuiltStep isDecimal (rebuiltStep isDecimal step) = rebuiltStep isDecimal step := by
  unfold rebuiltStep; split <;> simp [nodeView]

variable (isDecimal steps)

theorem rebuilt_perm :
    (rebuilt isDecimal steps).Perm (steps.map (rebuiltStep isDecimal)) := by
  refine List.Perm.map _ ?_
  simpa using filter_append_perm (fun s : CoverageStep => !s.isBranch) steps

theorem rebuilt_ids_perm :
    ((rebuilt isDecimal steps).map (·.id)).Perm (steps.map (·.id)) := by
  simpa [comp_def] using (rebuilt_perm isDecimal steps).map (·.id)

theorem filter_isBranch_rebuilt :
    (rebuilt isDecimal steps).filter (·.isBranch) = (steps.filter (·.isBranch)).map (rebuiltStep isDecimal) := by
  simp [rebuilt, filter_map, comp_def]

theorem rebuilt_rebuilt :
    rebuilt isDecimal (rebuilt isDecimal steps) = rebuilt isDecimal steps := by
  simp [rebuilt, filter_map, comp_def]

theorem rebuilt_sources_perm :
    ((rebuilt isDecimal steps).map (·.source)).Perm (steps.map (recoveredSource isDecimal)) ∧
      (((rebuilt isDecimal steps).filter (·.id ∈ covered)).map (·.source)).Perm
        ((steps.filter (·.id ∈ covered)).map (recoveredSource isDecimal)) := by
  constructor
  · have h := (rebuilt_perm isDecimal steps).map (·.source)
    rwa [map_map] at h
  · have h := ((rebuilt_perm isDecimal steps).filter (·.id ∈ covered)).map (·.source)
    simp only [filter_map, map_map, comp_def, rebuiltStep_id] at h
    exact h

/-! ## A merge of two reports -/

variable {isDecimal steps}

theorem entries_branches (hnodup : cov.plannedIds.Nodup) : (cov.report rounded).branches.entries =
    (cov.steps.filter (·.isBranch)).map fun b => (b.id, branchEntry cov.covered cov.decisions b) := by
  refine Dict.ofList_entries ?_
  rw [map_map]
  exact hnodup.sublist (filter_sublist.map _)

theorem planView_report (hnodup : cov.plannedIds.Nodup) :
    planView isDecimal (cov.report rounded) = rebuilt isDecimal cov.steps := by
  have hplan : (cov.report rounded).plan.allStepIds = cov.steps.map (·.id) := rfl
  unfold planView rebuilt
  rw [entries_branches hnodup, hplan, map_append]
  simp only [map_map, comp_def, branchView, filter_map]
  congr 1
  · have hfilter : ∀ s ∈ cov.steps, decide (s.id ∉ (cov.steps.filter (·.isBranch)).map (·.id)) = !s.isBranch := by
      intro s hs
      -- A step whose id is that of a branch is this branch.
      have hbranch : s.id ∈ (cov.steps.filter (·.isBranch)).map (·.id) ↔ s.isBranch = true := by
        simp only [mem_map, mem_filter]
        constructor
        · rintro ⟨t, ⟨ht, hb⟩, hid⟩
          exact inj_on_of_nodup_map hnodup ht hs hid ▸ hb
        · exact fun hb => ⟨s, ⟨hs, hb⟩, rfl⟩
      simp only [hbranch, decide_not, Bool.decide_eq_true]
    rw [filter_congr hfilter]
    refine map_congr_left fun s hs => ?_
    have hb := (mem_filter.mp hs).2
    simp_all [rebuiltStep]
  · refine map_congr_left fun s hs => ?_
    have hb := (mem_filter.mp hs).2
    simp_all [rebuiltStep, branchEntry]

theorem coveredIds_report (hcovered : cov.covered ⊆ cov.plannedIds.toFinset) :
    coveredIds (cov.report rounded) = cov.covered := by
  simpa [coveredIds, SimulationCoverage.report, buildReport, SimulationCoverage.plannedIds] using hcovered

theorem skipped_report : (cov.report rounded).stepCoverage.skipped.toFinset = cov.skipped := Finset.sort_toFinset _ _

theorem unknown_report : (cov.report rounded).stepCoverage.unknownExecuted.toFinset = cov.unknown :=
  Finset.sort_toFinset _ _

theorem mem_foldl_addDecisions (entries : List (String × BranchEntry)) (decisions : Dict String (Finset String))
    (id arm : String) :
    arm ∈ (entries.foldl addDecisions decisions).getD id ∅ ↔
      arm ∈ decisions.getD id ∅ ∨ ∃ entry, (id, entry) ∈ entries ∧ arm ∈ entry.decisions := by
  induction entries generalizing decisions with
  | nil => simp
  | cons e entries ih =>
    rw [foldl_cons, ih, addDecisions, Dict.getD, Dict.get?_set]
    obtain ⟨k, entry⟩ := e
    by_cases hk : id = k
    · subst hk
      simp
      grind
    · simp [hk, Dict.getD]

theorem mem_entry_decisions (rounded : Nat → Nat → ℚ) (hnodup : cov.plannedIds.Nodup) {b : CoverageStep}
    (hb : b ∈ cov.steps) (hbranch : b.isBranch = true) (arm : String) :
    (∃ entry, (b.id, entry) ∈ (cov.report rounded).branches.entries ∧ arm ∈ entry.decisions) ↔
      arm ∈ explicitDecisions cov.decisions b.id := by
  rw [entries_branches hnodup]
  simp only [mem_map, mem_filter, Prod.mk.injEq]
  constructor
  · rintro ⟨_, ⟨b', -, hid, rfl⟩, harm⟩
    simpa [branchEntry, hid] using harm
  · intro harm
    exact ⟨_, ⟨b, ⟨hb, hbranch⟩, rfl, rfl⟩, by simpa [branchEntry] using harm⟩

variable {covered skipped unknown : Finset String} {decisions : Dict String (Finset String)}

theorem buildReport_congr {decisions' : Dict String (Finset String)}
    (h : ∀ b ∈ steps, b.isBranch = true → explicitDecisions decisions b.id = explicitDecisions decisions' b.id) :
    buildReport rounded steps covered skipped unknown decisions =
      buildReport rounded steps covered skipped unknown decisions' := by
  have hseen : ∀ b ∈ steps.filter (·.isBranch), seenArms covered decisions b = seenArms covered decisions' b := by
    intro b hb
    obtain ⟨hmem, hbranch⟩ := mem_filter.mp hb
    simp only [seenArms, h b hmem hbranch]
  have hentry : ∀ b ∈ steps.filter (·.isBranch),
      (b.id, branchEntry covered decisions b) = (b.id, branchEntry covered decisions' b) := by
    intro b hb
    obtain ⟨hmem, hbranch⟩ := mem_filter.mp hb
    simp only [branchEntry, hseen b hb, h b hmem hbranch]
  have hcard : ∀ b ∈ steps.filter (·.isBranch),
      (seenArms covered decisions b).card = (seenArms covered decisions' b).card :=
    fun b hb => congrArg Finset.card (hseen b hb)
  have hboth : ∀ b ∈ steps.filter (·.isBranch), bothSides covered decisions b = bothSides covered decisions' b :=
    fun b hb => by simp only [bothSides, hseen b hb]
  simp only [buildReport, map_congr_left hentry, map_congr_left hcard, filter_congr hboth]

variable {both : Dict String (Finset String)} {covered' : Finset String}

theorem mergeReports_report (cov cov' : SimulationCoverage) (hnodup : cov.plannedIds.Nodup)
    (hids : cov.plannedIds = cov'.plannedIds)
    (hbranches : ∀ b ∈ cov.steps, b.isBranch = true → ∃ b' ∈ cov'.steps, b'.isBranch = true ∧ b'.id = b.id)
    (hcovered : cov.covered ⊆ cov.plannedIds.toFinset) (hcovered' : cov'.covered ⊆ cov'.plannedIds.toFinset)
    (hboth : ∀ id, explicitDecisions both id = explicitDecisions cov.decisions id ∪ explicitDecisions cov'.decisions id) :
    mergeReports isDecimal rounded (cov.report rounded) (cov'.report rounded) =
      .ok (buildReport rounded (rebuilt isDecimal cov.steps) (cov.covered ∪ cov'.covered) (cov.skipped ∪ cov'.skipped)
        (cov.unknown ∪ cov'.unknown) both) := by
  have hplan : (cov.report rounded).plan.allStepIds = (cov'.report rounded).plan.allStepIds := hids
  rw [mergeReports, if_neg (not_not.mpr hplan), planView_report hnodup, coveredIds_report hcovered,
    coveredIds_report hcovered']
  congr 1
  rw [skipped_report, skipped_report, unknown_report, unknown_report]
  refine buildReport_congr fun b hb hbranch => ?_
  obtain ⟨s, hs, rfl⟩ := mem_map.mp ((rebuilt_perm isDecimal _).mem_iff.mp hb)
  rw [rebuiltStep_isBranch] at hbranch
  obtain ⟨s', hs', hbranch', hid⟩ := hbranches s hs hbranch
  rw [rebuiltStep_id, hboth]
  ext arm
  have hone := mem_entry_decisions rounded hnodup hs hbranch arm
  have htwo := mem_entry_decisions rounded (hids ▸ hnodup) hs' hbranch' arm
  rw [hid] at htwo
  rw [explicitDecisions, Finset.mem_filter, mergedDecisions, mem_foldl_addDecisions, mem_foldl_addDecisions, hone, htwo]
  simp [explicitDecisions, Dict.getD]
  grind

/-! ## Merged reports and recorded runs -/

def BranchesLast (steps : List CoverageStep) : Prop := steps.Pairwise fun s t => s.isBranch = true → t.isBranch = true

theorem filter_append_filter_iff (steps : List CoverageStep) :
    steps.filter (!·.isBranch) ++ steps.filter (·.isBranch) = steps ↔ BranchesLast steps := by
  constructor
  · intro h
    rw [BranchesLast, ← h, pairwise_append]
    refine ⟨pairwise_of_forall_mem_list fun s hs t _ hb => ?_, pairwise_of_forall_mem_list fun s _ t ht _ => ?_,
      fun s _ t ht _ => ?_⟩
    · have := (mem_filter.mp hs).2
      simp_all
    · exact (mem_filter.mp ht).2
    · exact (mem_filter.mp ht).2
  · intro h
    induction steps with
    | nil => rfl
    | cons s steps ih =>
      obtain ⟨hs, htail⟩ := pairwise_cons.mp h
      cases hb : s.isBranch with
      | false => simp [hb, ih htail]
      | true =>
        have hnone : steps.filter (!·.isBranch) = [] :=
          filter_eq_nil_iff.mpr fun t ht => by simp [hs t ht hb]
        have hall : steps.filter (·.isBranch) = steps := filter_eq_self.mpr fun t ht => hs t ht hb
        simp [hb, hnone, hall]

theorem rebuilt_ids_iff (isDecimal : Char → Bool) (hnodup : (steps.map (·.id)).Nodup) :
    (rebuilt isDecimal steps).map (·.id) = steps.map (·.id) ↔ BranchesLast steps := by
  rw [← filter_append_filter_iff, rebuilt, map_map]
  simp only [comp_def, rebuiltStep_id]
  constructor
  · intro h
    have hperm : (steps.filter (!·.isBranch) ++ steps.filter (·.isBranch)).Perm steps := by
      simpa using filter_append_perm (fun s : CoverageStep => !s.isBranch) steps
    refine ext_getElem hperm.length_eq fun i hi hi' => ?_
    refine inj_on_of_nodup_map hnodup (hperm.mem_iff.mp (getElem_mem hi)) (getElem_mem hi') ?_
    have hid := congrArg (·[i]?) h
    simpa only [getElem?_map, getElem?_eq_getElem hi, getElem?_eq_getElem hi', Option.map_some,
      Option.some.injEq] using hid
  · exact fun h => congrArg _ h

/-- A merge recovers the source ids, of all steps and of the covered ones. -/
def SourcesRecovered (isDecimal : Char → Bool) (steps : List CoverageStep) (covered : Finset String) : Prop :=
  (steps.map (recoveredSource isDecimal)).Perm (steps.map (·.source)) ∧
    ((steps.filter (·.id ∈ covered)).map (recoveredSource isDecimal)).Perm
      ((steps.filter (·.id ∈ covered)).map (·.source))

theorem bySource_rebuilt_iff (steps : List CoverageStep) (covered : Finset String) :
    (∀ k, (bySource (rebuilt isDecimal steps) covered).get? k = (bySource steps covered).get? k) ↔
      SourcesRecovered isDecimal steps covered := by
  obtain ⟨hall, hexecuted⟩ := rebuilt_sources_perm covered isDecimal steps
  rw [bySource_agree_iff, SourcesRecovered]
  exact and_congr ⟨hall.symm.trans, hall.trans⟩ ⟨hexecuted.symm.trans, hexecuted.trans⟩

theorem sourcesRecovered_of_eq (h : ∀ step ∈ steps, recoveredSource isDecimal step = step.source)
    (covered : Finset String) : SourcesRecovered isDecimal steps covered := by
  refine ⟨.of_eq (map_congr_left h), .of_eq (map_congr_left fun step hstep => h step ?_)⟩
  exact mem_of_mem_filter hstep

theorem branches_rebuilt (isDecimal : Char → Bool) {β : Type} (f : CoverageStep → β)
    (hf : ∀ b, b.isBranch = true → f ⟨b.id, true, b.thenIds, b.elseIds, b.id⟩ = f b) (steps : List CoverageStep) :
    ((rebuilt isDecimal steps).filter (·.isBranch)).map f = (steps.filter (·.isBranch)).map f := by
  rw [filter_isBranch_rebuilt, map_map]
  refine map_congr_left fun b hb => ?_
  have hbranch := (mem_filter.mp hb).2
  simpa [rebuiltStep, hbranch] using hf b hbranch

theorem bothSides_rebuilt (isDecimal : Char → Bool) (covered : Finset String) (decisions : Dict String (Finset String))
    (steps : List CoverageStep) :
    (((rebuilt isDecimal steps).filter (·.isBranch)).filter (bothSides covered decisions)).map (·.id) =
      ((steps.filter (·.isBranch)).filter (bothSides covered decisions)).map (·.id) := by
  have hpairs := branches_rebuilt isDecimal (fun b => (bothSides covered decisions b, b.id)) (fun _ _ => rfl) steps
  simpa [filter_map, comp_def] using congrArg (fun pairs => (pairs.filter (·.1)).map (·.2)) hpairs

theorem same_rebuilt_iff (hnodup : (steps.map (·.id)).Nodup) (hcovered : covered ⊆ (steps.map (·.id)).toFinset)
    (hcovered' : covered' ⊆ (steps.map (·.id)).toFinset) :
    (buildReport rounded (rebuilt isDecimal steps) covered skipped unknown decisions).Same
        (buildReport rounded steps covered' skipped unknown decisions) ↔
      BranchesLast steps ∧ covered = covered' ∧ SourcesRecovered isDecimal steps covered := by
  have hset : ((rebuilt isDecimal steps).map (·.id)).toFinset = (steps.map (·.id)).toFinset :=
    toFinset_eq_of_perm _ _ (rebuilt_ids_perm isDecimal steps)
  constructor
  · intro h
    have hids : (rebuilt isDecimal steps).map (·.id) = steps.map (·.id) := congrArg PlanBlock.allStepIds h.plan
    have hrest : (((rebuilt isDecimal steps).map (·.id)).toFinset \ covered).sort =
        ((steps.map (·.id)).toFinset \ covered').sort := congrArg StepBlock.unexecuted h.stepCoverage
    have heq : covered = covered' := by
      rw [hset] at hrest
      have := congrArg List.toFinset hrest
      rw [Finset.sort_toFinset, Finset.sort_toFinset] at this
      rw [← Finset.sdiff_sdiff_eq_self hcovered, this, Finset.sdiff_sdiff_eq_self hcovered']
    subst heq
    exact ⟨(rebuilt_ids_iff isDecimal hnodup).mp hids, rfl, (bySource_rebuilt_iff steps covered).mp h.bySourceStep⟩
  · rintro ⟨hlast, rfl, hsources⟩
    have hids := (rebuilt_ids_iff isDecimal hnodup).mpr hlast
    have hbuckets := (bySource_rebuilt_iff steps covered).mpr hsources
    have harms := branches_rebuilt isDecimal (·.arms) (fun _ _ => rfl) steps
    have hcards := branches_rebuilt isDecimal (fun b => (seenArms covered decisions b).card)
      (fun _ _ => rfl) steps
    have hentries := branches_rebuilt isDecimal (fun b => (b.id, branchEntry covered decisions b))
      (fun _ _ => rfl) steps
    have hlength : ((rebuilt isDecimal steps).filter (·.isBranch)).length = (steps.filter (·.isBranch)).length := by
      rw [filter_isBranch_rebuilt, length_map]
    have hboth := bothSides_rebuilt isDecimal covered decisions steps
    constructor <;> simp only [buildReport, hids, harms, hcards, hentries, hlength, hboth, implies_true]
    exact hbuckets

end Rebuilt

/-! ## Accumulation -/

open SimulationCoverage

section Accumulation

variable (isDecimal : Char → Bool) (rounded : Nat → Nat → ℚ) (nodes : List CompiledStep)

def coverageOf (runs : List Run) : SimulationCoverage :=
  SimulationCoverage.recordAll { steps := nodes.map .ofCompiled } runs

def reportOf (runs : List Run) : Report := (coverageOf nodes runs).report rounded

/-- The merge is the report of all the runs, and merging a third report is associative. -/
def Accumulates (runs₁ runs₂ runs₃ : List Run) : Prop :=
  ∃ merged₁₂ merged₂₃ left right,
    mergeReports isDecimal rounded (reportOf rounded nodes runs₁) (reportOf rounded nodes runs₂) = .ok merged₁₂ ∧
    merged₁₂.Same (reportOf rounded nodes (runs₁ ++ runs₂)) ∧
    mergeReports isDecimal rounded merged₁₂ (reportOf rounded nodes runs₃) = .ok left ∧
    mergeReports isDecimal rounded (reportOf rounded nodes runs₂) (reportOf rounded nodes runs₃) = .ok merged₂₃ ∧
    mergeReports isDecimal rounded (reportOf rounded nodes runs₁) merged₂₃ = .ok right ∧
    left.Same right

/-- No covered step is skipped in the second runs and left uncovered by them. -/
def NothingLost (runs₁ runs₂ : List Run) : Prop :=
  ∀ id ∈ (coverageOf nodes runs₁).covered, (∃ run ∈ runs₂, id ∈ run.skippedIds) → id ∈ (coverageOf nodes runs₂).covered

variable {isDecimal rounded nodes} (runs₁ runs₂ : List Run)

theorem coverageOf_steps (runs : List Run) : (coverageOf nodes runs).steps = nodes.map .ofCompiled :=
  steps_recordAll _ _

theorem coverageOf_append : coverageOf nodes (runs₁ ++ runs₂) = (coverageOf nodes runs₁).recordAll runs₂ :=
  foldl_append

theorem covered_subset (nodes : List CompiledStep) (runs : List Run) :
    (coverageOf nodes runs).covered ⊆ ((nodes.map CoverageStep.ofCompiled).map (·.id)).toFinset :=
  covered_recordAll_subset _ (Finset.empty_subset _) runs

theorem skipped_append :
    (coverageOf nodes (runs₁ ++ runs₂)).skipped = (coverageOf nodes runs₁).skipped ∪
      (coverageOf nodes runs₂).skipped := by
  ext id
  simp only [Finset.mem_union, coverageOf, mem_skipped_recordAll, mem_append]
  grind

theorem unknown_append :
    (coverageOf nodes (runs₁ ++ runs₂)).unknown = (coverageOf nodes runs₁).unknown ∪
      (coverageOf nodes runs₂).unknown := by
  ext id
  simp only [Finset.mem_union, coverageOf, mem_unknown_recordAll, mem_append]
  grind

theorem explicitDecisions_append (id : String) :
    explicitDecisions (coverageOf nodes (runs₁ ++ runs₂)).decisions id =
      explicitDecisions (coverageOf nodes runs₁).decisions id ∪
        explicitDecisions (coverageOf nodes runs₂).decisions id := by
  ext arm
  simp only [explicitDecisions, Finset.mem_filter, Finset.mem_union, coverageOf, mem_decisions_recordAll, mem_append]
  grind

theorem covered_append_iff :
    (coverageOf nodes runs₁).covered ∪ (coverageOf nodes runs₂).covered = (coverageOf nodes (runs₁ ++ runs₂)).covered ↔
      NothingLost nodes runs₁ runs₂ := by
  have hmem : ∀ id, id ∈ (coverageOf nodes (runs₁ ++ runs₂)).covered ↔
      id ∈ (coverageOf nodes runs₂).covered ∨
        id ∈ (coverageOf nodes runs₁).covered ∧ ¬ ∃ run ∈ runs₂, id ∈ run.skippedIds := by
    intro id
    rw [coverageOf_append, mem_covered_recordAll, coverageOf_steps]
    refine or_congr Iff.rfl (and_congr_right fun hid => not_congr (and_iff_left ?_))
    have hplanned := covered_subset nodes runs₁ hid
    rwa [mem_toFinset, ← coverageOf_steps runs₁] at hplanned
  simp only [Finset.ext_iff, Finset.mem_union, hmem, NothingLost]
  grind

variable {plan : YamlPlan}

theorem ofCompiled_ids_nodup (hcompile : compile plan = .ok nodes) :
    ((nodes.map CoverageStep.ofCompiled).map (·.id)).Nodup := by
  rw [map_map]
  exact (compile_ok_iff.mp hcompile).2.1

theorem mergeReports_reportOf (isDecimal : Char → Bool) (rounded : Nat → Nat → ℚ)
    (hcompile : compile plan = .ok nodes) (runs₁ runs₂ : List Run) :
    mergeReports isDecimal rounded (reportOf rounded nodes runs₁) (reportOf rounded nodes runs₂) =
      .ok (buildReport rounded (rebuilt isDecimal (nodes.map .ofCompiled))
        ((coverageOf nodes runs₁).covered ∪ (coverageOf nodes runs₂).covered)
        (coverageOf nodes (runs₁ ++ runs₂)).skipped (coverageOf nodes (runs₁ ++ runs₂)).unknown
        (coverageOf nodes (runs₁ ++ runs₂)).decisions) := by
  unfold reportOf report
  rw [coverageOf_steps, coverageOf_steps, skipped_append, unknown_append]
  exact mergeReports_report ⟨nodes.map .ofCompiled, _, _, _, _⟩ ⟨nodes.map .ofCompiled, _, _, _, _⟩
    (ofCompiled_ids_nodup hcompile) rfl (fun b hb hbranch => ⟨b, hb, hbranch, rfl⟩) (covered_subset nodes _)
    (covered_subset nodes _) (explicitDecisions_append _ _)

theorem merged_same_iff (isDecimal : Char → Bool) (rounded : Nat → Nat → ℚ) (hcompile : compile plan = .ok nodes)
    (runs₁ runs₂ : List Run) :
    (∃ merged, mergeReports isDecimal rounded (reportOf rounded nodes runs₁) (reportOf rounded nodes runs₂) = .ok merged ∧
        merged.Same (reportOf rounded nodes (runs₁ ++ runs₂))) ↔
      BranchesLast (nodes.map .ofCompiled) ∧ NothingLost nodes runs₁ runs₂ ∧
        SourcesRecovered isDecimal (nodes.map .ofCompiled)
          ((coverageOf nodes runs₁).covered ∪ (coverageOf nodes runs₂).covered) := by
  rw [mergeReports_reportOf isDecimal rounded hcompile]
  simp only [Except.ok.injEq, exists_eq_left']
  rw [reportOf, report, coverageOf_steps, same_rebuilt_iff (ofCompiled_ids_nodup hcompile)
    (Finset.union_subset (covered_subset nodes _) (covered_subset nodes _)) (covered_subset nodes _), covered_append_iff]

theorem mergeReports_assoc (hcompile : compile plan = .ok nodes) (hlast : BranchesLast (nodes.map .ofCompiled))
    (runs₁ runs₂ runs₃ : List Run) {merged₁₂ merged₂₃ : Report}
    (h₁₂ : mergeReports isDecimal rounded (reportOf rounded nodes runs₁) (reportOf rounded nodes runs₂) = .ok merged₁₂)
    (h₂₃ : mergeReports isDecimal rounded (reportOf rounded nodes runs₂) (reportOf rounded nodes runs₃) = .ok merged₂₃) :
    ∃ report, mergeReports isDecimal rounded merged₁₂ (reportOf rounded nodes runs₃) = .ok report ∧
      mergeReports isDecimal rounded (reportOf rounded nodes runs₁) merged₂₃ = .ok report := by
  have hnodup := ofCompiled_ids_nodup hcompile
  have hids := (rebuilt_ids_iff isDecimal hnodup).mpr hlast
  rw [mergeReports_reportOf isDecimal rounded hcompile, Except.ok.injEq] at h₁₂ h₂₃
  subst h₁₂ h₂₃
  have hsub := Finset.union_subset (covered_subset nodes runs₁) (covered_subset nodes runs₂)
  have hsub' := Finset.union_subset (covered_subset nodes runs₂) (covered_subset nodes runs₃)
  refine ⟨buildReport rounded (rebuilt isDecimal (nodes.map .ofCompiled))
    ((coverageOf nodes runs₁).covered ∪ (coverageOf nodes runs₂).covered ∪ (coverageOf nodes runs₃).covered)
    (coverageOf nodes (runs₁ ++ runs₂ ++ runs₃)).skipped (coverageOf nodes (runs₁ ++ runs₂ ++ runs₃)).unknown
    (coverageOf nodes (runs₁ ++ runs₂ ++ runs₃)).decisions, ?_, ?_⟩
  · unfold reportOf report
    rw [coverageOf_steps, skipped_append (runs₁ ++ runs₂), unknown_append (runs₁ ++ runs₂)]
    conv_rhs => rw [← rebuilt_rebuilt]
    refine mergeReports_report ⟨rebuilt isDecimal _, _, _, _, _⟩ ⟨nodes.map .ofCompiled, _, _, _, _⟩
      (by rwa [plannedIds, hids]) hids ?_ (by rwa [plannedIds, hids]) (covered_subset nodes _) (explicitDecisions_append _ _)
    intro b hb hbranch
    obtain ⟨s, hs, rfl⟩ := mem_map.mp ((rebuilt_perm isDecimal _).mem_iff.mp hb)
    exact ⟨s, hs, by simpa using hbranch, by simp⟩
  · unfold reportOf report
    rw [coverageOf_steps, append_assoc, skipped_append runs₁, unknown_append runs₁, Finset.union_assoc]
    refine mergeReports_report ⟨nodes.map .ofCompiled, _, _, _, _⟩ ⟨rebuilt isDecimal _, _, _, _, _⟩ hnodup hids.symm ?_
      (covered_subset nodes _) (by rwa [plannedIds, hids]) (explicitDecisions_append _ _)
    intro b hb hbranch
    exact ⟨rebuiltStep isDecimal b, (rebuilt_perm isDecimal _).mem_iff.mpr (mem_map_of_mem hb),
      by simpa using hbranch, by simp⟩

theorem accumulates_iff (isDecimal : Char → Bool) (rounded : Nat → Nat → ℚ) (plan : YamlPlan) (nodes : List CompiledStep)
    (hcompile : compile plan = .ok nodes) (runs₁ runs₂ runs₃ : List Run) :
    Accumulates isDecimal rounded nodes runs₁ runs₂ runs₃ ↔
      BranchesLast (nodes.map .ofCompiled) ∧ NothingLost nodes runs₁ runs₂ ∧
        SourcesRecovered isDecimal (nodes.map .ofCompiled)
          ((coverageOf nodes runs₁).covered ∪ (coverageOf nodes runs₂).covered) := by
  rw [← merged_same_iff isDecimal rounded hcompile]
  constructor
  · rintro ⟨merged₁₂, _, _, _, h₁₂, hsame, -⟩
    exact ⟨merged₁₂, h₁₂, hsame⟩
  · rintro ⟨merged₁₂, h₁₂, hsame⟩
    have hlast := ((merged_same_iff isDecimal rounded hcompile runs₁ runs₂).mp ⟨merged₁₂, h₁₂, hsame⟩).1
    have h₂₃ := mergeReports_reportOf isDecimal rounded hcompile runs₂ runs₃
    obtain ⟨report, hleft, hright⟩ := mergeReports_assoc hcompile hlast runs₁ runs₂ runs₃ h₁₂ h₂₃
    exact ⟨merged₁₂, _, report, report, h₁₂, hsame, hleft, h₂₃, hright, ⟨rfl, rfl, fun _ => rfl, rfl, fun _ => rfl, rfl⟩⟩

def powerPlan : YamlPlan :=
  { name := "plan", version := "1", steps := [.leaf { id := "power_on" }, .leaf { id := "measure" }] }

theorem accumulates_powerPlan : ∃ nodes, compile powerPlan = .ok nodes ∧
    Accumulates Char.isDigit (fun n d => 100 * n / d) nodes [{ executedIds := ["power_on"] }]
      [{ executedIds := ["measure"] }] [{ skippedIds := ["measure"] }] := by
  refine ⟨_, rfl, (accumulates_iff _ _ powerPlan _ rfl _ _ _).mpr ⟨?_, ?_, ?_⟩⟩
  · unfold BranchesLast
    decide
  · simp [NothingLost]
  · exact sourcesRecovered_of_eq (by decide) _

def measured : List Run := [{ executedIds := ["power_on", "measure"] }]

def measureSkipped : List Run := [{ executedIds := ["power_on"], skippedIds := ["measure"] }]

/-- A step is executed in one run and skipped in the next. -/
theorem not_accumulates_powerPlan : ∃ nodes merged, compile powerPlan = .ok nodes ∧
    mergeReports Char.isDigit (fun n d => 100 * n / d) (reportOf (fun n d => 100 * n / d) nodes measured)
      (reportOf (fun n d => 100 * n / d) nodes measureSkipped) = .ok merged ∧
    merged.stepCoverage.executed = 2 ∧
    (reportOf (fun n d => 100 * n / d) nodes (measured ++ measureSkipped)).stepCoverage.executed = 1 ∧
    ¬ Accumulates Char.isDigit (fun n d => 100 * n / d) nodes measured measureSkipped [] := by
  refine ⟨_, _, rfl, mergeReports_reportOf _ _ (show compile powerPlan = _ from rfl) _ _, by decide, by decide, ?_⟩
  rintro ⟨merged, _, _, _, hmerged, hsame, -⟩
  rw [mergeReports_reportOf _ _ (show compile powerPlan = _ from rfl), Except.ok.injEq] at hmerged
  subst hmerged
  have hexecuted := congrArg StepBlock.executed hsame.stepCoverage
  revert hexecuted
  decide

end Accumulation

end AteStudio.Simulation
