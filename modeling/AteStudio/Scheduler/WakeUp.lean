import AteStudio.Executor.Loops
import AteStudio.Lib.Except
import AteStudio.Lib.Tally

/-!
# Wake-ups

`compile_plan` indexes the steps by what their conditions mention, and an event wakes the steps under its key
(`scheduler/scanner_scheduler.py`, `variable_space.py`, `resource_manager.py`).
-/

namespace AteStudio.WakeUp

open AteStudio.Executor (Scan getVariable isVariableName)
open AteStudio.Json List

/-! ## References -/

/-- The name of the reference that ends with the character. -/
def found : Scan → Char → Option (List Char)
  | .name read, c => if c = '\x7d' ∧ isVariableName read.reverse then some read.reverse else none
  | _, _ => none

/-- The names that the pattern finds, by the scan that `resolve` makes. -/
def references : Scan → List Char → List (List Char)
  | _, [] => []
  | s, c :: rest => (found s c).toList ++ references (s.next (fun _ => none) c).2 rest

variable {value value' : List Char → Option (List Char)}

theorem next_congr {s : Scan} {c : Char} (h : ∀ name ∈ found s c, value name = value' name) :
    s.next value c = s.next value' c := by
  cases s with
  | text => rfl
  | dollar => rfl
  | name read =>
    simp only [Scan.next]
    split
    · split
      · rename_i hc hname
        rw [h read.reverse (by simp [found, hc, hname])]
      · rfl
    · rfl

theorem next_snd (value value' : List Char → Option (List Char)) (s : Scan) (c : Char) :
    (s.next value c).2 = (s.next value' c).2 := by
  cases s with
  | text => rfl
  | dollar => rfl
  | name read =>
    simp only [Scan.next]
    split
    · split <;> rfl
    · rfl

theorem run_congr {s : Scan} {text : List Char} (h : ∀ name ∈ references s text, value name = value' name) :
    s.run value text = s.run value' text := by
  induction text generalizing s with
  | nil => rfl
  | cons c rest ih =>
    rw [references, forall_mem_append, next_snd _ value'] at h
    rw [Scan.run, Scan.run, next_congr (by simpa using h.1), ih h.2]

/-! ## The index -/

def keys (c : Condition) : List String :=
  c.step.toList ++ c.expression.toList.flatMap (fun e => (references .text e.toList).map String.ofList) ++
    c.resourceAvailable.getD []

def compilePlan (steps : List (String × Option Condition)) : Dict String (Finset String) :=
  steps.foldl (fun index (id, c) =>
    (c.toList.flatMap keys).foldl (fun index key => index.alter key fun ids => insert id (ids.getD ∅)) index) ∅

def registerAll (reg : StepRegistry) : List (String × Option Condition) → Except StepRegistry.RegisterError StepRegistry
  | [] => .ok reg
  | (id, c) :: steps => do registerAll (← reg.register id c) steps

/-! ## Changes -/

structure World where
  statuses : Dict String StepStatus
  vars : VariableSpace
  locks : Finset String
  owners : Dict String String

inductive Change where
  | set (name : String) (value : Obj)
  | status (stepId : String) (status : StepStatus)
  | release (resourceId ownerId : String)

/-- Nothing when the call raises. -/
def Change.apply (w : World) : Change → Option World
  | set name value => (w.vars.set? name value).map fun vars => { w with vars }
  | status stepId new =>
    if w.statuses.contains stepId then some { w with statuses := w.statuses.set stepId new } else none
  | release resourceId ownerId =>
    if resourceId ∈ w.locks ∧ w.owners.get? resourceId = some ownerId then
      some { w with owners := w.owners.erase resourceId }
    else none

def Change.key : Change → String
  | set name _ => name
  | status stepId _ => stepId
  | release resourceId _ => resourceId

/-- What an evaluator is built with. Global variables are not set in a run. -/
structure Env where
  eval : String → Option Bool
  str : Obj → String
  globals : Dict String Obj
  hasVariables : Bool
  hasResources : Bool

def getVar (env : Env) (vars : VariableSpace) (name : String) : Option Obj :=
  match cutDot name with
  | some ("global", path) => (env.globals.get? path).filter fun v => !(v matches .none)
  | _ => getVariable vars name

def resolve (env : Env) (vars : VariableSpace) (expression : String) : String :=
  String.ofList <| Scan.text.run (fun name => (getVar env vars (String.ofList name)).map fun v => (env.str v).toList)
    expression.toList

def isAvailable (w : World) (resourceId : String) : Bool := resourceId ∉ w.locks || !w.owners.contains resourceId

def evaluator (env : Env) (w : World) : Evaluator where
  evalExpression e := env.eval (if env.hasVariables then resolve env w.vars e else e)
  resources := if env.hasResources then some (isAvailable w) else none

/-- The change makes the condition of a pending step true. -/
def Enables (env : Env) (reg : StepRegistry) (w : World) (change : Change) (id : String) : Prop :=
  ∃ w' c, change.apply w = some w' ∧ w.statuses.get? id = some .pending ∧ reg.conditions.get? id = some c ∧
    (evaluator env w).evaluate w.statuses c = some false ∧ (evaluator env w').evaluate w'.statuses c = some true

/-! ## What a change can reach -/

theorem mem_foldl_alter (entries : List (String × String)) (index : Dict String (Finset String)) (id key : String) :
    id ∈ (entries.foldl (fun index e => index.alter e.2 fun ids => insert e.1 (ids.getD ∅)) index).getD key ∅ ↔
      id ∈ index.getD key ∅ ∨ (id, key) ∈ entries := by
  induction entries generalizing index with
  | nil => simp
  | cons e entries ih =>
    rw [foldl_cons, ih, Dict.getD, Dict.get?_alter]
    by_cases hkey : key = e.2
    · simp [hkey, Dict.getD, Prod.ext_iff, or_assoc, or_left_comm]
    · simp [hkey, Dict.getD, Prod.ext_iff]

variable {steps : List (String × Option Condition)} {c : Condition}

theorem mem_compilePlan {id key : String}
    (hc : (id, some c) ∈ steps) (hkey : key ∈ keys c) : id ∈ (compilePlan steps).getD key ∅ := by
  have hflat : compilePlan steps = (steps.flatMap fun e => (e.2.toList.flatMap keys).map (e.1, ·)).foldl
      (fun index e => index.alter e.2 fun ids => insert e.1 (ids.getD ∅)) ∅ := by
    simp only [compilePlan, foldl_flatMap, foldl_map]
  rw [hflat, mem_foldl_alter]
  exact .inr (mem_flatMap.mpr ⟨_, hc, mem_map.mpr ⟨key, by simpa using hkey, rfl⟩⟩)

theorem mem_of_registerAll {reg reg' : StepRegistry}
    (h : registerAll reg steps = .ok reg') {id : String} (hc : reg'.conditions.get? id = some c) :
    reg.conditions.get? id = some c ∨ (id, some c) ∈ steps := by
  induction steps generalizing reg with
  | nil =>
    cases h
    exact .inl hc
  | cons entry steps ih =>
    obtain ⟨id', c'⟩ := entry
    obtain ⟨mid, hmid, hrest⟩ := bind_eq_ok.mp h
    rcases ih hrest with hold | hnew
    · rw [(StepRegistry.register_ok hmid).2.2.2, Option.or_eq_some_iff, Option.ite_none_right_eq_some] at hold
      rcases hold with ⟨rfl, rfl⟩ | ⟨-, hold⟩
      · exact .inr mem_cons_self
      · exact .inl hold
    · exact .inr (mem_cons_of_mem _ hnew)

theorem cutDot_eq {name first rest : String} (h : cutDot name = some (first, rest)) : name = first ++ "." ++ rest := by
  unfold cutDot at h
  split at h
  · rename_i start c tail heq
    cases h
    rw [span_eq_takeWhile_dropWhile, Prod.mk.injEq] at heq
    have hdot := head?_dropWhile_not (· ≠ '.') name.toList
    rw [heq.2] at hdot
    obtain rfl : c = '.' := by simpa using hdot
    refine String.toList_inj.mp ?_
    rw [← takeWhile_append_dropWhile (p := (· ≠ '.')) (l := name.toList), heq.1, heq.2]
    simp
  · cases h

def nameOf : VariablePath → String
  | .scope key => "scope" ++ "." ++ key
  | .steps stepId key => "steps" ++ "." ++ (stepId ++ "." ++ key)
  | .loop loopId key => "loop" ++ "." ++ (loopId ++ "." ++ key)

theorem nameOf_parse? {name : String} {path : VariablePath} (h : VariablePath.parse? name = some path) :
    name = nameOf path := by
  obtain ⟨⟨level, rest⟩, hcut, h⟩ := Option.bind_eq_some_iff.mp h
  rw [cutDot_eq hcut]
  dsimp only at h
  split_ifs at h with hlevel hlevel hlevel
  · cases h
    rw [hlevel]
    rfl
  all_goals
    obtain ⟨⟨id, key⟩, hrest, rfl⟩ := Option.map_eq_some_iff.mp h
    rw [hlevel, cutDot_eq hrest]
    rfl

theorem getVar_write {env : Env} {vars vars' : VariableSpace} {name name' : String} {value : Obj}
    (h : vars.set? name value = some vars') (hne : name' ≠ name) : getVar env vars' name' = getVar env vars name' := by
  obtain ⟨path, hpath, rfl⟩ := Option.map_eq_some_iff.mp h
  have hlookup : (VariablePath.parse? name').bind (vars.write value path).lookup =
      (VariablePath.parse? name').bind vars.lookup := by
    cases hpath' : VariablePath.parse? name' with
    | none => rfl
    | some path' =>
      have hpaths : path' ≠ path := fun heq => hne (by rw [nameOf_parse? hpath', heq, ← nameOf_parse? hpath])
      simp [VariableSpace.lookup_write, hpaths]
  simp only [getVar, getVariable, hlookup]

theorem resolve_set (env : Env) {vars vars' : VariableSpace} {name expression : String} {value : Obj}
    (h : vars.set? name value = some vars') (hne : name ∉ (references .text expression.toList).map String.ofList) :
    resolve env vars' expression = resolve env vars expression := by
  refine congrArg String.ofList (run_congr fun read hread => ?_)
  rw [getVar_write h]
  rintro rfl
  exact hne (mem_map_of_mem hread)

theorem evaluate_apply {env : Env} {w w' : World} {change : Change} (h : change.apply w = some w')
    (hkey : change.key ∉ keys c) :
    (evaluator env w').evaluate w'.statuses c = (evaluator env w).evaluate w.statuses c := by
  simp only [keys, mem_append, not_or, Option.mem_toList, mem_flatMap] at hkey
  obtain ⟨⟨hstep, hexpression⟩, hresource⟩ := hkey
  unfold Evaluator.evaluate
  cases change with
  | set name value =>
    obtain ⟨vars, hset, rfl⟩ := Option.map_eq_some_iff.mp h
    have hresults : (evaluator env { w with vars }).expressionResults c = (evaluator env w).expressionResults c := by
      unfold Evaluator.expressionResults
      split
      · rename_i expression hc
        have hresolve := resolve_set env hset fun hmem => hexpression ⟨expression, hc, hmem⟩
        simp only [evaluator, hresolve]
      · rfl
    rw [hresults]
    rfl
  | status stepId status =>
    simp only [Change.apply] at h
    split_ifs at h
    cases h
    have hresults : stepResults (w.statuses.set stepId status) c = stepResults w.statuses c := by
      unfold stepResults
      split
      · rename_i step _ hc _
        have hne : step ≠ stepId := fun heq => hstep (by rw [hc, heq]; rfl)
        rw [Dict.get?_set_of_ne _ _ hne]
      · rfl
    rw [hresults]
    rfl
  | release resourceId ownerId =>
    simp only [Change.apply] at h
    split_ifs at h
    cases h
    have hresults : (evaluator env { w with owners := w.owners.erase resourceId }).resourceResults c =
        (evaluator env w).resourceResults c := by
      unfold Evaluator.resourceResults
      split
      · rename_i names hc
        have hall : names.all (isAvailable { w with owners := w.owners.erase resourceId }) =
            names.all (isAvailable w) := by
          rw [Bool.eq_iff_iff, all_eq_true, all_eq_true]
          refine forall₂_congr fun name hname => ?_
          have hne : name ≠ resourceId := fun heq => hresource (by rw [hc]; exact heq ▸ hname)
          simp [isAvailable, Dict.contains, Dict.get?_erase, hne]
        cases hmanaged : env.hasResources <;> simp [evaluator, hmanaged, hall]
      · rfl
    rw [hresults]
    rfl

theorem wakes (env : Env) (steps : List (String × Option Condition)) (reg : StepRegistry)
    (hreg : registerAll {} steps = .ok reg) (w : World) (change : Change) (id : String)
    (h : Enables env reg w change id) : id ∈ (compilePlan steps).getD change.key ∅ := by
  obtain ⟨w', c, happly, -, hc, hfalse, htrue⟩ := h
  have hmem : (id, some c) ∈ steps := (mem_of_registerAll hreg hc).resolve_left (by simp)
  by_contra hindex
  have hkey : change.key ∉ keys c := fun hkey => hindex (mem_compilePlan hmem hkey)
  rw [evaluate_apply happly hkey, hfalse] at htrue
  cases htrue

def onVoltage : List (String × Option Condition) := [("b", some { expression := some "$\x7bscope.v\x7d > 3" })]

def constants : Env where
  eval text := some (text == "5 > 3")
  str _ := "5"
  globals := ∅
  hasVariables := true
  hasResources := false

def waiting : World := ⟨Dict.ofList [("b", .pending)], {}, ∅, ∅⟩

theorem wakes_onVoltage : ∃ reg, registerAll {} onVoltage = .ok reg ∧
    Enables constants reg waiting (.set "scope.v" (.int 5)) "b" ∧ "b" ∈ (compilePlan onVoltage).getD "scope.v" ∅ := by
  have henables (reg : StepRegistry) (h : reg.conditions.get? "b" = some { expression := some "$\x7bscope.v\x7d > 3" }) :
      Enables constants reg waiting (.set "scope.v" (.int 5)) "b" :=
    ⟨_, _, rfl, rfl, h, by decide, by decide⟩
  exact ⟨_, rfl, henables _ rfl, wakes constants onVoltage _ rfl waiting (.set "scope.v" (.int 5)) "b" (henables _ rfl)⟩

end AteStudio.WakeUp
