import AteStudio.Compiler.Soundness
import AteStudio.Parser.Code

/-!
# What the compiler reads of a parsed plan

`toItem?` is the item that the compiler sees, and `none` stands for a field that it looks into and that has another
type. A field that is only copied into the node keeps its default when its type is not the one of `shared/dsl.py`.
-/

namespace AteStudio.Parser

open Compiler List

open PyVal (reqStr? optStr? intOr boolOr strsOr dictOr)

/-! ## Items -/

/-- A list, a text or the keys of a dictionary. A container goes through `depends_on`, a leaf through
`depends_on or inherited_deps`. -/
def targets? (container : Bool) (v : PyVal) : Option (List String) :=
  if container || truthy v then v.iter?.bind (·.mapM PyVal.str?) else some []

def namedEntries (kvs : List (PyVal × PyVal)) : Dict String PyVal :=
  .ofList (kvs.filterMap fun e => e.1.str?.map (·, e.2))

/-- The parameters of a branch and of a subsequence are asked for keys. Those of other steps go through `dict`. -/
def StepFields.params? (s : StepFields) : Option (Dict String PyVal) :=
  match s.params with
  | .dict kvs => some (namedEntries kvs)
  | v => if s.type ∈ [some .branch, some .subsequence] then none else (toDict v).toOption.map namedEntries

def StepFields.toItem? (s : StepFields) : Option Item := do
  let id ← reqStr? (some s.id)
  let params ← s.params?
  let dependsOn ← targets? (s.type = some .subsequence) s.dependsOn
  -- Only a subsequence has entries of its own, and the parser leaves plain dicts there.
  let (params, steps) := if s.type = some .subsequence then splitParams params else (params, [])
  return .step {
    id, type := s.type, params, dependsOn
    script := (reqStr? (some s.script)).getD ""
    preconditions := (strsOr (some s.preconditions)).getD []
    resources := (dictOr (some s.resources)).getD ∅
    timeout := (intOr 60 (some s.timeout)).getD 60
    retry := (intOr 0 (some s.retry)).getD 0
    onFail := (optStr? (some s.onFail)).getD none
    onFailure := (optStr? (some s.onFailure)).getD none
    uutAffinity := (optStr? (some s.uutAffinity)).getD none
    barrierName := (optStr? (some s.barrierName)).getD none
    action := (optStr? (some s.action)).getD none
    fixtureId := (optStr? (some s.fixtureId)).getD none
    exportOutputs := (boolOr false (some s.exportOutputs)).getD false
    skipIf := (optStr? (some s.skipIf)).getD none
    skipReason := (optStr? (some s.skipReason)).getD none
    condition := (optStr? (some s.condition)).getD none } steps

/-- For a `FOR` loop what is not true is no count, and `True` counts one. Other loops only copy it. -/
def count? : LoopType → PyVal → Option (Option Int)
  | _, .int count => some (some count)
  | .forLoop, .bool true => some (some 1)
  | .forLoop, v => if truthy v then none else some none
  | _, _ => some none

def LoopFields.toLoop? (l : LoopFields) : Option YamlLoop := do
  let id ← reqStr? (some l.id)
  let count ← count? l.loopType l.count
  let loop : YamlLoop := {
    id, loopType := l.loopType, count, executionMode := l.executionMode
    condition := (optStr? (some l.condition)).getD none
    collection := (optStr? (some l.collection)).getD none
    iteratorVar := (optStr? (some l.iteratorVar)).getD none
    maxIterations := (intOr 1000 (some l.maxIterations)).getD 1000
    skipIf := (optStr? (some l.skipIf)).getD none
    skipReason := (optStr? (some l.skipReason)).getD none }
  let dependsOn ← targets? (expands loop) l.dependsOn
  return { loop with dependsOn }

def iterates (l : YamlLoop) : Bool := expands l && 0 < iterations l

mutual

def Entry.toItem? : Entry → Option Item
  | .step s => s.toItem?
  | .loop l steps => do
    let l ← l.toLoop?
    let items := Entry.toItems? steps
    if iterates l then return .loop l (← items) else return .loop l (items.getD [])

def Entry.toItems? : List Entry → Option (List Item)
  | [] => some []
  | e :: es => do
    let item ← e.toItem?
    let items ← Entry.toItems? es
    return item :: items

end

theorem StepFields.toItem?_ok {s : StepFields} {y : YamlStep} {steps : List Item}
    (h : s.toItem? = some (.step y steps)) : s.id = .str y.id ∧ y.type = s.type := by
  obtain ⟨id, hid, h⟩ := Option.bind_eq_some_iff.mp h
  obtain ⟨params, -, h⟩ := Option.bind_eq_some_iff.mp h
  obtain ⟨deps, -, h⟩ := Option.bind_eq_some_iff.mp h
  obtain ⟨rfl, -⟩ := Item.step.inj (Option.some.inj h)
  cases hs : s.id <;> rw [hs] at hid <;> cases hid
  exact ⟨rfl, rfl⟩

theorem LoopFields.toLoop?_ok {l : LoopFields} {y : YamlLoop} (h : l.toLoop? = some y) :
    y.loopType = l.loopType ∧ count? l.loopType l.count = some y.count := by
  obtain ⟨id, -, h⟩ := Option.bind_eq_some_iff.mp h
  obtain ⟨count, hcount, h⟩ := Option.bind_eq_some_iff.mp h
  obtain ⟨deps, -, h⟩ := Option.bind_eq_some_iff.mp h
  cases h
  exact ⟨rfl, hcount⟩

/-! ## What can be read -/

mutual

/-- `_collect_placeholders` goes through the parameters of all steps in a `FOREACH` loop. -/
def Entry.Scanned : Entry → Prop
  | .step s => ∃ kvs, s.params = .dict kvs
  | .loop _ steps => Entry.ScannedAll steps

def Entry.ScannedAll : List Entry → Prop
  | [] => True
  | e :: es => e.Scanned ∧ Entry.ScannedAll es

end

mutual

/-- The fields that are looked into have their types, at every entry that the compiler comes to. No subsequence has
entries, and `then` and `else` of a branch can be iterated. -/
def Entry.Readable : Entry → Prop
  | .step s => ∃ y, s.toItem? = some (.step y []) ∧ ¬ BadBranch (.step y)
  | .loop l steps => ∃ y, l.toLoop? = some y ∧ (iterates y = true → Entry.ReadableAll steps) ∧
      (y.loopType = .foreachLoop → Entry.ScannedAll steps)

def Entry.ReadableAll : List Entry → Prop
  | [] => True
  | e :: es => e.Readable ∧ Entry.ReadableAll es

end

end AteStudio.Parser
