import AteStudio.Value

/-!
# The plan DSL (`shared/dsl.py`)

The objects in `params["steps"]`, which only a subsequence has, are apart from the other keys of `params`.
-/

namespace AteStudio

inductive LoopType where
  | forLoop
  | whileLoop
  | foreachLoop
deriving DecidableEq, Repr

def LoopType.value : LoopType → String
  | .forLoop => "FOR"
  | .whileLoop => "WHILE"
  | .foreachLoop => "FOREACH"

inductive ExecutionMode where
  | serial
  | parallel
deriving DecidableEq, Repr

def ExecutionMode.value : ExecutionMode → String
  | .serial => "SERIAL"
  | .parallel => "PARALLEL"

inductive StepType where
  | script
  | action
  | loop
  | branch
  | barrier
  | fixtureControl
  | call
  | subsequence
  | breakpoint
deriving DecidableEq, Repr

def StepType.value : StepType → String
  | .script => "script"
  | .action => "action"
  | .loop => "loop"
  | .branch => "branch"
  | .barrier => "barrier"
  | .fixtureControl => "fixture_control"
  | .call => "call"
  | .subsequence => "subsequence"
  | .breakpoint => "breakpoint"

structure YamlStep where
  id : String
  type : Option StepType := none
  script : String := ""
  params : Dict String PyVal := ∅
  preconditions : List String := []
  dependsOn : List String := []
  resources : Dict String PyVal := ∅
  timeout : Int := 60
  retry : Int := 0
  onFail : Option String := none
  onFailure : Option String := none
  uutAffinity : Option String := none
  barrierName : Option String := none
  action : Option String := none
  fixtureId : Option String := none
  exportOutputs : Bool := false
  skipIf : Option String := none
  skipReason : Option String := none
  condition : Option String := none

structure YamlLoop where
  id : String
  loopType : LoopType
  count : Option Int := none
  condition : Option String := none
  collection : Option String := none
  iteratorVar : Option String := none
  executionMode : ExecutionMode := .serial
  maxIterations : Int := 1000
  skipIf : Option String := none
  skipReason : Option String := none
  dependsOn : List String := []

/-- An entry of a plan. `raw` is an entry of `params["steps"]` that is neither a `YamlStep`
nor a `YamlLoop`: the parser leaves plain dicts there. -/
inductive Item where
  | step (s : YamlStep) (steps : List Item)
  | loop (l : YamlLoop) (steps : List Item)
  | raw (entry : PyVal)

structure YamlPlan where
  name : String
  version : String
  scope : Dict String PyVal := ∅
  maxConcurrency : Int := 1
  uutCount : Int := 1
  fixtureId : Option String := none
  steps : List Item := []

namespace Item

abbrev leaf (s : YamlStep) : Item := .step s []

def id : Item → String
  | .step s _ => s.id
  | .loop l _ => l.id
  | .raw _ => ""

def dependsOn : Item → List String
  | .step s _ => s.dependsOn
  | .loop l _ => l.dependsOn
  | .raw _ => []

theorem list_induction {motive : List Item → Prop} (nil : motive [])
    (step : ∀ s steps items, motive steps → motive items → motive (.step s steps :: items))
    (loop : ∀ l steps items, motive steps → motive items → motive (.loop l steps :: items))
    (raw : ∀ entry items, motive items → motive (.raw entry :: items)) : ∀ items, motive items
  | [] => nil
  | .step s steps :: items =>
    step s steps items (list_induction nil step loop raw steps) (list_induction nil step loop raw items)
  | .loop l steps :: items =>
    loop l steps items (list_induction nil step loop raw steps) (list_induction nil step loop raw items)
  | .raw entry :: items => raw entry items (list_induction nil step loop raw items)

theorem mem_induction {motive : Item → Prop} (step : ∀ s steps, motive (.step s steps))
    (loop : ∀ l steps, (∀ item ∈ steps, motive item) → motive (.loop l steps))
    (raw : ∀ entry, motive (.raw entry)) : ∀ item, motive item
  | .step s steps => step s steps
  | .loop l steps => loop l steps fun item _ => mem_induction step loop raw item
  | .raw entry => raw entry

end Item

end AteStudio
