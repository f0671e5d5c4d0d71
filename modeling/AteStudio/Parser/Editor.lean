import AteStudio.Parser.Code
import AteStudio.Serializer.RoundTrip

/-!
# Plans of the editor on the edge

The parser takes the `depends_on` of a step, and drops that of a loop.
-/

namespace AteStudio.Parser

open Serializer hiding loopFields stepFields

/-! ## Documents -/

namespace Doc

theorem ofPys_eq (xs : List PyVal) : ofPys xs = xs.map ofPy := by
  induction xs with
  | nil => rfl
  | cons x xs ih => rw [ofPys, ih, List.map_cons]

theorem stepsIn_eq (kvs : List (PyVal × PyVal)) :
    stepsIn kvs = (((PyVal.dict kvs).get? "steps").map entriesOf).getD [] := by
  induction kvs with
  | nil => rfl
  | cons e kvs ih =>
    obtain ⟨key, value⟩ := e
    rw [stepsIn, PyVal.get?, List.find?_cons]
    cases hkey : key.str? == some "steps" with
    | true => rfl
    | false => exact ih

theorem ofPy_toPy (d : Dict String PyVal) : ofPy d.toPy = ⟨d.toPy, ((d.get? "steps").map entriesOf).getD []⟩ := by
  rw [← Dict.get?_toPy, Dict.toPy, ofPy, stepsIn_eq]

end Doc

variable {es : List Entry}

theorem parseAll_eq_ok_iff {py : Python} {docs : List Doc} :
    parseAll py docs = .ok es ↔ List.Forall₂ (fun doc e => parseStepOrLoop py doc = .ok e) docs es := by
  induction docs generalizing es with
  | nil => rw [parseAll, List.forall₂_nil_left_iff, Except.ok.injEq, eq_comm]
  | cons doc docs ih =>
    rw [parseAll, List.forall₂_cons_left_iff]
    simp only [bind_eq_ok, pure_eq_ok, ih]
    constructor
    · rintro ⟨e, he, es, hes, rfl⟩
      exact ⟨e, es, he, hes, rfl⟩
    · rintro ⟨e, es, he, hes, rfl⟩
      exact ⟨e, he, es, hes, rfl⟩

/-! ## Nodes and their items -/

section Graph

variable (g : SequenceGraph)

def isLoopNode (n : GraphNode) : Bool := n.data.contains "loop_type"

def topLevel : List GraphNode := g.nodes.filter fun n => n.parent = none

/-- What is written when a node is: the node, and in a loop its children. -/
inductive Below : GraphNode → GraphNode → Prop
  | refl (n : GraphNode) : Below n n
  | inside {n child m : GraphNode} : isLoopNode n = true → child ∈ childNodes g n.id → Below child m → Below n m

def Written (m : GraphNode) : Prop := ∃ n ∈ topLevel g, Below g n m

/-- The items of a loop are those of its children, in order. -/
inductive ItemOf : GraphNode → Entry → GraphNode → Entry → Prop
  | self (n : GraphNode) (e : Entry) : ItemOf n e n e
  | inside {n child m : GraphNode} {l : LoopFields} {steps : List Entry} {e f : Entry} : isLoopNode n = true →
      (child, e) ∈ (childNodes g n.id).zip steps → ItemOf child e m f → ItemOf n (.loop l steps) m f

def PlanItem (plan : Plan) (m : GraphNode) (f : Entry) : Prop :=
  ∃ n e, (n, e) ∈ (topLevel g).zip plan.steps ∧ ItemOf g n e m f

end Graph

def Entry.dependsOn : Entry → PyVal
  | .step s => s.dependsOn
  | .loop l _ => l.dependsOn

def Entry.dependencies (e : Entry) : List String :=
  match e.dependsOn with
  | .list xs => xs.filterMap PyVal.str?
  | _ => []

def isMode (py : Python) : PyVal → Prop
  | .str s => (ExecutionMode.ofValue? (py.upper s)).isSome = true
  | _ => False

def isLoopType (py : Python) : PyVal → Prop
  | .str s => (LoopType.ofValue? (py.upper s)).isSome = true
  | _ => False

structure Accepted (py : Python) (n : GraphNode) : Prop where
  id : truthy (n.data.getD "id" (.str n.id)) = true
  script : isLoopNode n = false → truthy (n.data.getD "script" (.str "")) = true
  loopType : isLoopNode n = true → isLoopType py (n.data.getD "loop_type" (.str "FOR"))
  mode : isLoopNode n = true → n.data.getD "execution_mode" .none = .none ∨ isMode py (n.data.getD "execution_mode" .none)

/-! ## One entry -/

section Entry

variable {py : Python} {n : GraphNode} {deps : List String}

theorem parseStep_isOk {data : PyVal} (htype : data.getD "type" .none = .none) :
    (∃ s, parseStep py data = .ok s) ↔
      truthy (data.getD "id" .none) = true ∧ truthy (data.getD "script" .none) = true := by
  constructor
  · rintro ⟨s, hs⟩
    obtain ⟨type, hparse, hid, hscript, -⟩ := parseStep_ok hs
    rw [(parseType_none_iff hparse).mpr htype] at hscript
    exact ⟨hid, hscript rfl⟩
  · rintro ⟨hid, hscript⟩
    refine ⟨stepFields py data (data.getD "id" .none) none (data.getD "script" .none), ?_⟩
    simp only [parseStep, require, hid, htype, parseType, parseScript, isScriptStep, hscript, if_true]
    rfl

theorem parse_stepToYaml :
    parseStepOrLoop py (.ofPy (stepToYaml n deps).toPy) = (parseStep py (stepToYaml n deps).toPy).map .step := by
  have htype : (stepToYaml n deps).get? "type" = none := by
    simp [stepToYaml, get?_addOptional, stepOptional, Dict.get?_set]
  have hloop := (get?_stepToYaml_head n deps).2.2.2
  rw [Doc.ofPy_toPy, Dict.toPy, parseStepOrLoop, ← Dict.toPy, parseDict]
  simp only [PyVal.getD, Dict.get?_toPy, htype, hloop]
  rfl

theorem step_accepted_iff (hkind : isLoopNode n = false) :
    (∃ e, parseStepOrLoop py (.ofPy (stepToYaml n deps).toPy) = .ok e) ↔ Accepted py n := by
  have htype : (stepToYaml n deps).toPy.getD "type" .none = .none := by
    simp [PyVal.getD, stepToYaml, get?_addOptional, stepOptional, Dict.get?_set]
  obtain ⟨hid, hscript, -, -⟩ := get?_stepToYaml_head n deps
  have hmap : (∃ e, (parseStep py (stepToYaml n deps).toPy).map Entry.step = .ok e) ↔
      ∃ s, parseStep py (stepToYaml n deps).toPy = .ok s := by
    cases parseStep py (stepToYaml n deps).toPy <;> simp [Except.map]
  rw [parse_stepToYaml, hmap, parseStep_isOk htype]
  simp only [PyVal.getD, Dict.get?_toPy, hid, hscript, Option.getD_some]
  constructor
  · rintro ⟨hid, hscript⟩
    exact ⟨hid, fun _ => hscript, fun h => absurd h (by simp [hkind]), fun h => absurd h (by simp [hkind])⟩
  · exact fun h => ⟨h.id, h.script hkind⟩

theorem step_item {e : Entry} (h : parseStepOrLoop py (.ofPy (stepToYaml n deps).toPy) = .ok e) :
    ∃ s, e = .step s ∧ e.dependencies = deps := by
  rw [parse_stepToYaml] at h
  obtain ⟨s, hs, rfl⟩ := map_step_ok h
  obtain ⟨type, -, -, -, rfl⟩ := parseStep_ok hs
  refine ⟨_, rfl, ?_⟩
  simp [Entry.dependencies, Entry.dependsOn, Parser.stepFields, PyVal.getD, (get?_stepToYaml_head n deps).2.2.1,
    stringList, List.filterMap_map, PyVal.str?, Function.comp_def]

theorem isLoopType.truthy {v : PyVal} (h : isLoopType py v) : truthy v = true := by
  cases v with
  | str s =>
    refine decide_eq_true fun hempty => ?_
    subst hempty
    rw [isLoopType, py.upper_upper "" rfl] at h
    exact absurd h (by decide)
  | _ => exact h.elim

theorem parseLoopType_isOk {id v : PyVal} : (∃ type, parseLoopType py id v = .ok type) ↔ isLoopType py v := by
  cases v with
  | str s =>
    rw [isLoopType, parseLoopType]
    cases LoopType.ofValue? (py.upper s) <;> simp
  | _ => simp [isLoopType, parseLoopType]

theorem parseExecutionMode_isOk {id v : PyVal} : (∃ mode, parseExecutionMode py id v = .ok mode) ↔ isMode py v := by
  cases v with
  | str s =>
    rw [isMode, parseExecutionMode]
    cases ExecutionMode.ofValue? (py.upper s) <;> simp
  | _ => simp [isMode, parseExecutionMode]

theorem parseLoop_isOk {data : PyVal} {entries : Except ParseError (List Entry)} :
    (∃ e, parseLoop py data entries = .ok e) ↔
      Parser.truthy (data.getD "id" .none) = true ∧ isLoopType py (data.getD "loop_type" .none) ∧
      isMode py (data.getD "execution_mode" (.str "SERIAL")) ∧
      ∃ steps, nestedSteps (data.getD "steps" (.list [])) entries = .ok steps := by
  constructor
  · rintro ⟨e, he⟩
    obtain ⟨type, steps, mode, htype, hsteps, hmode, hid, -, -⟩ := parseLoop_ok he
    exact ⟨hid, parseLoopType_isOk.mp ⟨type, htype⟩, parseExecutionMode_isOk.mp ⟨mode, hmode⟩, steps, hsteps⟩
  · rintro ⟨hid, htype, hmode, steps, hsteps⟩
    obtain ⟨type, hparse⟩ := parseLoopType_isOk.mpr htype
    obtain ⟨mode, hmode⟩ := parseExecutionMode_isOk.mpr hmode
    exact ⟨_, bind_eq_ok.mpr ⟨_, if_pos hid, bind_eq_ok.mpr ⟨_, if_pos htype.truthy,
      bind_eq_ok.mpr ⟨type, hparse, bind_eq_ok.mpr ⟨steps, hsteps, bind_eq_ok.mpr ⟨mode, hmode, rfl⟩⟩⟩⟩⟩⟩

section Loop

variable {d : Dict String PyVal} (hd : ∀ k, k ≠ "steps" → d.get? k = (loopHead n deps).get? k) {docs : List Doc}

include hd

theorem parse_loop : parseStepOrLoop py ⟨d.toPy, docs⟩ = parseLoop py d.toPy (parseAll py docs) := by
  have htype : d.get? "type" = none := by
    rw [hd _ (by decide)]
    simp [loopHead, get?_addOptional, loopOptional, Dict.get?_set]
  have hloop : d.get? "loop_type" = some (n.data.getD "loop_type" (.str "FOR")) := by
    rw [hd _ (by decide)]
    exact (get?_loopHead_head n deps).2.1
  rw [Dict.toPy, parseStepOrLoop, ← Dict.toPy, parseDict]
  simp only [PyVal.getD, Dict.get?_toPy, htype, hloop]
  rfl

theorem mode_iff : isMode py (d.toPy.getD "execution_mode" (.str "SERIAL")) ↔
    n.data.getD "execution_mode" .none = .none ∨ isMode py (n.data.getD "execution_mode" .none) := by
  rw [PyVal.getD, Dict.get?_toPy, hd _ (by decide), get?_loopHead n deps (by decide), loopKeep]
  split
  · next hnone =>
    refine iff_of_true ?_ (.inl hnone)
    rw [Option.getD_none, isMode, py.upper_upper "SERIAL" (by decide)]
    rfl
  · next hsome =>
    rw [Option.getD_some]
    exact ⟨.inr, fun h => h.resolve_left hsome⟩

theorem loop_accepted_iff (hkind : isLoopNode n = true)
    (hsteps : nestedSteps (d.toPy.getD "steps" (.list [])) (parseAll py docs) = parseAll py docs) :
    (∃ e, parseStepOrLoop py ⟨d.toPy, docs⟩ = .ok e) ↔ Accepted py n ∧ ∃ es, parseAll py docs = .ok es := by
  obtain ⟨hid, htype, -, -⟩ := get?_loopHead_head n deps
  rw [← hd _ (by decide), ← Dict.get?_toPy] at hid htype
  rw [parse_loop hd, parseLoop_isOk, mode_iff hd, hsteps]
  simp only [PyVal.getD, hid, htype, Option.getD_some]
  constructor
  · rintro ⟨hid, htype, hmode, hes⟩
    exact ⟨⟨hid, fun h => absurd h (by simp [hkind]), fun _ => htype, fun _ => hmode⟩, hes⟩
  · rintro ⟨h, hes⟩
    exact ⟨h.id, h.loopType hkind, h.mode hkind, hes⟩

theorem loop_item (hsteps : nestedSteps (d.toPy.getD "steps" (.list [])) (parseAll py docs) = parseAll py docs)
    {e : Entry} (h : parseStepOrLoop py ⟨d.toPy, docs⟩ = .ok e) :
    ∃ l es, e = .loop l es ∧ parseAll py docs = .ok es ∧ e.dependencies = [] := by
  rw [parse_loop hd] at h
  obtain ⟨type, es, mode, -, hes, -, -, -, rfl⟩ := parseLoop_ok h
  exact ⟨_, es, rfl, hsteps ▸ hes, rfl⟩

end Loop

end Entry

variable {g : SequenceGraph} {n : GraphNode}

theorem loopToYaml_some {f : GraphNode → Dict String (List String) → Option PyVal}
    {deps : List String} {v : PyVal} (h : loopToYaml f g n deps = some v) :
    ∃ (d : Dict String PyVal) (entries : List PyVal), v = d.toPy ∧
      (∀ k, k ≠ "steps" → d.get? k = (loopHead n deps).get? k) ∧
      List.Forall₂ (fun child w => f child (childDepMap g (childNodes g n.id)) = some w) (childNodes g n.id) entries ∧
      Doc.ofPy v = ⟨d.toPy, entries.map Doc.ofPy⟩ ∧
      ∀ es, nestedSteps (d.toPy.getD "steps" (.list [])) es = es := by
  unfold loopToYaml at h
  dsimp only at h
  split at h
  · next hempty =>
    cases h
    have hsteps := (get?_loopHead_head n deps).2.2.2
    refine ⟨loopHead n deps, [], rfl, fun _ _ => rfl, ?_, ?_, fun es => ?_⟩
    · rw [List.isEmpty_iff.mp hempty]
      exact .nil
    · rw [Doc.ofPy_toPy, hsteps]
      rfl
    · rw [PyVal.getD, Dict.get?_toPy, hsteps]
      rfl
  · obtain ⟨entries, hentries, h⟩ := Option.bind_eq_some_iff.mp h
    cases h
    refine ⟨(loopHead n deps).set "steps" (.list entries), entries, rfl, fun k hk => Dict.get?_set_of_ne _ _ hk,
      mapM_eq_some_iff.mp hentries, ?_, fun es => ?_⟩
    · rw [Doc.ofPy_toPy, Dict.get?_set_self, Option.map_some, Option.getD_some, Doc.entriesOf, Doc.ofPys_eq]
    · rw [PyVal.getD, Dict.get?_toPy, Dict.get?_set_self]
      rfl

/-! ## The tree of a node -/

section Tree

variable {py : Python} {g : SequenceGraph}

def Carries (g : SequenceGraph) (m : GraphNode) (f : Entry) : Prop :=
  if isLoopNode m then f.dependencies = [] else f.dependencies = (sources g m.id).insertionSort (· ≤ ·)

/-- Accepted exactly when every node in it is, with an item for each. -/
structure Reads (py : Python) (g : SequenceGraph) (n : GraphNode) (doc : Doc) : Prop where
  accepted_iff : (∃ e, parseStepOrLoop py doc = .ok e) ↔ ∀ m, Below g n m → Accepted py m
  item : ∀ e, parseStepOrLoop py doc = .ok e → ∀ m, Below g n m → ∃ f, ItemOf g n e m f
  carries : ∀ e, parseStepOrLoop py doc = .ok e → ∀ m f, ItemOf g n e m f → Carries g m f

variable {n : GraphNode}

theorem reads_step (hkind : isLoopNode n = false) :
    Reads py g n (.ofPy (stepToYaml n ((sources g n.id).insertionSort (· ≤ ·))).toPy) where
  accepted_iff := by
    rw [step_accepted_iff hkind]
    constructor
    · rintro h m (_ | ⟨hloop, -, -⟩)
      · exact h
      · exact absurd hloop (by simp [hkind])
    · exact fun h => h n (.refl n)
  item := by
    rintro e - m (_ | ⟨hloop, -, -⟩)
    · exact ⟨e, .self n e⟩
    · exact absurd hloop (by simp [hkind])
  carries := by
    intro e he m f hitem
    obtain ⟨s, rfl, hdeps⟩ := step_item he
    cases hitem
    rw [Carries, hkind]
    exact hdeps

variable {docs : List Doc}

theorem reads_all {children : List GraphNode} (h : List.Forall₂ (Reads py g) children docs) :
    (∃ es, parseAll py docs = .ok es) ↔ ∀ child ∈ children, ∀ m, Below g child m → Accepted py m := by
  induction h with
  | nil => simp [parseAll]
  | @cons child doc children docs hread hrest ih =>
    rw [List.forall_mem_cons, ← ih, ← hread.accepted_iff]
    simp only [parseAll_eq_ok_iff, List.forall₂_cons_left_iff]
    constructor
    · rintro ⟨es, e, es', he, hes', rfl⟩
      exact ⟨⟨e, he⟩, es', hes'⟩
    · rintro ⟨⟨e, he⟩, es', hes'⟩
      exact ⟨_, e, es', he, hes', rfl⟩

theorem reads_items {children : List GraphNode}
    (h : List.Forall₂ (Reads py g) children docs) (hes : parseAll py docs = .ok es) :
    List.Forall₂ (fun child e => ∃ doc, Reads py g child doc ∧ parseStepOrLoop py doc = .ok e) children es :=
  Forall₂.comp h (parseAll_eq_ok_iff.mp hes)

theorem reads_loop (hkind : isLoopNode n = true) {deps : List String} {d : Dict String PyVal}
    (hd : ∀ k, k ≠ "steps" → d.get? k = (loopHead n deps).get? k)
    (hsteps : ∀ es, nestedSteps (d.toPy.getD "steps" (.list [])) es = es)
    (hdocs : List.Forall₂ (Reads py g) (childNodes g n.id) docs) : Reads py g n ⟨d.toPy, docs⟩ where
  accepted_iff := by
    rw [loop_accepted_iff hd hkind (hsteps _), reads_all hdocs]
    constructor
    · rintro ⟨hn, hchildren⟩ m (_ | ⟨-, hchild, hbelow⟩)
      · exact hn
      · exact hchildren _ hchild m hbelow
    · exact fun h => ⟨h n (.refl n), fun child hchild m hbelow => h m (.inside hkind hchild hbelow)⟩
  item := by
    rintro e he m (_ | ⟨-, hchild, hbelow⟩)
    · exact ⟨e, .self n e⟩
    · obtain ⟨l, es, rfl, hes, -⟩ := loop_item hd (hsteps _) he
      have hitems := reads_items hdocs hes
      obtain ⟨e', hzip⟩ := Forall₂.exists_zip hitems hchild
      obtain ⟨doc, hread, hparse⟩ := (List.forall₂_iff_zip.mp hitems).2 hzip
      obtain ⟨f, hf⟩ := hread.item e' hparse m hbelow
      exact ⟨f, .inside hkind hzip hf⟩
  carries := by
    intro e he m f hitem
    obtain ⟨l, es, rfl, hes, hdeps⟩ := loop_item hd (hsteps _) he
    cases hitem with
    | self =>
      rw [Carries, if_pos hkind]
      exact hdeps
    | inside _ hzip hf =>
      obtain ⟨doc, hread, hparse⟩ := (List.forall₂_iff_zip.mp (reads_items hdocs hes)).2 hzip
      exact hread.carries _ hparse m f hf

variable (hdistinct : (g.nodes.map GraphNode.id).Nodup) (hsiblings : Siblings g)

include hdistinct hsiblings

theorem reads_nodeToYaml (fuel : Nat) {deps : Dict String (List String)} {v : PyVal}
    (hdeps : deps.getD n.id [] = sources g n.id) (h : nodeToYaml g fuel n deps = some v) : Reads py g n (.ofPy v) := by
  induction fuel generalizing n deps v with
  | zero => cases h
  | succ fuel ih =>
    unfold nodeToYaml at h
    simp only [hdeps] at h
    split at h
    · next hkind =>
      obtain ⟨d, entries, rfl, hd, hentries, hdoc, hsteps⟩ := loopToYaml_some h
      rw [hdoc]
      refine reads_loop hkind hd hsteps ?_
      rw [List.forall₂_map_right_iff]
      exact List.forall₂_iff_zip.mpr ⟨hentries.length_eq, fun hzip =>
        ih (childDepMap_eq hdistinct hsiblings (List.of_mem_zip hzip).1) ((List.forall₂_iff_zip.mp hentries).2 hzip)⟩
    · next hkind =>
      cases h
      exact reads_step (Bool.eq_false_iff.mpr hkind)

end Tree

variable {m : GraphNode}

theorem ItemOf.toBelow {e f : Entry} (h : ItemOf g n e m f) : Below g n m := by
  induction h with
  | self n e => exact .refl n
  | inside hkind hzip _ ih => exact .inside hkind (List.of_mem_zip hzip).1 ih

theorem Below.mem_nodes (h : Below g n m) (hn : n ∈ g.nodes) : m ∈ g.nodes := by
  induction h with
  | refl n => exact hn
  | inside _ hchild _ ih => exact ih (List.mem_of_mem_filter hchild)

/-! ## The plan -/

def withScope (document scope : PyVal) : PyVal :=
  match document with
  | .dict kvs => .dict (kvs ++ [(.str "scope", scope)])
  | v => v

section Plan

variable {py : Python} {name version : String} {steps : List PyVal} {scope : PyVal}

def planDocument (name version : String) (steps : List PyVal) : PyVal :=
  .dict [(.str "name", .str name), (.str "version", .str version), (.str "steps", .list steps)]

theorem parse_withScope_ok {plan : Plan} (h : parse py (withScope (planDocument name version steps) scope) = .ok plan) :
    name ≠ "" ∧ version ≠ "" ∧ parseAll py (steps.map Doc.ofPy) = .ok plan.steps := by
  rw [← Doc.ofPys_eq]
  obtain ⟨_, es, -, hes, htrue, rfl⟩ := parsePlan_ok h
  simp only [List.forall_mem_cons] at htrue
  exact ⟨of_decide_eq_true htrue.1, of_decide_eq_true htrue.2.1, hes⟩

theorem exists_parse_withScope (hname : name ≠ "") (hversion : version ≠ "") (hscope : truthy scope = true)
    (hparse : ∃ v, parseScope scope = .ok v) (hes : parseAll py (steps.map Doc.ofPy) = .ok es) :
    ∃ plan, parse py (withScope (planDocument name version steps) scope) = .ok plan ∧ plan.steps = es := by
  obtain ⟨v, hv⟩ := hparse
  rw [← Doc.ofPys_eq] at hes
  exact ⟨_, bind_eq_ok.mpr ⟨.str name, if_pos (decide_eq_true hname), bind_eq_ok.mpr ⟨.str version,
    if_pos (decide_eq_true hversion), bind_eq_ok.mpr ⟨scope, if_pos hscope, bind_eq_ok.mpr ⟨v, hv,
      bind_eq_ok.mpr ⟨es, hes, rfl⟩⟩⟩⟩⟩, rfl⟩

end Plan

section Document

variable {py : Python} {g : SequenceGraph} {name version : String} {document scope : PyVal}
  (hdistinct : (g.nodes.map GraphNode.id).Nodup) (hsiblings : Siblings g)
  (hdocument : serializePlan g name version = some document)

include hdistinct hsiblings hdocument

theorem exists_planDocument : ∃ steps, document = planDocument name version steps ∧
    List.Forall₂ (Reads py g) (topLevel g) (steps.map Doc.ofPy) := by
  obtain ⟨steps, hsteps, hdocument⟩ := Option.bind_eq_some_iff.mp hdocument
  cases hdocument
  refine ⟨steps, rfl, ?_⟩
  rw [List.forall₂_map_right_iff]
  exact (mapM_eq_some_iff.mp hsteps).imp fun n v hv =>
    reads_nodeToYaml hdistinct hsiblings _ (getD_depMap g.edges n.id) hv

theorem PlanItem.carries {plan : Plan} (hplan : parse py (withScope document scope) = .ok plan)
    {f : Entry} (h : PlanItem g plan m f) : Carries g m f := by
  obtain ⟨steps, rfl, hreads⟩ : ∃ steps, document = planDocument name version steps ∧
    List.Forall₂ (Reads py g) (topLevel g) (steps.map Doc.ofPy) := exists_planDocument hdistinct hsiblings hdocument
  obtain ⟨-, -, hes⟩ := parse_withScope_ok hplan
  obtain ⟨n, e, hzip, hitem⟩ := h
  obtain ⟨doc, hread, hdoc⟩ := (List.forall₂_iff_zip.mp (reads_items hreads hes)).2 hzip
  exact hread.carries e hdoc m f hitem

end Document

/-- Exactly when the parser takes every node, and no edge leads into a loop. -/
theorem editor_plan_iff (py : Python) (g : SequenceGraph) (name version : String) (document scope : PyVal)
    (hdistinct : (g.nodes.map GraphNode.id).Nodup) (hsiblings : Siblings g)
    (hdocument : serializePlan g name version = some document) (hscope : truthy scope = true)
    (hparse : ∃ v, parseScope scope = .ok v) :
    (∃ plan, parse py (withScope document scope) = .ok plan ∧
      ∀ m ∈ g.nodes, ∃ f, PlanItem g plan m f ∧ ∀ x, x ∈ f.dependencies ↔ x ∈ sources g m.id) ↔
    name ≠ "" ∧ version ≠ "" ∧
      ∀ m ∈ g.nodes, Written g m ∧ Accepted py m ∧ (isLoopNode m = true → sources g m.id = []) := by
  have hcarries {plan : Plan} (hplan : parse py (withScope document scope) = .ok plan) {m : GraphNode} {f : Entry}
      (h : PlanItem g plan m f) : Carries g m f := h.carries hdistinct hsiblings hdocument hplan
  obtain ⟨steps, rfl, hreads⟩ := exists_planDocument hdistinct hsiblings hdocument
  constructor
  · rintro ⟨plan, hplan, hitems⟩
    obtain ⟨hname, hversion, hes⟩ := parse_withScope_ok hplan
    refine ⟨hname, hversion, fun m hm => ?_⟩
    obtain ⟨f, hf, hdeps⟩ := hitems m hm
    have hdependencies := hcarries hplan hf
    obtain ⟨n, e, hzip, hitem⟩ := hf
    have hn := (List.of_mem_zip hzip).1
    refine ⟨⟨n, hn, hitem.toBelow⟩, (reads_all hreads).mp ⟨_, hes⟩ n hn m hitem.toBelow, fun hkind => ?_⟩
    rw [Carries, if_pos hkind] at hdependencies
    rw [hdependencies] at hdeps
    exact List.eq_nil_iff_forall_not_mem.mpr fun x hx => absurd ((hdeps x).mpr hx) List.not_mem_nil
  · rintro ⟨hname, hversion, hnodes⟩
    obtain ⟨es, hes⟩ := (reads_all hreads).mpr fun n hn m hbelow =>
      (hnodes m (hbelow.mem_nodes (List.mem_of_mem_filter hn))).2.1
    obtain ⟨plan, hplan, rfl⟩ := exists_parse_withScope hname hversion hscope hparse hes
    refine ⟨plan, hplan, fun m hm => ?_⟩
    obtain ⟨⟨n, hn, hbelow⟩, -, hloop⟩ := hnodes m hm
    have hitems := reads_items hreads hes
    obtain ⟨e, hzip⟩ := Forall₂.exists_zip hitems hn
    obtain ⟨doc, hread, hdoc⟩ := (List.forall₂_iff_zip.mp hitems).2 hzip
    obtain ⟨f, hitem⟩ := hread.item e hdoc m hbelow
    refine ⟨f, ⟨n, e, hzip, hitem⟩, fun x => ?_⟩
    have hdependencies := hcarries hplan ⟨n, e, hzip, hitem⟩
    unfold Carries at hdependencies
    split at hdependencies
    · next hkind => rw [hdependencies, hloop hkind]
    · rw [hdependencies, List.mem_insertionSort]

def stepNode (id : String) (parent : Option String := none) : GraphNode :=
  { id, parent, data := yamlToStepData (.dict [(.str "id", .str id), (.str "script", .str "measure.py")]) }

def loopNode (id : String) : GraphNode :=
  { id, data := yamlToLoopData (.dict [(.str "id", .str id), (.str "count", .int 2)]) }

def orderedGraph : SequenceGraph where
  nodes := [stepNode "a", stepNode "b", loopNode "L", stepNode "x" (some "L")]
  edges := [{ source := "a", target := "b" }]

theorem editor_plan_orderedGraph : ∃ document, serializePlan orderedGraph "plan" "1" = some document ∧
    ((∃ plan, parse asciiPython (withScope document (.str "bench")) = .ok plan ∧
      ∀ m ∈ orderedGraph.nodes, ∃ f, PlanItem orderedGraph plan m f ∧
        ∀ x, x ∈ f.dependencies ↔ x ∈ sources orderedGraph m.id) ↔
    "plan" ≠ "" ∧ "1" ≠ "" ∧ ∀ m ∈ orderedGraph.nodes, Written orderedGraph m ∧ Accepted asciiPython m ∧
      (isLoopNode m = true → sources orderedGraph m.id = [])) :=
  ⟨_, rfl, editor_plan_iff asciiPython orderedGraph "plan" "1" _ (.str "bench") (by decide)
    (by simp [Siblings, orderedGraph, stepNode]) rfl rfl ⟨_, rfl⟩⟩

def waitingGraph : SequenceGraph where
  nodes := [stepNode "a", loopNode "L", stepNode "x" (some "L")]
  edges := [{ source := "a", target := "L" }]

/-- The document is accepted, and the loop no longer waits. -/
theorem not_editor_plan_waitingGraph : ∃ document plan, serializePlan waitingGraph "plan" "1" = some document ∧
    parse asciiPython (withScope document (.str "bench")) = .ok plan ∧
      ¬ ∀ m ∈ waitingGraph.nodes, ∃ f, PlanItem waitingGraph plan m f ∧
        ∀ x, x ∈ f.dependencies ↔ x ∈ sources waitingGraph m.id := by
  obtain ⟨document, hdocument⟩ : ∃ document, serializePlan waitingGraph "plan" "1" = some document := ⟨_, rfl⟩
  obtain ⟨plan, hplan⟩ : ∃ plan, parse asciiPython (withScope document (.str "bench")) = .ok plan := by
    cases hdocument
    exact ⟨_, rfl⟩
  refine ⟨document, plan, hdocument, hplan, fun h => ?_⟩
  obtain ⟨f, hf, hdeps⟩ := h (loopNode "L") (by simp [waitingGraph])
  have hcarries := hf.carries (by decide) (by simp [Siblings, waitingGraph, stepNode, loopNode]) hdocument hplan
  rw [Carries, if_pos (by decide)] at hcarries
  have ha := (hdeps "a").mpr (by decide)
  rw [hcarries] at ha
  exact absurd ha List.not_mem_nil

end AteStudio.Parser
