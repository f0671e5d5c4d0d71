import AteStudio.Parser.Materializer
import AteStudio.Parser.Typed

/-!
# Parsed plans in the compiler

The entries of a subsequence are still plain dicts then, and the body of a `WHILE` or a `FOREACH` loop has no nodes.
-/

namespace AteStudio.Parser

open Compiler List

/-! ## The leaves of a document -/

def typeText (data : PyVal) : Option String := (data.getD "type" .none).str?

def loopTypeOf (py : Python) (data : PyVal) : Option LoopType :=
  if typeText data = some "loop" then some (inferLoopType data)
  else if typeText data ∈ [some "branch", some "breakpoint", some "subsequence"] then none
  else if (data.get? "loop_type").isSome then LoopType.ofValue? (py.upper (py.str (data.getD "loop_type" .none)))
  else none

def spelledType (py : Python) : PyVal → Option StepType
  | .none => none
  | type => StepType.ofValue? (py.lower (py.str type))

/-- A type that is not spelled in lower case is read by `_parse_step` only. -/
def stepTypeOf (py : Python) (data : PyVal) : Option StepType :=
  if typeText data = some "branch" then some .branch
  else if typeText data = some "breakpoint" then some .breakpoint
  else if typeText data = some "subsequence" then some .subsequence
  else spelledType py (data.getD "type" .none)

def idText (data : PyVal) : String := (data.getD "id" .none).str?.getD ""

def countOf (data : PyVal) : Nat :=
  match data.getD "count" .none with
  | .int count => count.toNat
  | .bool true => 1
  | _ => 0

mutual

/-- Once for each iteration around them: the id of the node and of the leaf. -/
def leaves (py : Python) (pre suf : String) : Doc → List (String × String)
  | ⟨data, steps⟩ =>
    match loopTypeOf py data with
    | some .forLoop =>
      if isListed data then (List.range (countOf data)).flatMap fun n => leavesAll py pre (suf ++ iterSuffix n) steps
      else []
    | some _ => if isListed data then leavesAll py pre suf steps else []
    | none =>
      if stepTypeOf py data = some .subsequence then leavesAll py (pre ++ idText data ++ ".") suf steps
      else [(pre ++ idText data ++ suf, idText data)]

def leavesAll (py : Python) (pre suf : String) : List Doc → List (String × String)
  | [] => []
  | doc :: docs => leaves py pre suf doc ++ leavesAll py pre suf docs

end

def Covered (py : Python) (docs : List Doc) (nodes : List CompiledStep) : Prop :=
  (leavesAll py "" "" docs).Sublist (nodes.map fun node => (node.id, node.sourceStepId))

mutual

/-- No leaf in a `WHILE` or `FOREACH` loop or in a subsequence, except where a `FOR` loop makes no iteration. -/
def Kept (py : Python) : Doc → Prop
  | ⟨data, steps⟩ =>
    match loopTypeOf py data with
    | some .forLoop => isListed data = true → 0 < countOf data → KeptAll py steps
    | some _ => isListed data = true → leavesAll py "" "" steps = []
    | none => stepTypeOf py data = some .subsequence → leavesAll py "" "" steps = []

def KeptAll (py : Python) : List Doc → Prop
  | [] => True
  | doc :: docs => Kept py doc ∧ KeptAll py docs

end

/-! ## Leaves and occurrences -/

/-- The node of an occurrence and its leaf, seen from inside a prefix and a suffix. -/
def named (pre suf : String) (o : Occ) : String × String :=
  (pre ++ prefixOf o.path ++ o.leaf.id ++ (suf ++ suffixOf o.path), o.leaf.id)

theorem named_leaf (pre suf : String) (leaf : Leaf) : named pre suf ⟨[], leaf⟩ = (pre ++ leaf.id ++ suf, leaf.id) := by
  simp [named, prefixOf, suffixOf]

theorem named_within_loop (pre suf : String) (l : YamlLoop) (n : Nat) (o : Occ) :
    named pre suf (o.within [loopFrame l n]) = named pre (suf ++ iterSuffix n) o := by
  simp [named, Occ.within, loopFrame, prefixOf, suffixOf, String.append_assoc]

mutual

theorem map_snd_leaves (py : Python) : ∀ (pre suf : String) (doc : Doc),
    (leaves py pre suf doc).map Prod.snd = (leaves py "" "" doc).map Prod.snd
  | pre, suf, ⟨data, steps⟩ => by
    have ih (pre suf : String) := map_snd_leavesAll py pre suf steps
    rw [leaves, leaves]
    split
    · split
      · simp only [map_flatMap, ih _ (suf ++ _), ih _ ("" ++ _)]
      · rfl
    · split
      · rw [ih]
      · rfl
    · split
      · rw [ih, ih (_ ++ ".")]
      · rfl

theorem map_snd_leavesAll (py : Python) : ∀ (pre suf : String) (docs : List Doc),
    (leavesAll py pre suf docs).map Prod.snd = (leavesAll py "" "" docs).map Prod.snd
  | pre, suf, [] => by rw [leavesAll, leavesAll]
  | pre, suf, doc :: docs => by
    rw [leavesAll, leavesAll, map_append, map_append, map_snd_leaves py pre suf doc, map_snd_leavesAll py pre suf docs]

end

theorem leavesAll_eq_nil {py : Python} {docs : List Doc} (h : leavesAll py "" "" docs = []) (pre suf : String) :
    leavesAll py pre suf docs = [] := by
  have hmap := map_snd_leavesAll py pre suf docs
  rw [h, map_nil] at hmap
  exact map_eq_nil_iff.mp hmap

/-! ## Parsed entries -/

/-- No raw entry, no branch that cannot be resolved, and the leaves of `doc` are covered. -/
structure Compiles (py : Python) (doc : Doc) (item : Item) : Prop where
  raw : reachesRaw item = false
  branches : ∀ o ∈ occsItem item, ¬ BadBranch o.leaf
  covered : ∀ pre suf, (leaves py pre suf doc).Sublist ((occsItem item).map (named pre suf))

structure CompilesAll (py : Python) (docs : List Doc) (items : List Item) : Prop where
  raw : anyReachesRaw items = false
  branches : ∀ o ∈ occs items, ¬ BadBranch o.leaf
  covered : ∀ pre suf, (leavesAll py pre suf docs).Sublist ((occs items).map (named pre suf))

section Entries

variable {py : Python} {data : PyVal} {docs : List Doc}

theorem Compiles.leaf {y : YamlStep} (hloop : loopTypeOf py data = none) (htype : y.type = stepTypeOf py data)
    (hid : data.getD "id" .none = .str y.id) (hsub : y.type ≠ some .subsequence) (hbranch : ¬ BadBranch (.step y)) :
    Compiles py ⟨data, docs⟩ (.step y []) := by
  have hitem : occsItem (.step y []) = [⟨[], .step y⟩] := by
    rw [occsItem, isSubsequence, if_neg (by simpa using hsub)]
  refine ⟨by simp [reachesRaw, isSubsequence, hsub], ?_, fun pre suf => ?_⟩
  · rw [hitem]
    simpa using hbranch
  · rw [hitem, map_singleton, named_leaf, leaves, hloop, ← htype]
    simp only [hsub, if_false, idText, hid, PyVal.str?, Option.getD_some, Leaf.id]
    exact List.Sublist.refl _

theorem Compiles.subsequence {y : YamlStep} (hloop : loopTypeOf py data = none) (htype : y.type = stepTypeOf py data)
    (hsub : y.type = some .subsequence) (hempty : leavesAll py "" "" docs = []) :
    Compiles py ⟨data, docs⟩ (.step y []) := by
  refine ⟨by simp [reachesRaw, anyReachesRaw], ?_, fun pre suf => ?_⟩
  · simp [occsItem, occs, isSubsequence, hsub]
  · simp [leaves, hloop, ← htype, hsub, leavesAll_eq_nil hempty]

theorem countOf_eq {count : Option Int} (h : count? .forLoop (data.getD "count" .none) = some count) :
    countOf data = (count.getD 0).toNat := by
  unfold countOf
  generalize data.getD "count" .none = v at h
  cases v with
  | int i =>
    cases h
    rfl
  | bool b => cases b <;> cases h <;> rfl
  | _ =>
    simp only [count?] at h
    split at h <;> cases h
    rfl

theorem leaves_forLoop (hloop : loopTypeOf py data = some .forLoop) (hlist : isListed data = true) (pre suf : String) :
    leaves py pre suf ⟨data, docs⟩ =
      (List.range (countOf data)).flatMap fun n => leavesAll py pre (suf ++ iterSuffix n) docs := by
  rw [leaves, hloop]
  simp [hlist]

variable {type : LoopType}

theorem leaves_unlisted (hloop : loopTypeOf py data = some type) (hlist : isListed data = false)
    (pre suf : String) : leaves py pre suf ⟨data, docs⟩ = [] := by
  cases type <;> simp [leaves, hloop, hlist]

theorem leaves_otherLoop (hloop : loopTypeOf py data = some type) (hfor : type ≠ .forLoop)
    (hkept : Kept py ⟨data, docs⟩) (hlist : isListed data = true) (pre suf : String) :
    leaves py pre suf ⟨data, docs⟩ = [] := by
  cases type <;> simp_all [leaves, Kept, leavesAll_eq_nil]

theorem covered_forLoop {y : YamlLoop} {items : List Item} (hfor : y.loopType = .forLoop)
    (hbody : iterates y = true → CompilesAll py docs items) (pre suf : String) :
    ((List.range (iterations y)).flatMap fun n => leavesAll py pre (suf ++ iterSuffix n) docs).Sublist
      ((occsItem (.loop y items)).map (named pre suf)) := by
  cases hiter : iterates y with
  | true =>
    rw [occsItem, if_pos (Bool.and_eq_true_iff.mp hiter).1, map_flatMap]
    refine Sublist.flatMap_right _ fun n _ => ?_
    rw [map_map]
    have hnamed : named pre suf ∘ Occ.within [loopFrame y n] = named pre (suf ++ iterSuffix n) :=
      funext (named_within_loop pre suf y n)
    rw [hnamed]
    exact (hbody hiter).covered _ _
  | false =>
    have hzero : iterations y = 0 := by
      simp only [iterates, expands, iterations, hfor] at hiter ⊢
      by_contra hne
      have hpos : 0 < (y.count.getD 0).toNat := Nat.pos_of_ne_zero hne
      have hcount : y.count.getD 0 ≠ 0 := by omega
      simp [hpos, hcount] at hiter
    rw [hzero]
    exact nil_sublist _

theorem Compiles.loop {y : YamlLoop} {items : List Item} (hloop : loopTypeOf py data = some y.loopType)
    (hcount : y.loopType = .forLoop → countOf data = iterations y)
    (hbody : iterates y = true → isListed data = true → CompilesAll py docs items)
    (hnone : isListed data = false → items = []) (hkept : Kept py ⟨data, docs⟩) :
    Compiles py ⟨data, docs⟩ (.loop y items) := by
  have hall : iterates y = true → anyReachesRaw items = false ∧ ∀ o ∈ occs items, ¬ BadBranch o.leaf := by
    intro hiter
    cases hlist : isListed data with
    | true => exact ⟨(hbody hiter hlist).raw, (hbody hiter hlist).branches⟩
    | false => simp [hnone hlist, anyReachesRaw]
  refine ⟨?_, ?_, fun pre suf => ?_⟩
  · rw [reachesRaw, ← iterates]
    cases hiter : iterates y with
    | true => rw [(hall hiter).1, Bool.and_false]
    | false => rfl
  · rw [occsItem]
    split
    · next hexpands =>
      intro o ho
      obtain ⟨n, hn, ho⟩ := mem_flatMap.mp ho
      obtain ⟨o', ho', rfl⟩ := mem_map.mp ho
      have hpos : 0 < iterations y := Nat.zero_lt_of_lt (mem_range.mp hn)
      exact (hall (by simp [iterates, hexpands, hpos])).2 o' ho'
    · simp [BadBranch]
  · -- Nothing is asked for without a list.
    cases hlist : isListed data with
    | false =>
      rw [leaves_unlisted hloop hlist]
      exact nil_sublist _
    | true =>
      by_cases hfor : y.loopType = .forLoop
      · rw [leaves_forLoop (hfor ▸ hloop) hlist, hcount hfor]
        exact covered_forLoop hfor (fun hiter => hbody hiter hlist) pre suf
      · rw [leaves_otherLoop hloop hfor hkept hlist]
        exact nil_sublist _

theorem loopTypeOf_plain (hloop : typeText data ≠ some "loop") (hbranch : typeText data ≠ some "branch")
    (hbreakpoint : typeText data ≠ some "breakpoint") (hsubsequence : typeText data ≠ some "subsequence") :
    loopTypeOf py data = if (data.get? "loop_type").isSome then
      LoopType.ofValue? (py.upper (py.str (data.getD "loop_type" .none))) else none := by
  rw [loopTypeOf, if_neg hloop, if_neg (by simp [hbranch, hbreakpoint, hsubsequence])]

theorem parseType_eq {id type : PyVal} {t : Option StepType} (h : parseType py id type = .ok t) :
    t = spelledType py type := by
  unfold parseType at h
  split at h
  · cases h
    rfl
  · next hne =>
    split at h <;> cases h
    next hvalue =>
      rw [spelledType, hvalue]
      exact hne

/-- What an entry is parsed to. -/
theorem parseDict_ok {e : Entry} {entries : Except ParseError (List Entry)} (h : parseDict py data entries = .ok e) :
    (∃ s, e = .step s ∧ loopTypeOf py data = none ∧ s.type = stepTypeOf py data ∧ s.id = data.getD "id" .none) ∨
      ∃ l es, e = .loop l es ∧ loopTypeOf py data = some l.loopType ∧ l.count = data.getD "count" .none ∧
        nestedSteps (data.getD "steps" (.list [])) entries = .ok es := by
  unfold parseDict at h
  dsimp only at h
  rw [← typeText] at h
  split at h
  · next htype =>
    obtain ⟨es, mode, hes, -, -, rfl⟩ := parseLoopV32_ok h
    exact .inr ⟨_, es, rfl, if_pos htype, rfl, hes⟩
  next hloop =>
  split at h
  · next htype =>
    obtain ⟨s, hs, rfl⟩ := map_step_ok h
    obtain ⟨kvs, -, -, rfl⟩ := params_ok hs
    exact .inl ⟨_, rfl, by simp [loopTypeOf, htype], by simp [stepTypeOf, htype, specialStep], rfl⟩
  next hbranch =>
  split at h
  · next htype =>
    obtain ⟨s, hs, rfl⟩ := map_step_ok h
    obtain ⟨-, -, rfl⟩ := parseBreakpoint_ok hs
    exact .inl ⟨_, rfl, by simp [loopTypeOf, htype], by simp [stepTypeOf, htype, specialStep], rfl⟩
  next hbreakpoint =>
  split at h
  · next htype =>
    obtain ⟨s, hs, rfl⟩ := map_step_ok h
    obtain ⟨kvs, -, -, rfl⟩ := params_ok hs
    exact .inl ⟨_, rfl, by simp [loopTypeOf, htype], by simp [stepTypeOf, htype, specialStep], rfl⟩
  next hsubsequence =>
  have hplain := @loopTypeOf_plain py data hloop hbranch hbreakpoint hsubsequence
  split at h
  · next hkey =>
    rw [if_pos hkey] at hplain
    obtain ⟨type, es, mode, htype, hes, -, -, -, rfl⟩ := parseLoop_ok h
    obtain ⟨text, htext, hvalue⟩ := parseLoopType_ok htype
    rw [htext, Python.str, hvalue] at hplain
    exact .inr ⟨_, es, rfl, hplain, rfl, hes⟩
  · next hkey =>
    rw [if_neg hkey] at hplain
    obtain ⟨s, hs, rfl⟩ := map_step_ok h
    obtain ⟨type, htype, -, -, rfl⟩ := parseStep_ok hs
    refine .inl ⟨_, rfl, hplain, ?_, rfl⟩
    rw [stepTypeOf, if_neg hbranch, if_neg hbreakpoint, if_neg hsubsequence]
    exact parseType_eq htype

theorem step_compiles {s : StepFields} (hloop : loopTypeOf py data = none) (htype : s.type = stepTypeOf py data)
    (hid : s.id = data.getD "id" .none) (hread : (Entry.step s).Readable) (hkept : Kept py ⟨data, docs⟩) :
    ∃ item, (Entry.step s).toItem? = some item ∧ Compiles py ⟨data, docs⟩ item := by
  rw [Entry.Readable] at hread
  obtain ⟨y, hitem, hbranch⟩ := hread
  obtain ⟨hy, hytype⟩ := StepFields.toItem?_ok hitem
  rw [Kept, hloop, ← htype, ← hytype] at hkept
  refine ⟨.step y [], by rw [Entry.toItem?, hitem], ?_⟩
  by_cases hsub : y.type = some .subsequence
  · exact .subsequence hloop (hytype.trans htype) hsub (hkept hsub)
  · exact .leaf hloop (hytype.trans htype) (hid ▸ hy) hsub hbranch

theorem nestedSteps_compiles {es : List Entry} {entries : Except ParseError (List Entry)}
    (hes : nestedSteps (data.getD "steps" (.list [])) entries = .ok es)
    (ih : isListed data = true → entries = .ok es → ∃ items, Entry.toItems? es = some items ∧ CompilesAll py docs items) :
    ∃ items, Entry.toItems? es = some items ∧ (isListed data = true → CompilesAll py docs items) ∧
      (isListed data = false → items = []) := by
  rcases nestedSteps_ok hes with ⟨hlist, hes⟩ | ⟨hlist, rfl⟩
  · obtain ⟨items, hitems, h⟩ := ih hlist hes
    exact ⟨items, hitems, fun _ => h, fun hnone => nomatch hlist.symm.trans hnone⟩
  · exact ⟨[], rfl, fun hsome => (nomatch hlist.symm.trans hsome), fun _ => rfl⟩

theorem loop_compiles {l : LoopFields} {es : List Entry} (hloop : loopTypeOf py data = some l.loopType)
    (hl : l.count = data.getD "count" .none)
    (hes : nestedSteps (data.getD "steps" (.list [])) (parseAll py docs) = .ok es)
    (hread : (Entry.loop l es).Readable) (hkept : Kept py ⟨data, docs⟩)
    (ih : parseAll py docs = .ok es → Entry.ReadableAll es → KeptAll py docs →
      ∃ items, Entry.toItems? es = some items ∧ CompilesAll py docs items) :
    ∃ item, (Entry.loop l es).toItem? = some item ∧ Compiles py ⟨data, docs⟩ item := by
  rw [Entry.Readable] at hread
  obtain ⟨y, hy, hbody, -⟩ := hread
  obtain ⟨hytype, hycount⟩ := LoopFields.toLoop?_ok hy
  rw [← hytype] at hloop hycount
  have hcount : y.loopType = .forLoop → countOf data = iterations y := by
    intro hfor
    rw [hfor, hl] at hycount
    exact countOf_eq hycount
  rw [Entry.toItem?, hy, Option.bind_eq_bind, Option.bind_some]
  cases hiter : iterates y with
  | true =>
    have hexpands := Bool.and_eq_true_iff.mp hiter
    have hfor : y.loopType = .forLoop := (of_decide_eq_true hexpands.1).1
    have hpos : 0 < countOf data := (hcount hfor).symm ▸ of_decide_eq_true hexpands.2
    obtain ⟨items, hitems, hall, hnone⟩ := nestedSteps_compiles hes fun hlist hp => by
      rw [Kept, hloop, hfor] at hkept
      exact ih hp (hbody hiter) (hkept hlist hpos)
    refine ⟨.loop y items, by simp [hitems], .loop hloop hcount (fun _ => hall) hnone hkept⟩
  | false =>
    refine ⟨.loop y ((Entry.toItems? es).getD []), by simp, .loop hloop hcount (fun h => ?_) (fun hlist => ?_) hkept⟩
    · cases hiter.symm.trans h
    · rcases nestedSteps_ok hes with ⟨hsome, -⟩ | ⟨-, rfl⟩
      · cases hlist.symm.trans hsome
      · rfl

end Entries

mutual

theorem parseStepOrLoop_compiles (py : Python) : ∀ (doc : Doc) (e : Entry), parseStepOrLoop py doc = .ok e →
    e.Readable → Kept py doc → ∃ item, e.toItem? = some item ∧ Compiles py doc item
  | ⟨.dict kvs, docs⟩, e, hparse, hread, hkept => by
    rw [parseStepOrLoop] at hparse
    rcases parseDict_ok hparse with ⟨s, rfl, hloop, htype, hid⟩ | ⟨l, es, rfl, hloop, hcount, hes⟩
    · exact step_compiles hloop htype hid hread hkept
    · exact loop_compiles hloop hcount hes hread hkept (parseAll_compiles py docs es)

theorem parseAll_compiles (py : Python) : ∀ (docs : List Doc) (es : List Entry), parseAll py docs = .ok es →
    Entry.ReadableAll es → KeptAll py docs → ∃ items, Entry.toItems? es = some items ∧ CompilesAll py docs items
  | [], es, hparse, _, _ => by
    rw [parseAll] at hparse
    cases hparse
    refine ⟨[], rfl, rfl, by simp, fun pre suf => ?_⟩
    rw [leavesAll]
    exact nil_sublist _
  | doc :: docs, es, hparse, hread, hkept => by
    rw [parseAll] at hparse
    rw [KeptAll] at hkept
    obtain ⟨e, he, hparse⟩ := bind_eq_ok.mp hparse
    obtain ⟨rest, hrest, hparse⟩ := bind_eq_ok.mp hparse
    cases hparse
    rw [Entry.ReadableAll] at hread
    obtain ⟨item, hitem, hfirst⟩ := parseStepOrLoop_compiles py doc e he hread.1 hkept.1
    obtain ⟨items, hitems, hothers⟩ := parseAll_compiles py docs rest hrest hread.2 hkept.2
    refine ⟨item :: items, by rw [Entry.toItems?, hitem, hitems]; rfl, ?_, ?_, fun pre suf => ?_⟩
    · rw [anyReachesRaw, hfirst.raw, hothers.raw, Bool.or_false]
    · rw [occs, forall_mem_append]
      exact ⟨hfirst.branches, hothers.branches⟩
    · rw [occs, leavesAll, map_append]
      exact (hfirst.covered pre suf).append (hothers.covered pre suf)

end

/-! ## Plans -/

def Plan.toYaml? (plan : Plan) : Option YamlPlan := do
  let steps ← Entry.toItems? plan.steps
  return { name := "", version := "", steps }

/-- `compile` returns nodes for all leaves, or raises what it declares. -/
def CompilesOrRejects (py : Python) (docs : List Doc) (plan : YamlPlan) : Prop :=
  (∃ nodes, compile plan = .ok nodes ∧ Covered py docs nodes) ∨
    ∃ err, compile plan = .error err ∧ (err.isValueError = true ∨ ∃ cyclic, err = .circularDependency cyclic)

theorem nodeOf_source {st : Tables} {o : Occ} {node : CompiledStep} (h : nodeOf st o = .ok node) :
    node.sourceStepId = o.leaf.id := by
  obtain ⟨path, leaf⟩ := o
  unfold nodeOf at h
  obtain ⟨inherited, -, h⟩ := bind_eq_ok.mp h
  cases leaf with
  | deferred l =>
    obtain ⟨deps, -, h⟩ := bind_eq_ok.mp h
    cases h
    rfl
  | step s =>
    obtain ⟨deps, -, h⟩ := bind_eq_ok.mp h
    dsimp only at h
    split at h
    · obtain ⟨thenIds, -, h⟩ := bind_eq_ok.mp h
      obtain ⟨elseIds, -, h⟩ := bind_eq_ok.mp h
      cases h
      rfl
    · cases h
      rfl

theorem expand_named {plan : YamlPlan} {nodes : List CompiledStep} (h : expand plan = .ok nodes) :
    nodes.map (fun node => (node.id, node.sourceStepId)) = (occs plan.steps).map (named "" "") := by
  have hall : List.Forall₂ (fun o node => named "" "" o = (CompiledStep.id node, node.sourceStepId)) (occs plan.steps)
      nodes := (expand_ok h).imp fun o node hn => by
    obtain ⟨_, _, hspec⟩ := nodeOf_ok hn
    rw [hspec.id, nodeOf_source hn, named, idAt, String.empty_append, String.empty_append]
  rw [← List.forall₂_eq_eq_eq, List.forall₂_map_left_iff, List.forall₂_map_right_iff]
  exact hall.flip.imp fun _ _ => Eq.symm

theorem CompilesAll.compilesOrRejects {py : Python} {docs : List Doc} {plan : YamlPlan}
    (h : CompilesAll py docs plan.steps) : CompilesOrRejects py docs plan := by
  unfold CompilesOrRejects compile
  cases he : expand plan with
  | error err =>
    refine .inr ⟨err, rfl, ?_⟩
    rcases expand_error h.raw he with hvalue | ⟨-, o, ho, hbad⟩
    · exact .inl hvalue
    · exact absurd hbad (h.branches o ho)
  | ok nodes =>
    have hcovered : Covered py docs nodes := by
      rw [Covered, expand_named he]
      exact h.covered "" ""
    rcases checkCycles_cases fun node hn x hx => expand_closed he hn (by simp [hx]) with
      ⟨-, dup, hc⟩ | ⟨-, -, hc⟩ | ⟨-, -, cyclic, hc⟩
    · exact .inr ⟨.duplicateIds dup, by simp [hc, bind, Except.bind], .inl rfl⟩
    · exact .inl ⟨nodes, by simp [hc, bind, Except.bind, pure, Except.pure], hcovered⟩
    · exact .inr ⟨.circularDependency cyclic, by simp [hc, bind, Except.bind], .inr ⟨cyclic, rfl⟩⟩

def entriesOf : Doc → List Doc
  | ⟨data, docs⟩ => if isListed data then docs else []

theorem parsePlan_compiles {py : Python} {doc : Doc} {plan : Plan} (hparse : parsePlan py doc = .ok plan)
    (hread : Entry.ReadableAll plan.steps) (hkept : KeptAll py (entriesOf doc)) :
    ∃ yaml, plan.toYaml? = some yaml ∧ CompilesOrRejects py (entriesOf doc) yaml := by
  obtain ⟨data, docs⟩ := doc
  obtain ⟨scope, es, -, hes, -, rfl⟩ := parsePlan_ok hparse
  obtain ⟨items, hitems, hbody, hnone⟩ := nestedSteps_compiles hes fun hlist hall => by
    rw [entriesOf, if_pos hlist] at hkept
    exact parseAll_compiles py docs es hall hread hkept
  refine ⟨{ name := "", version := "", steps := items }, by rw [Plan.toYaml?, hitems]; rfl, ?_⟩
  apply CompilesAll.compilesOrRejects
  rw [entriesOf]
  split
  · next hlist => exact hbody hlist
  · next hlist =>
    rw [hnone (Bool.eq_false_iff.mpr hlist)]
    exact ⟨rfl, by simp, fun _ _ => nil_sublist _⟩

def loopDocument : PyVal := documentOf [stepOf "a" [(.str "resources", .list [.str "dmm"])],
  loopOf "l" [stepOf "b" [(.str "timeout", .float (3 / 2))]]]

def inlineDocument : PyVal :=
  documentOf [.dict [(.str "id", .str "s"), (.str "type", .str "subsequence"), (.str "steps", .list [stepOf "a" []])]]

end AteStudio.Parser
