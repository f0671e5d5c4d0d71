import AteStudio.Serializer.Code

/-!
# What a dictionary keeps of a node

A key that is left out is read back as its default, and a key is left out only when that default
is its value.
-/

namespace AteStudio.Serializer

open Dict

open PyVal (Same)

/-! ## The parts of a dictionary -/

theorem get?_addOptional (keys : List String) (keep : String → Option PyVal) (result : Dict String PyVal)
    (k : String) : (addOptional keys keep result).get? k =
      if k ∈ keys then (keep k).or (result.get? k) else result.get? k := by
  unfold addOptional
  induction keys generalizing result with
  | nil => simp
  | cons key keys ih =>
    rw [List.foldl_cons, ih]
    cases hkeep : keep key with
    | none =>
      by_cases hk : k = key
      · subst hk; simp [hkeep]
      · simp [hk]
    | some val =>
      by_cases hk : k = key
      · subst hk; simp [hkeep]
      · simp [hk, get?_set_of_ne]

theorem getD_depMap (edges : List GraphEdge) (t : String) :
    (depMap edges).getD t [] = (edges.filter fun e => e.target = t).map GraphEdge.source := by
  have hfold (deps : Dict String (List String)) :
      (edges.foldl (fun deps e => deps.set e.target (deps.getD e.target [] ++ [e.source])) deps).getD t [] =
        deps.getD t [] ++ (edges.filter fun e => e.target = t).map GraphEdge.source := by
    induction edges generalizing deps with
    | nil => simp
    | cons e edges ih =>
      rw [List.foldl_cons, ih]
      by_cases h : e.target = t
      · subst h; simp [getD]
      · simp [getD, get?_set_of_ne, h, Ne.symm h]
  exact hfold ∅

def stepsOf (steps : Option PyVal) (parent : Option String) : Option (List GraphNode × List GraphEdge) :=
  match steps with
  | some v => yamlSteps v parent
  | none => some ([], [])

theorem nestedSteps_eq (kvs : List (PyVal × PyVal)) (parent : Option String) :
    nestedSteps kvs parent = stepsOf ((PyVal.dict kvs).get? "steps") parent := by
  induction kvs with
  | nil => rfl
  | cons e kvs ih =>
    obtain ⟨key, value⟩ := e
    unfold nestedSteps
    by_cases h : key.str? == some "steps"
    · simp [PyVal.get?, h, stepsOf]
    · simp only [Bool.not_eq_true] at h
      simp only [h, ih, PyVal.get?, List.find?_cons]
      rfl

/-! ## Fields -/

/-- Exactly the given fields, and no `None` where a missing key gets another value. -/
structure HasFields (fields : List (String × PyVal)) (data : Dict String PyVal) : Prop where
  keys : data.keys.Perm (fields.map Prod.fst)
  defined : ∀ f ∈ fields, f.2 ≠ .none → data.get? f.1 ≠ some .none

variable {fields : List (String × PyVal)}

theorem get?_readFields (h : (fields.map Prod.fst).Nodup) (stepData : PyVal) {f : String × PyVal} (hf : f ∈ fields) :
    (readFields fields stepData h).get? f.1 = some (stepData.getD f.1 f.2) := by
  rw [get?_eq_some_iff]
  exact List.mem_map_of_mem hf

theorem keys_readFields (hn : (fields.map Prod.fst).Nodup) (stepData : PyVal) :
    (readFields fields stepData hn).keys = fields.map Prod.fst := by
  simp [readFields, keys, Function.comp_def]

theorem readFields_hasFields (hn : (fields.map Prod.fst).Nodup) {stepData : PyVal}
    (h : ∀ f ∈ fields, f.2 ≠ .none → stepData.getD f.1 f.2 ≠ .none) :
    HasFields fields (readFields fields stepData hn) := by
  refine ⟨keys_readFields hn stepData ▸ List.Perm.refl _, ?_⟩
  intro f hf hne
  rw [get?_readFields hn stepData hf]
  exact fun he => h f hf hne (Option.some.inj he)

variable {data : Dict String PyVal}

theorem readFields_same (hn : (fields.map Prod.fst).Nodup) (hdata : HasFields fields data) {stepData : PyVal}
    (h : ∀ f ∈ fields, ∀ v, data.get? f.1 = some v → Same v (stepData.getD f.1 f.2)) (k : String) :
    Option.Rel Same (data.get? k) ((readFields fields stepData hn).get? k) := by
  by_cases hk : k ∈ fields.map Prod.fst
  · obtain ⟨v, hv⟩ := (data.mem_keys_iff k).mp (hdata.keys.mem_iff.mpr hk)
    obtain ⟨f, hf, rfl⟩ := List.mem_map.mp hk
    rw [hv, get?_readFields hn stepData hf]
    exact .some (h f hf v hv)
  · rw [(data.get?_eq_none_iff k).mpr (fun hmem => hk (hdata.keys.mem_iff.mp hmem)),
      (get?_eq_none_iff _ k).mpr (keys_readFields hn stepData ▸ hk)]
    exact .none

theorem HasFields.get?_isSome
    (h : HasFields fields data) (k : String) : (data.get? k).isSome = decide (k ∈ fields.map Prod.fst) := by
  rw [Bool.eq_iff_iff, decide_eq_true_iff, ← h.keys.mem_iff, mem_keys_iff, Option.isSome_iff_exists]

/-! ## Steps -/

theorem same_of_equals {v d : PyVal} (hd : d.num? = some 0 ∨ d = .none ∨ d = .dict [])
    (h : v.equals d = true) : Same v d := by
  rcases hd with hd | rfl | rfl
  · right
    refine ⟨0, ?_, hd⟩
    cases v <;> cases d <;> simp_all [PyVal.equals, PyVal.num?]
  · left
    cases v <;> simp_all [PyVal.equals, PyVal.num?]
  · left
    cases v <;> simp_all [PyVal.equals, PyVal.num?]

variable {key : String}

theorem stepKeep_cases {v : PyVal} (h : data.get? key = some v) :
    stepKeep data key = some v ∨
      stepKeep data key = none ∧ (v = .none ∨ v.equals (stepDefaultOmit.getD key .none) = true) := by
  unfold stepKeep
  have hv : data.getD key .none = v := by simp [getD, h]
  rw [hv]
  split
  · exact .inr ⟨rfl, .inl rfl⟩
  · split
    · next heq => exact .inr ⟨rfl, .inr heq⟩
    · exact .inl rfl

theorem stepDefaultOmit_agrees : ∀ f ∈ stepFields,
    (stepDefaultOmit.getD f.1 .none = f.2 ∧ (f.2.num? = some 0 ∨ f.2 = .dict [])) ∨
      stepDefaultOmit.getD f.1 .none = .none := by
  intro f hf
  simp only [stepFields, List.mem_cons, List.not_mem_nil, or_false] at hf
  rcases hf with rfl | rfl | rfl | rfl | rfl | rfl | rfl | rfl | rfl | rfl
  all_goals first | exact .inr rfl | exact .inl ⟨rfl, .inr rfl⟩ | exact .inl ⟨rfl, .inl rfl⟩

variable (node : GraphNode) (dependsOn : List String)

theorem get?_stepToYaml_head :
    (stepToYaml node dependsOn).get? "id" = some (node.data.getD "id" (.str node.id)) ∧
      (stepToYaml node dependsOn).get? "script" = some (node.data.getD "script" (.str "")) ∧
      (stepToYaml node dependsOn).get? "depends_on" = some (stringList dependsOn) ∧
      (stepToYaml node dependsOn).get? "loop_type" = none := by
  simp [stepToYaml, get?_addOptional, stepOptional, get?_set]

theorem get?_stepToYaml (h : key ∈ stepOptional) : (stepToYaml node dependsOn).get? key = stepKeep node.data key := by
  have hbase : key ≠ "id" ∧ key ≠ "script" ∧ key ≠ "depends_on" := by
    revert key
    decide
  unfold stepToYaml
  rw [get?_addOptional, if_pos h]
  simp [get?_set, hbase]

theorem step_fields {node : GraphNode} (hdata : HasFields stepFields node.data) (dependsOn : List String) :
    ∀ f ∈ stepFields, ∀ v, node.data.get? f.1 = some v →
      Same v ((stepToYaml node dependsOn).toPy.getD f.1 f.2) := by
  intro f hf v hv
  have hcases : ∀ f ∈ stepFields, f.1 = "id" ∨ f.1 = "script" ∨ f.1 ∈ stepOptional := by
    simp [stepFields, stepOptional]
  simp only [PyVal.getD, get?_toPy]
  rcases hcases f hf with hid | hscript | hoptional
  · rw [hid] at hv ⊢
    rw [(get?_stepToYaml_head node dependsOn).1, getD, hv]
    rfl
  · rw [hscript] at hv ⊢
    rw [(get?_stepToYaml_head node dependsOn).2.1, getD, hv]
    rfl
  rw [get?_stepToYaml node dependsOn hoptional]
  rcases stepKeep_cases hv with hkeep | ⟨hkeep, hv'⟩
  · rw [hkeep]
    rfl
  rw [hkeep, Option.getD_none]
  have hnone (hvn : v = .none) : Same v f.2 := by
    subst hvn
    by_contra hne
    exact hdata.defined f hf (fun h => hne (h ▸ Same.refl _)) hv
  rcases hv' with hvn | heq
  · exact hnone hvn
  rcases stepDefaultOmit_agrees f hf with ⟨hd, hzero⟩ | hd
  · rw [hd] at heq
    exact same_of_equals (by tauto) heq
  · rw [hd] at heq
    rcases same_of_equals (.inr (.inl rfl)) heq with hvn | ⟨q, _, hq⟩
    · exact hnone hvn
    · cases hq

/-! ## Loops -/

theorem loopKeep_eq {v : PyVal} (h : data.get? key = some v) (hv : v ≠ .none) : loopKeep data key = some v := by
  unfold loopKeep
  have hv' : data.getD key .none = v := by simp [getD, h]
  rw [hv']
  split
  · contradiction
  · rfl

theorem get?_loopHead_head :
    (loopHead node dependsOn).get? "id" = some (node.data.getD "id" (.str node.id)) ∧
      (loopHead node dependsOn).get? "loop_type" = some (node.data.getD "loop_type" (.str "FOR")) ∧
      (loopHead node dependsOn).get? "depends_on" = some (stringList dependsOn) ∧
      (loopHead node dependsOn).get? "steps" = none := by
  simp [loopHead, get?_addOptional, loopOptional, get?_set]

theorem get?_loopHead (h : key ∈ loopOptional) : (loopHead node dependsOn).get? key = loopKeep node.data key := by
  have hbase : key ≠ "id" ∧ key ≠ "loop_type" ∧ key ≠ "depends_on" := by
    revert key
    decide
  unfold loopHead
  rw [get?_addOptional, if_pos h]
  simp [get?_set, hbase]

theorem loop_fields {node : GraphNode} (hdata : HasFields loopFields node.data) (dependsOn : List String) :
    ∀ f ∈ loopFields, ∀ v, node.data.get? f.1 = some v →
      Same v (((loopHead node dependsOn).get? f.1).getD f.2) := by
  intro f hf v hv
  have hcases : ∀ f ∈ loopFields, f.1 = "id" ∨ f.1 = "loop_type" ∨ f.1 ∈ loopOptional := by
    simp [loopFields, loopOptional]
  rcases hcases f hf with hid | htype | hoptional
  · rw [hid] at hv ⊢
    rw [(get?_loopHead_head node dependsOn).1, getD, hv]
    rfl
  · rw [htype] at hv ⊢
    rw [(get?_loopHead_head node dependsOn).2.1, getD, hv]
    rfl
  rw [get?_loopHead node dependsOn hoptional]
  by_cases hvn : v = .none
  · subst hvn
    have hd : f.2 = .none := by
      by_contra hne
      exact hdata.defined f hf hne hv
    have hkeep : loopKeep node.data f.1 = none := by simp [loopKeep, getD, hv]
    rw [hkeep, hd]
    rfl
  · rw [loopKeep_eq hv hvn]
    rfl

end AteStudio.Serializer
