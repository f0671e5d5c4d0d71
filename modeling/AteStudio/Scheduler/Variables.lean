import AteStudio.Lib.Json

/-!
# The variable space (`scheduler/variable_space.py`)

The global variables are left out: nobody writes them in a run, and they are no part of a snapshot.
-/

namespace AteStudio

open Json Option Dict

def cutDot (name : String) : Option (String × String) :=
  match name.toList.span (· ≠ '.') with
  | (first, _ :: rest) => some (String.ofList first, String.ofList rest)
  | _ => none

inductive VariablePath where
  | scope (key : String)
  | steps (stepId key : String)
  | loop (loopId key : String)
deriving DecidableEq

def VariablePath.parse? (name : String) : Option VariablePath := do
  let (level, path) ← cutDot name
  if level = "scope" then some (.scope path)
  else if level = "steps" then (cutDot path).map fun parts => .steps parts.1 parts.2
  else if level = "loop" then (cutDot path).map fun parts => .loop parts.1 parts.2
  else none

structure VariableSpace where
  scope : Dict String Obj := ∅
  steps : Dict String (Dict String Obj) := ∅
  loop : Dict String (Dict String Obj) := ∅

namespace VariableSpace

variable (vs : VariableSpace)

def lookup : VariablePath → Option Obj
  | .scope key => vs.scope.get? key
  | .steps stepId key => (vs.steps.get? stepId).bind (·.get? key)
  | .loop loopId key => (vs.loop.get? loopId).bind (·.get? key)

def write (value : Obj) : VariablePath → VariableSpace
  | .scope key => { vs with scope := vs.scope.set key value }
  | .steps stepId key => { vs with steps := vs.steps.set stepId ((vs.steps.getD stepId ∅).set key value) }
  | .loop loopId key => { vs with loop := vs.loop.set loopId ((vs.loop.getD loopId ∅).set key value) }

def set? (name : String) (value : Obj) : Option VariableSpace :=
  (VariablePath.parse? name).map (vs.write value)

def ofDicts (d : Dict String (Dict String Obj)) : Obj := ofDict (d.mapVals fun _ vars => ofDict vars)

def snapshot : Obj :=
  ofDict ⟨[("scope", ofDict vs.scope), ("steps", ofDicts vs.steps), ("loop", ofDicts vs.loop)], by simp⟩

def toDicts? (v : Obj) : Option (Dict String (Dict String Obj)) :=
  v.toDict?.map fun d => d.mapVals fun _ vars => vars.toDict?.getD ∅

/-- A part that is missing or no dictionary is left as it is. -/
def restore (state : Obj) : VariableSpace where
  scope := ((state.get? "scope").bind Obj.toDict?).getD vs.scope
  steps := ((state.get? "steps").bind toDicts?).getD vs.steps
  loop := ((state.get? "loop").bind toDicts?).getD vs.loop

def Plain : Prop := ∀ path value, vs.lookup path = some value → value.plain = true

/-! ## Reading and writing -/

variable (d : Dict String (Dict String Obj))

theorem get?_nested (id key id' key' : String) (value : Obj) :
    ((d.set id ((d.getD id ∅).set key value)).get? id').bind (·.get? key') =
      if id' = id ∧ key' = key then some value else (d.get? id').bind (·.get? key') := by
  rw [Dict.get?_set]
  by_cases hid : id' = id
  · subst hid
    rw [if_pos rfl, bind_some, Dict.get?_set]
    by_cases hkey : key' = key
    · simp [hkey]
    · rw [if_neg hkey, if_neg fun h => hkey h.2, Dict.getD]
      cases d.get? id' <;> simp
  · rw [if_neg hid, if_neg fun h => hid h.1]

theorem lookup_write (value : Obj) (path path' : VariablePath) :
    (vs.write value path).lookup path' = if path' = path then some value else vs.lookup path' := by
  cases path with
  | scope key => cases path' <;> simp [write, lookup, get?_set]
  | steps stepId key => cases path' <;> simp [write, lookup, get?_nested]
  | loop loopId key => cases path' <;> simp [write, lookup, get?_nested]

/-! ## Saving and restoring -/

@[simp] theorem toDicts?_ofDicts : toDicts? (ofDicts d) = some d := by
  rw [toDicts?, ofDicts, toDict?_ofDict, map_some]
  cases d with
  | mk entries nodup => simp [mapVals, Function.comp_def]

theorem restore_snapshot (vs vs' : VariableSpace) : vs'.restore vs.snapshot = vs := by
  cases vs
  simp [restore, snapshot, get?, List.lookup]

theorem plain_ofDicts : (ofDicts d).plain = true ↔
    ∀ id key value, (d.get? id).bind (·.get? key) = some value → value.plain = true := by
  simp only [ofDicts, plain_ofDict, mapVals, List.forall_mem_map, bind_eq_some_iff, get?_eq_some_iff]
  constructor
  · rintro h id key value ⟨vars, hvars, hvalue⟩
    exact h (id, vars) hvars (key, value) hvalue
  · rintro h ⟨id, vars⟩ hvars ⟨key, value⟩ hvalue
    exact h id key value ⟨vars, hvars, hvalue⟩

theorem plain_snapshot : vs.snapshot.plain = true ↔ vs.Plain := by
  have hscope : (ofDict vs.scope).plain = true ↔ ∀ key value, vs.scope.get? key = some value → value.plain = true := by
    simp only [plain_ofDict, get?_eq_some_iff, Prod.forall]
  rw [snapshot, plain_ofDict]
  simp only [List.forall_mem_cons, List.not_mem_nil, false_implies, implies_true, and_true, hscope, plain_ofDicts]
  constructor
  · rintro ⟨hscope, hsteps, hloop⟩ path value hvalue
    cases path with
    | scope key => exact hscope key value hvalue
    | steps stepId key => exact hsteps stepId key value hvalue
    | loop loopId key => exact hloop loopId key value hvalue
  · intro h
    exact ⟨fun key => h (.scope key), fun stepId key => h (.steps stepId key), fun loopId key => h (.loop loopId key)⟩

section Image

variable {reprFloat : Rat → String}

theorem image_ofDicts {d : Dict String (Dict String Obj)} {w : Obj} (h : image reprFloat (ofDicts d) = some w) :
    ∃ d', toDicts? w = some d' ∧ ∀ id key value', (d'.get? id).bind (·.get? key) = some value' →
      ∃ value, (d.get? id).bind (·.get? key) = some value ∧ image reprFloat value = some value' := by
  obtain ⟨outer, rfl, houter⟩ := image_ofDict h
  refine ⟨_, by rw [toDicts?, toDict?_ofDict, map_some], fun id key value' hvalue' => ?_⟩
  obtain ⟨vars', hvars', hget⟩ := bind_eq_some_iff.mp hvalue'
  rw [get?_mapVals, map_eq_some_iff] at hvars'
  obtain ⟨v', hv', rfl⟩ := hvars'
  obtain ⟨v, hv, himage⟩ := houter id v' hv'
  rw [get?_mapVals, map_eq_some_iff] at hv
  obtain ⟨vars, hvars, rfl⟩ := hv
  obtain ⟨inner, rfl, hinner⟩ := image_ofDict himage
  rw [toDict?_ofDict, getD_some] at hget
  obtain ⟨value, hvalue, hsame⟩ := hinner key value' hget
  exact ⟨value, by rw [hvars, bind_some, hvalue], hsame⟩

theorem lookup_restore_image {vs : VariableSpace} {w : Obj} (h : image reprFloat vs.snapshot = some w)
    {path : VariablePath} {value' : Obj} (hvalue' : (restore {} w).lookup path = some value') :
    ∃ value, vs.lookup path = some value ∧ image reprFloat value = some value' := by
  obtain ⟨d, rfl, hd⟩ := image_ofDict h
  have hparts {part : String} {v' : Obj} (hpart : (ofDict d).get? part = some v') :
      ∃ v, List.lookup part [("scope", ofDict vs.scope), ("steps", ofDicts vs.steps), ("loop", ofDicts vs.loop)] =
        some v ∧ image reprFloat v = some v' := hd part v' (by rwa [get?_ofDict] at hpart)
  have hdicts {part id key : String} {dicts : Dict String (Dict String Obj)}
      (hpart : List.lookup part [("scope", ofDict vs.scope), ("steps", ofDicts vs.steps), ("loop", ofDicts vs.loop)] =
        some (ofDicts dicts))
      (hget : ((((ofDict d).get? part).bind toDicts?).getD ∅ |>.get? id).bind (·.get? key) = some value') :
      ∃ value, (dicts.get? id).bind (·.get? key) = some value ∧ image reprFloat value = some value' := by
    cases hpart' : (ofDict d).get? part with
    | none => simp [hpart'] at hget
    | some v' =>
      obtain ⟨v, hv, himage⟩ := hparts hpart'
      obtain rfl : ofDicts dicts = v := some.inj (hpart.symm.trans hv)
      obtain ⟨d', hd', hinner⟩ := image_ofDicts himage
      simp only [hpart', bind_some, hd', getD_some] at hget
      exact hinner id key value' hget
  cases path with
  | scope key =>
    simp only [restore, lookup] at hvalue'
    cases hscope : (ofDict d).get? "scope" with
    | none => simp [hscope] at hvalue'
    | some v' =>
      obtain ⟨v, hv, himage⟩ := hparts hscope
      obtain rfl : ofDict vs.scope = v := by simpa [List.lookup] using hv
      obtain ⟨inner, rfl, hinner⟩ := image_ofDict himage
      simp only [hscope, bind_some, toDict?_ofDict, getD_some] at hvalue'
      exact hinner key value' hvalue'
  | steps stepId key => exact hdicts (by simp [List.lookup]) hvalue'
  | loop loopId key => exact hdicts (by simp [List.lookup]) hvalue'

end Image

end VariableSpace

end AteStudio
