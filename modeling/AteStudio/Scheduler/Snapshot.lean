import AteStudio.Scheduler.History
import AteStudio.Scheduler.Variables

/-!
# Snapshots (`scheduler/state_snapshot.py`)
-/

namespace AteStudio.Scheduler

open Json

variable {V : Type}

/-- How `json` writes a float, and the documents that the depth of the stack and the limit on the digits of an integer
let it write and read. -/
structure Interpreter where
  reprFloat : Rat → String
  writes : Text → Bool := fun _ => true
  reads : Text → Bool := fun _ => true

/-- By what `load` makes of it. -/
inductive SnapshotFile where
  -- Or it does not hold JSON.
  | missing
  -- Beyond what `json` reads, or not UTF-8: `load` handles neither error.
  | unreadable
  | json (text : Text)

/-! ## Saving -/

def statesOf (steps : Dict String StepStatus) : Obj := ofDict (steps.mapVals fun _ status => .str status.value)

def State.getState (s : State VariableSpace) (now : Rat) : Obj :=
  ofDict ⟨[("step_states", statesOf s.steps), ("variables", s.variableSpace.snapshot), ("timestamp", .float now)],
    by simp⟩

def Interpreter.save? (py : Interpreter) (state : Obj) : Option SnapshotFile :=
  ((dumps? py.reprFloat state).filter py.writes).map fun text => if py.reads text then .json text else .unreadable

/-- `_maybe_snapshot`: when the state cannot be written, the file stays as it is. -/
def maybeSnapshot (py : Interpreter) (s : State VariableSpace) (now : Rat) (file : SnapshotFile) : SnapshotFile :=
  (py.save? (s.getState now)).getD file

def allStepsTerminal (s : State V) : Bool := !s.steps.entries.isEmpty && s.steps.values.all StepStatus.terminal

/-! ## Restoring -/

def resumable? : SnapshotFile → Option (Obj × List (Obj × Obj))
  | .json text =>
    match (loads text).get? "step_states" with
    | some (.dict (entry :: entries)) => some (loads text, entry :: entries)
    | _ => none
  | _ => none

def SnapshotFile.raises : SnapshotFile → Bool
  | .unreadable => true
  | _ => false

def restoredStatus (raw : String) : StepStatus := ((StepStatus.ofName? raw).filter StepStatus.terminal).getD .pending

/-- The flag says that `update_status` has raised `KeyError`. -/
def restoreStates : List (Obj × Obj) → State V → State V × Bool
  | [], s => (s, false)
  | (key, raw) :: entries, s =>
    match raw.str? with
    | none => restoreStates entries s
    | some text =>
      match key.str? with
      | none => (s, true)
      | some stepId =>
        if s.steps.contains stepId then restoreStates entries (s.updateStatus stepId (restoredStatus text))
        else (s, true)

def restoreVariables (s : State VariableSpace) : Option Obj → State VariableSpace
  | some (.dict kvs) => { s with variableSpace := s.variableSpace.restore (.dict kvs) }
  | _ => s

variable (file : SnapshotFile) (s : State VariableSpace)

/-- `_maybe_resume`, up to the callback that resets the instruments. -/
def maybeResume : State VariableSpace × Bool :=
  match resumable? file with
  | none => (s, file.raises)
  | some (data, entries) =>
    match restoreStates entries s with
    | (s, true) => (s, true)
    | (s, false) => (restoreVariables s (data.get? "variables"), false)

inductive StartResult where
  | ignored
  | completed
  | raised
deriving DecidableEq

def beginStart : State VariableSpace × Bool :=
  maybeResume file { s with running := true, down := false, log := .began :: s.log }

def finishStart (s : State V) : State V :=
  { s with subscriptions := s.subscriptions + 1, handlers := true, scanTask := true }

def startFrom : State VariableSpace × StartResult :=
  if s.running then (s, .ignored)
  else match beginStart file s with
    | (s, true) => (s, .raised)
    | (s, false) => (finishStart s, .completed)

/-! ### Nothing but statuses and variables is restored -/

theorem contains_updateStatus (s : State V) (id x : String) (status : StepStatus) :
    (s.updateStatus id status).steps.contains x = s.steps.contains x := by
  rcases updateStatus_cases s id status with ⟨heq, _⟩ | ⟨old, hold, _, heq⟩
  · rw [heq]
  · rw [heq, Dict.contains, Dict.get?_set, Dict.contains]
    split
    · next hx => rw [hx, hold]; rfl
    · rfl

theorem restoreStates_invariant {inv : State V → Prop}
    (h : ∀ s id status, inv s → inv (s.updateStatus id status)) (entries : List (Obj × Obj)) {s : State V} (hs : inv s) :
    inv (restoreStates entries s).1 := by
  induction entries generalizing s with
  | nil => exact hs
  | cons entry entries ih =>
    unfold restoreStates
    split
    · exact ih hs
    split
    · exact hs
    split
    · exact ih (h _ _ _ hs)
    · exact hs

variable (entries : List (Obj × Obj))

theorem restoreStates_eq (s : State V) :
    ∃ steps queue log, (restoreStates entries s).1 = { s with steps, queue, log } := by
  have hupdate (s' : State V) (id : String) (status : StepStatus) :
      (∃ steps queue log, s' = { s with steps, queue, log }) →
        ∃ steps queue log, s'.updateStatus id status = { s with steps, queue, log } := by
    rintro ⟨steps, queue, log, rfl⟩
    rcases updateStatus_cases { s with steps, queue, log } id status with ⟨heq, _⟩ | ⟨_, _, _, heq⟩ <;> rw [heq] <;>
      exact ⟨_, _, _, rfl⟩
  exact restoreStates_invariant hupdate entries ⟨_, _, _, rfl⟩

theorem maybeResume_eq :
    ∃ steps queue log variableSpace, (maybeResume file s).1 = { s with steps, queue, log, variableSpace } := by
  unfold maybeResume
  split
  · exact ⟨_, _, _, _, rfl⟩
  next entries _ =>
  obtain ⟨steps, queue, log, hstates⟩ := restoreStates_eq entries s
  split
  · next heq =>
    rw [heq] at hstates
    exact ⟨_, _, _, _, hstates⟩
  · next heq =>
    rw [heq] at hstates
    dsimp only at hstates ⊢
    rw [hstates]
    unfold restoreVariables
    split <;> exact ⟨_, _, _, _, rfl⟩

theorem restoreStates_raises (s : State V) : (restoreStates entries s).2 = false ↔
    ∀ e ∈ entries, e.2.str?.isSome = true → ∃ id, e.1.str? = some id ∧ s.steps.contains id = true := by
  induction entries generalizing s with
  | nil => simp [restoreStates]
  | cons entry entries ih =>
    obtain ⟨key, raw⟩ := entry
    rw [restoreStates, List.forall_mem_cons]
    cases hraw : raw.str? with
    | none => simp [ih]
    | some text =>
      cases hkey : key.str? with
      | none => simp
      | some id =>
        dsimp only
        split
        · next hknown => simp [ih, contains_updateStatus, hknown]
        · next hunknown => simp [hunknown]

theorem restoreStates_get? {s : State V} {id : String} {status : StepStatus}
    (h : (restoreStates entries s).1.steps.get? id = some status) : s.steps.get? id = some status ∨
      ∃ e ∈ entries, e.1.str? = some id ∧ ∃ text, e.2.str? = some text ∧ restoredStatus text = status := by
  induction entries generalizing s with
  | nil => exact .inl h
  | cons entry entries ih =>
    obtain ⟨key, raw⟩ := entry
    have hlater {s' : State V} (h : (restoreStates entries s').1.steps.get? id = some status) :
        s'.steps.get? id = some status ∨ ∃ e ∈ (key, raw) :: entries, e.1.str? = some id ∧
          ∃ text, e.2.str? = some text ∧ restoredStatus text = status := by
      rcases ih h with hbefore | ⟨e, he, hfound⟩
      · exact .inl hbefore
      · exact .inr ⟨e, List.mem_cons_of_mem _ he, hfound⟩
    unfold restoreStates at h
    split at h
    · exact hlater h
    next text hraw =>
    split at h
    · exact .inl h
    next stepId hkey =>
    split at h
    · rcases hlater h with hset | hfound
      · by_cases hid : id = stepId
        · subst hid
          exact .inr ⟨_, List.mem_cons_self, hkey, text, hraw, (get?_updateStatus s id _ hset).symm⟩
        · rw [(updateStatus_touch s stepId _).steps id hid] at hset
          exact .inl hset
      · exact .inr hfound
    · exact .inl h

/-! ## All or nothing -/

def AllOrNothing : State VariableSpace × StartResult → Prop
  | (s', .completed) => s'.running = true ∧ s'.scanTask = true ∧ s'.handlers = true ∧
      s'.subscriptions = s.subscriptions + 1
  | (s', .raised) => s'.running = false
  | (_, .ignored) => False

/-- The file can be read, and names registered steps only. -/
def Registered (steps : Dict String StepStatus) (file : SnapshotFile) : Prop :=
  file.raises = false ∧ ∀ data entries, resumable? file = some (data, entries) → ∀ e ∈ entries, e.2.str?.isSome = true →
    ∃ id, e.1.str? = some id ∧ steps.contains id = true

theorem maybeResume_raises :
    (maybeResume file s).2 = false ↔ Registered s.steps file := by
  unfold maybeResume Registered
  cases hfile : resumable? file with
  | none => simp
  | some found =>
    obtain ⟨data, entries⟩ := found
    have hread : file.raises = false := by
      cases file with
      | unreadable => cases hfile
      | _ => rfl
    have hraises := restoreStates_raises entries s
    dsimp only
    split
    · next heq =>
      rw [heq] at hraises
      simpa [hread] using hraises
    · next heq =>
      rw [heq] at hraises
      simpa [hread] using hraises

theorem start_allOrNothing_iff {s : State VariableSpace} (hs : s.running = false) (file : SnapshotFile) :
    AllOrNothing s (startFrom file s) ↔ Registered s.steps file := by
  have hraises := maybeResume_raises file { s with running := true, down := false, log := .began :: s.log }
  obtain ⟨steps, queue, log, variableSpace, heq⟩ :=
    maybeResume_eq file { s with running := true, down := false, log := .began :: s.log }
  rw [← beginStart] at hraises heq
  rw [startFrom, if_neg (by simp [hs])]
  generalize beginStart file s = begun at hraises heq ⊢
  obtain ⟨s', raised⟩ := begun
  subst heq
  cases raised with
  | true => simpa [AllOrNothing] using hraises
  | false => exact iff_of_true ⟨rfl, rfl, rfl, rfl⟩ (hraises.mp rfl)

def oneStep : State VariableSpace where
  steps := ⟨[("a", .pending)], by decide⟩
  variableSpace := {}

def passedFile (stepId : String) : SnapshotFile :=
  .json (.object [("step_states", .object [(stepId, .str "PASSED")])])

theorem start_allOrNothing_passed : oneStep.running = false ∧ AllOrNothing oneStep (startFrom (passedFile "a") oneStep) :=
  ⟨rfl, (start_allOrNothing_iff rfl _).mpr ⟨rfl, by
    rintro _ _ ⟨⟩ e he _
    rw [List.mem_singleton.mp he]
    exact ⟨"a", rfl, by decide⟩⟩⟩

/-- `start()` raises, leaves the scheduler running without a scan task, and is a no-op from then on. -/
theorem start_half_done : oneStep.running = false ∧
    (startFrom (passedFile "b") oneStep).2 = .raised ∧
    (startFrom (passedFile "b") oneStep).1.running = true ∧
    (startFrom (passedFile "b") oneStep).1.scanTask = false ∧
    (startFrom (passedFile "b") (startFrom (passedFile "b") oneStep).1).2 = .ignored := by
  decide +kernel

end AteStudio.Scheduler
