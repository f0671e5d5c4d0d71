import AteStudio.Relay
import AteStudio.Lib.Runs

/-!
# Two writers of one status

A commit writes the columns that the session has changed. The API calls refuse a row whose status is terminal
(`api/v1/executions.py`). The relay does not look at the status that it replaces.
-/

namespace AteStudio.Relay

open Json Runs

/-! ## Sessions -/

def terminalStates : List String := ["COMPLETED", "FAILED", "ABORTED"]

inductive Control where
  | abort
  | pause
  | resume
  | forceNext
deriving DecidableEq

def Control.targetStatus : Control → String
  | .abort => "ABORTED"
  | .pause => "PAUSING"
  | .resume => "RESUMING"
  | .forceNext => "FORCE_NEXT"

def carriesStep (event : Obj) : Bool :=
  match event.get? "step_id" with
  | none => false
  | some .none => false
  | some _ => true

def eventStatus? (event : Obj) : Option String := (event.get? "status").bind Obj.str?

/-- A list or a dictionary is no key of a dictionary and no member of a set. -/
def hashable : Obj → Bool
  | .list _ => false
  | .dict _ => false
  | _ => true

structure Session where
  read : Execution
  row : Execution
  ofStep : Bool

/-- A status that is set to the value it had is not written. -/
def Session.commit (session : Session) (row : Execution) : Execution where
  status := if session.row.status = session.read.status then row.status else session.row.status
  stepResults := if session.ofStep then session.row.stepResults else row.stepResults

/-- `_update_db` up to its commit. -/
def openRelay (runId : String) (row : Execution) (event : Obj) : Option Session :=
  if (event.get? "run_id").bind Obj.str? = some runId ∧ runId ≠ "" ∧
      hashable (orNone (event.get? "step_id")) ∧ hashable (orNone (event.get? "status")) then
    some { read := row, row := (row.record event).setStatus event, ofStep := carriesStep event }
  else none

/-- Up to the commit. A terminal status is answered with 409. -/
def openCall (row : Execution) (control : Control) : Option Session :=
  if row.status ∈ terminalStates then none
  else some { read := row, row := { row with status := control.targetStatus }, ofStep := false }

/-! ## The row under all interleavings -/

structure Table where
  row : Execution
  -- The relay works on one message at a time.
  relay : Option Session
  calls : List Session

def Table.idle (row : Execution) : Table := { row, relay := none, calls := [] }

inductive Move where
  | message (event : Obj)
  | relayCommit
  -- The message is given up, to be delivered again.
  | relayRollback
  | call (control : Control)
  | callCommit (k : Nat)
  | callRollback (k : Nat)

section

variable (runId : String)

def Table.step (s : Table) : Move → Table
  | .message event =>
    match s.relay with
    | none => { s with relay := openRelay runId s.row event }
    | some _ => s
  | .relayCommit =>
    match s.relay with
    | none => s
    | some session => { s with row := session.commit s.row, relay := none }
  | .relayRollback => { s with relay := none }
  | .call control =>
    match openCall s.row control with
    | none => s
    | some session => { s with calls := s.calls ++ [session] }
  | .callCommit k =>
    match s.calls[k]? with
    | none => s
    | some session => { s with row := session.commit s.row, calls := s.calls.eraseIdx k }
  | .callRollback k => { s with calls := s.calls.eraseIdx k }

/-- The move is not the commit of a message of a step, or it leaves the status as it is. -/
def StepQuiet (s : Table) (m : Move) : Prop :=
  match m, s.relay with
  | .relayCommit, some session => session.ofStep = true → (s.step runId m).row.status = s.row.status
  | _, _ => True

/-- A session that changes the status commits while the row has the status that it read. -/
def Session.Fresh (session : Session) (row : Execution) : Prop :=
  session.row.status ≠ session.read.status → row.status = session.read.status

instance (session : Session) (row : Execution) : Decidable (session.Fresh row) :=
  inferInstanceAs (Decidable (_ → _))

/-- Step messages of the run carry no execution status, those for a terminal row repeat it, and no session overwrites
what it has not read. -/
def Orderly (s : Table) : Move → Prop
  | .message event => (event.get? "run_id").bind Obj.str? = some runId → ∀ status ∈ eventStatus? event,
      status ∈ executionStatuses →
        carriesStep event = false ∧ (s.row.status ∈ terminalStates → status = s.row.status)
  | .relayCommit => ∀ session ∈ s.relay, session.Fresh s.row
  | .callCommit k => ∀ session ∈ s.calls[k]?, session.Fresh s.row
  | _ => True

end

/-! ## One session -/

section Session

variable {runId : String} {row : Execution} {event : Obj} {session : Session}

@[simp] theorem record_status (row : Execution) (event : Obj) : (row.record event).status = row.status := by
  unfold Execution.record
  split <;> rfl

theorem setStatus_status (row : Execution) (event : Obj) :
    (row.setStatus event).status = row.status ∨
      ∃ status ∈ eventStatus? event, status ∈ executionStatuses ∧ (row.setStatus event).status = status := by
  unfold Execution.setStatus eventStatus?
  split
  · next status hstatus =>
    split
    · next hmem => exact .inr ⟨status, hstatus, hmem, rfl⟩
    · exact .inl rfl
  · exact .inl rfl

/-- The session keeps a terminal status, or is for a message of a step. -/
def Session.Guarded (session : Session) : Prop :=
  session.ofStep = true ∨ session.read.status ∈ terminalStates → session.row.status = session.read.status

theorem openRelay_guarded (h : openRelay runId row event = some session)
    (hevent : (event.get? "run_id").bind Obj.str? = some runId → ∀ status ∈ eventStatus? event,
      status ∈ executionStatuses →
        carriesStep event = false ∧ (row.status ∈ terminalStates → status = row.status)) : session.Guarded := by
  unfold openRelay at h
  split at h
  · next hopen =>
    cases h
    intro hguard
    rcases setStatus_status (row.record event) event with hsame | ⟨status, hstatus, hmem, hset⟩
    · rw [hsame, record_status]
    · obtain ⟨hstep, hterminal⟩ := hevent hopen.1 status hstatus hmem
      rcases hguard with hguard | hguard
      · exact absurd (hstep.symm.trans hguard) Bool.false_ne_true
      · rw [hset, hterminal hguard]
  · cases h

theorem openCall_guarded {control : Control} (h : openCall row control = some session) : session.Guarded := by
  unfold openCall at h
  split at h
  · cases h
  · next hopen =>
    cases h
    rintro (hstep | hterminal)
    · cases hstep
    · exact absurd hterminal hopen

theorem commit_status_of_terminal (h : session.Guarded) (hfresh : session.Fresh row)
    (hterminal : row.status ∈ terminalStates) : (session.commit row).status = row.status := by
  unfold Session.commit
  dsimp only
  split
  · rfl
  · next hchanged =>
    rw [hfresh hchanged] at hterminal
    exact absurd (h (.inr hterminal)) hchanged

theorem commit_status_of_step (h : session.Guarded) (hstep : session.ofStep = true) :
    (session.commit row).status = row.status := if_pos (h (.inl hstep))

@[simp] theorem setStatus_stepResults (row : Execution) (event : Obj) :
    (row.setStatus event).stepResults = row.stepResults := by
  unfold Execution.setStatus
  split
  · split <;> rfl
  · rfl

theorem record_of_carriesStep_eq_false (h : carriesStep event = false) : row.record event = row := by
  unfold carriesStep at h
  unfold Execution.record
  split at h
  · next hstep => rw [hstep]; rfl
  · next hstep => rw [hstep]; rfl
  · cases h

theorem updateDb_eq_commit {db : Dict String Execution} (hrow : db.get? runId = some row)
    (h : openRelay runId row event = some session) : (updateDb db event).get? runId = some (session.commit row) := by
  unfold openRelay at h
  split at h
  · next hopen =>
    obtain ⟨hrun, hne, _, _⟩ := hopen
    cases h
    rw [updateDb, hrun]
    dsimp only
    rw [if_neg hne, hrow]
    dsimp only
    rw [Dict.get?_set_self, Session.commit]
    cases hstep : carriesStep event with
    | true =>
      dsimp only
      split
      · next hsame => rw [← hsame, if_pos rfl]
      · rw [if_pos rfl]
    | false =>
      rw [record_of_carriesStep_eq_false hstep, if_neg Bool.false_ne_true]
      dsimp only
      split
      · next hsame => rw [← hsame, ← setStatus_stepResults row event]
      · rw [← setStatus_stepResults row event]
  · cases h

end Session

/-! ## Every run -/

open Table

section Run

variable {runId : String} {s : Table} {m : Move}

structure Table.Guarded (s : Table) : Prop where
  relay : ∀ session ∈ s.relay, session.Guarded
  calls : ∀ session ∈ s.calls, session.Guarded

theorem guarded_idle (row : Execution) : (idle row).Guarded := ⟨fun _ => (nomatch ·), fun _ => (nomatch ·)⟩

theorem guarded_step (h : s.Guarded) (hm : Orderly runId s m) : (s.step runId m).Guarded := by
  cases m with
  | message event =>
    dsimp only [step]
    split
    · exact ⟨fun session hsession => openRelay_guarded hsession hm, h.calls⟩
    · exact h
  | relayCommit =>
    dsimp only [step]
    split
    · exact h
    · exact ⟨fun _ => (nomatch ·), h.calls⟩
  | relayRollback => exact ⟨fun _ => (nomatch ·), h.calls⟩
  | call control =>
    dsimp only [step]
    split
    · exact h
    · next session hopen =>
      refine ⟨h.relay, fun session' hsession' => ?_⟩
      rcases List.mem_append.mp hsession' with hold | hnew
      · exact h.calls session' hold
      · obtain rfl := List.mem_singleton.mp hnew
        exact openCall_guarded hopen
  | callCommit k =>
    dsimp only [step]
    split
    · exact h
    · exact ⟨h.relay, fun session hsession => h.calls session (List.mem_of_mem_eraseIdx hsession)⟩
  | callRollback k => exact ⟨h.relay, fun session hsession => h.calls session (List.mem_of_mem_eraseIdx hsession)⟩

theorem terminal_step (h : s.Guarded) (hm : Orderly runId s m) (hterminal : s.row.status ∈ terminalStates) :
    (s.step runId m).row.status = s.row.status := by
  cases m with
  | message event =>
    dsimp only [step]
    split <;> rfl
  | relayCommit =>
    dsimp only [step]
    split
    · rfl
    · next session hsession =>
      exact commit_status_of_terminal (h.relay session hsession) (hm session hsession) hterminal
  | relayRollback => rfl
  | call control =>
    dsimp only [step]
    split <;> rfl
  | callCommit k =>
    dsimp only [step]
    split
    · rfl
    · next session hsession =>
      exact commit_status_of_terminal (h.calls session (List.mem_of_getElem? hsession)) (hm session hsession) hterminal
  | callRollback k => rfl

theorem stepQuiet_of_guarded (h : s.Guarded) : StepQuiet runId s m := by
  unfold StepQuiet
  split
  · next session hsession =>
    intro hstep
    rw [step, hsession]
    exact commit_status_of_step (h.relay session hsession) hstep
  · trivial

theorem guarded_run (h : s.Guarded) {moves : List Move} (hmoves : Meets (step runId) (Orderly runId) s moves) :
    (run (step runId) s moves).Guarded := run_invariant (fun _ _ => guarded_step) h hmoves

theorem terminal_run (h : s.Guarded) (hterminal : s.row.status ∈ terminalStates) {moves : List Move}
    (hmoves : Meets (step runId) (Orderly runId) s moves) : (run (step runId) s moves).row.status = s.row.status := by
  have hstep : ∀ s' m, s'.Guarded ∧ s'.row.status = s.row.status → Orderly runId s' m →
      (s'.step runId m).Guarded ∧ (s'.step runId m).row.status = s.row.status := by
    rintro s' m ⟨hguarded, hsame⟩ hm
    rw [← hsame] at hterminal
    exact ⟨guarded_step hguarded hm, (terminal_step hguarded hm hterminal).trans hsame⟩
  exact (run_invariant hstep ⟨h, rfl⟩ hmoves).2

end Run

/-- In an orderly run a terminal status is final, and no message of a step changes the status. -/
theorem status_final (runId : String) (row : Execution) (before after : List Move)
    (h : Runs.Meets (Table.step runId) (Orderly runId) (.idle row) (before ++ after)) :
    ((Runs.run (Table.step runId) (.idle row) before).row.status ∈ terminalStates →
      (Runs.run (Table.step runId) (.idle row) (before ++ after)).row.status =
        (Runs.run (Table.step runId) (.idle row) before).row.status) ∧
    Runs.Meets (Table.step runId) (StepQuiet runId) (.idle row) (before ++ after) := by
  obtain ⟨hbefore, hafter⟩ := meets_append.mp h
  constructor
  · intro hterminal
    rw [run, List.foldl_append]
    exact terminal_run (guarded_run (guarded_idle row) hbefore) hterminal hafter
  · exact @meets_of_invariant _ _ _ _ _ _ Guarded _ (fun _ _ => guarded_step)
      (fun _ _ hs _ => stepQuiet_of_guarded hs) (guarded_idle row) h

/-! ## Two runs -/

def statusMessage (status : String) : Obj := .dict [(.str "run_id", .str "r"), (.str "status", .str status)]

def stepMessage (status : String) : Obj :=
  .dict [(.str "run_id", .str "r"), (.str "step_id", .str "a"), (.str "status", .str status)]

def runningTable : Table := .idle { status := "RUNNING", stepResults := none }

instance (runId : String) : ∀ (s : Table) (m : Move), Decidable (Orderly runId s m)
  | _, .message event => inferInstanceAs (Decidable (_ → ∀ status ∈ eventStatus? event, _))
  | s, .relayCommit => inferInstanceAs (Decidable (∀ session ∈ s.relay, _))
  | s, .callCommit k => inferInstanceAs (Decidable (∀ session ∈ s.calls[k]?, _))
  | _, .relayRollback => isTrue trivial
  | _, .call _ => isTrue trivial
  | _, .callRollback _ => isTrue trivial

/-- A step that passes, the end of the run, and a call that comes too late. -/
theorem status_final_completed :
    (Runs.run (Table.step "r") runningTable [.message (stepMessage "PASSED"), .relayCommit,
      .message (statusMessage "COMPLETED"), .relayCommit]).row.status = "COMPLETED" ∧
    (Runs.run (Table.step "r") runningTable ([.message (stepMessage "PASSED"), .relayCommit,
      .message (statusMessage "COMPLETED"), .relayCommit] ++
        [.call .abort, .message (statusMessage "COMPLETED"), .relayCommit])).row.status = "COMPLETED" :=
  ⟨rfl, (status_final "r" _ _ _ (by decide)).1 (by decide)⟩

/-- A redelivered message takes a finished run back, and a step that fails ends the run. -/
theorem status_not_final :
    (Runs.run (Table.step "r") runningTable [.message (statusMessage "COMPLETED"), .relayCommit]).row.status =
      "COMPLETED" ∧
    (Runs.run (Table.step "r") runningTable [.message (statusMessage "COMPLETED"), .relayCommit,
      .message (statusMessage "RUNNING"), .relayCommit]).row.status = "RUNNING" ∧
    (Runs.run (Table.step "r") runningTable [.message (stepMessage "FAILED"), .relayCommit]).row.status = "FAILED" ∧
    ¬ Runs.Meets (Table.step "r") (StepQuiet "r") runningTable [.message (stepMessage "FAILED"), .relayCommit] := by
  refine ⟨rfl, rfl, rfl, fun h => ?_⟩
  have hquiet := h.2.1 rfl
  revert hquiet
  decide

end AteStudio.Relay
