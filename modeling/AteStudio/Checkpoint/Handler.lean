import AteStudio.Lib.Json
import AteStudio.Lib.Runs

/-!
# The checkpoint handler (`executor/checkpoint_handler.py`)

A wait, the submissions and the cancellations run on different threads, and each statement is one move. The wait is woken
by a callback that runs later, and may time out until then.
-/

namespace AteStudio.Checkpoint

structure CheckpointResponse where
  runId : String
  stepId : String
  response : String
  reason : Option String := none
  extra : Dict String Json.Text := ∅

inductive Outcome where
  | returned (response : Option CheckpointResponse)
  | timedOut
  | cancelled
  | withoutResponse

inductive WaitAt where
  -- The entry is registered and `on_pending` is called.
  | notifying
  | waiting
  | woken
  -- After each of the two checks.
  | uncancelled
  | answered
  | leaving (outcome : Outcome)
  | left (outcome : Outcome)

structure PendingCheckpoint where
  runId : String
  stepId : String
  event : Bool := false
  response : Option CheckpointResponse := none
  timedOut : Bool := false
  cancelled : Bool := false
  pos : WaitAt := .notifying

inductive SubmitAt where
  | start
  | found (wait : Nat)
  | matched (wait : Nat)
  | recorded (wait : Nat)
  | scheduled (wait : Nat)
  | accepted (wait : Nat)
  | rejected

inductive CancelAt where
  | start
  | found (wait : Nat)
  | marked (wait : Nat)
  | scheduled (wait : Nat)
  | done (found : Bool)

inductive Call where
  | submit (response : CheckpointResponse) (pos : SubmitAt)
  | cancel (runId : String) (pos : CancelAt)

structure State where
  -- Every entry that was ever made, by its number.
  waits : List PendingCheckpoint := []
  pending : Dict String Nat := ∅
  calls : List Call := []
  queue : List Nat := []

inductive Move where
  | start (runId stepId : String)
  | submit (runId stepId response : String) (reason : Option String) (extra : Option (Dict String Json.Text))
  | cancel (runId : String)
  | wait (wait : Nat)
  | call (call : Nat)
  | timeout (wait : Nat)
  | callback

def WaitAt.isLeft : WaitAt → Bool
  | left _ => true
  | _ => false

variable (s : State)

def start (runId stepId : String) : State :=
  if s.waits.all fun x => x.runId ≠ runId || x.pos.isLeft then
    { s with waits := s.waits ++ [{ runId, stepId }], pending := s.pending.set runId s.waits.length }
  else s

def PendingCheckpoint.next (x : PendingCheckpoint) : PendingCheckpoint :=
  match x.pos with
  | .notifying => { x with pos := .waiting }
  | .waiting => if x.event then { x with pos := .woken } else x
  | .woken => { x with pos := if x.cancelled then .leaving .cancelled else .uncancelled }
  | .uncancelled => { x with pos := if x.response.isNone then .leaving .withoutResponse else .answered }
  | .answered => { x with pos := .leaving (.returned x.response) }
  | .leaving outcome => { x with pos := .left outcome }
  | .left _ => x

def PendingCheckpoint.wake (x : PendingCheckpoint) : PendingCheckpoint := { x with event := true }

def PendingCheckpoint.record (response : CheckpointResponse) (x : PendingCheckpoint) : PendingCheckpoint :=
  { x with response := some response }

def PendingCheckpoint.mark (x : PendingCheckpoint) : PendingCheckpoint := { x with cancelled := true }

def PendingCheckpoint.expire (x : PendingCheckpoint) : PendingCheckpoint :=
  match x.pos with
  | .waiting => { x with timedOut := true, pos := .leaving .timedOut }
  | _ => x

def clear (w : Nat) : Dict String Nat :=
  match s.waits[w]? with
  | some { runId, pos := .leaving _, .. } =>
    if s.pending.get? runId = some w then s.pending.erase runId else s.pending
  | _ => s.pending

def waitNext (w : Nat) : State := { s with waits := s.waits.modify w .next, pending := clear s w }

def callback : State :=
  match s.queue with
  | [] => s
  | w :: rest => { s with waits := s.waits.modify w .wake, queue := rest }

def submitNext (response : CheckpointResponse) : SubmitAt → State × SubmitAt
  | .start =>
    match s.pending.get? response.runId with
    | none => (s, .rejected)
    | some w => (s, .found w)
  | .found w =>
    match s.waits[w]? with
    | none => (s, .found w)
    | some x => (s, if x.stepId = response.stepId then .matched w else .rejected)
  | .matched w => ({ s with waits := s.waits.modify w (.record response) }, .recorded w)
  | .recorded w => ({ s with queue := s.queue ++ [w] }, .scheduled w)
  | .scheduled w => (s, .accepted w)
  | .accepted w => (s, .accepted w)
  | .rejected => (s, .rejected)

def cancelNext (runId : String) : CancelAt → State × CancelAt
  | .start =>
    match s.pending.get? runId with
    | none => (s, .done false)
    | some w => (s, .found w)
  | .found w => ({ s with waits := s.waits.modify w .mark }, .marked w)
  | .marked w => ({ s with queue := s.queue ++ [w] }, .scheduled w)
  | .scheduled _ => (s, .done true)
  | .done found => (s, .done found)

def callNext (t : Nat) : State :=
  match s.calls[t]? with
  | none => s
  | some (.submit response pos) =>
    let (s', pos) := submitNext s response pos
    { s' with calls := s.calls.set t (.submit response pos) }
  | some (.cancel runId pos) =>
    let (s', pos) := cancelNext s runId pos
    { s' with calls := s.calls.set t (.cancel runId pos) }

def step : Move → State
  | .start runId stepId => start s runId stepId
  | .submit runId stepId response reason extra =>
    { s with calls := s.calls ++ [.submit ⟨runId, stepId, response, reason, extra.getD ∅⟩ .start] }
  | .cancel runId => { s with calls := s.calls ++ [.cancel runId .start] }
  | .wait w => waitNext s w
  | .call t => callNext s t
  | .timeout w => { s with waits := s.waits.modify w .expire }
  | .callback => callback s

end AteStudio.Checkpoint
