import AteStudio.Lib.Json
import AteStudio.Lib.Runs
import AteStudio.Registry

/-!
# The resume manager (`data/resume.py`)

A result is written to a table and queued in memory, and a new manager queues what it finds in the table. A message is
known by the place of its result among all that were submitted. The code has no such number.
-/

namespace AteStudio.Resume

open Json (Obj Text)

structure Config where
  maxRetries : Int := 3
  reprFloat : Rat → String

structure Submission where
  stepId : String
  sequenceId : Option String := none
  status : StepStatus
  outputs : Obj
  error : Option String := none

/-- A member of the enum, or the text that `_load_pending_messages` puts there. -/
inductive Status where
  | member (s : StepStatus)
  | text (s : String)

def Status.value? : Status → Option String
  | .member s => some s.value
  | .text _ => none

structure PendingMessage where
  number : Nat
  stepId : String
  sequenceId : Option String
  status : Status
  outputs : Obj
  error : Option String
  retryCount : Nat

/-- The JSON of a row and of a publication, without the time of writing. -/
structure Payload where
  stepId : String
  sequenceId : Option String
  status : String
  outputs : Text
  error : Option String

structure Row where
  owner : Nat
  payload : Payload
  retryCount : Nat
  createdAt : Nat

inductive Phase where
  | idle
  | attempting (m : PendingMessage)
  | removing (m : PendingMessage)
  | updating (m : PendingMessage)
  | backoff (m : PendingMessage)

inductive Mode where
  | running
  | stopping
  | stopped
deriving DecidableEq

structure ResumeManager where
  rows : List Row
  pending : List PendingMessage
  phase : Phase
  mode : Mode
  -- What happened: the results, the messages with a row, the retry counts of each message, what was published and which
  -- messages ran out of retries.
  submitted : List Submission
  persisted : List Nat
  counted : List (Nat × Nat)
  published : List (Nat × Payload)
  exhausted : List Nat

inductive Move where
  | submit (result : Submission) (now : Nat)
  | take
  -- The publisher answers, or is not there. An exception is a refusal.
  | attempted (ok : Bool)
  | removed
  | updated
  | requeued
  | retryPending
  -- What is waited for is cancelled. It may have taken effect.
  | stop (done : Bool)
  -- The process dies, wherever it is, and a new manager starts on the table.
  | restart

namespace ResumeManager

def new : ResumeManager := ⟨[], [], .idle, .running, [], [], [], [], []⟩

/-! ## The database -/

variable (cfg : Config) (s : ResumeManager) (m : PendingMessage)

/-- Nothing for a status without `value` and for outputs that are not JSON. -/
def buildPayload? : Option Payload := do
  let status ← m.status.value?
  let outputs ← Json.dumps? cfg.reprFloat m.outputs
  return ⟨m.stepId, m.sequenceId, status, outputs, m.error⟩

def message (number : Nat) (r : Submission) : PendingMessage :=
  ⟨number, r.stepId, r.sequenceId, .member r.status, r.outputs, r.error, 0⟩

def persist (now : Nat) : ResumeManager :=
  match buildPayload? cfg m with
  | some payload =>
    { s with
      rows := s.rows ++ [⟨m.number, payload, m.retryCount, now⟩]
      persisted := s.persisted ++ [m.number] }
  | none => s

/-- `_remove_message`: every row with the step of the message. -/
def removeMessage (stepId : String) : ResumeManager :=
  { s with rows := s.rows.filter (·.payload.stepId ≠ stepId) }

/-- `_update_retry_count`: every row with the step of the message. -/
def updateRetryCount : ResumeManager :=
  match buildPayload? cfg m with
  | some payload =>
    { s with rows := s.rows.map fun row =>
        if row.payload.stepId = m.stepId then { row with payload, retryCount := m.retryCount } else row }
  | none => s

def reload (row : Row) : PendingMessage :=
  ⟨row.owner, row.payload.stepId, row.payload.sequenceId, .text row.payload.status, Json.loads row.payload.outputs,
    row.payload.error, row.retryCount⟩

def loadPendingMessages : List PendingMessage :=
  (s.rows.insertionSort fun a b => a.createdAt ≤ b.createdAt).map reload

/-! ## The loop -/

/-- The attempt failed. `_process_remaining` leaves the row for the next start. -/
def refuse : ResumeManager :=
  match s.mode with
  | .running =>
    if (m.retryCount : Int) ≥ cfg.maxRetries then
      { s with phase := .removing m, exhausted := s.exhausted ++ [m.number] }
    else
      { s with
        phase := .updating { m with retryCount := m.retryCount + 1 }
        counted := s.counted ++ [(m.number, m.retryCount + 1)] }
  | _ => { s with phase := .idle }

def publish (payload : Payload) : ResumeManager :=
  { s with published := s.published ++ [(m.number, payload)] }

def finish : ResumeManager :=
  match s.phase with
  | .attempting m =>
    match buildPayload? cfg m with
    | some payload => s.publish m payload
    | none => s
  | .removing m => s.removeMessage m.stepId
  | .updating m => s.updateRetryCount cfg m
  | _ => s

def step : Move → ResumeManager
  | .submit result now =>
    let m := message s.submitted.length result
    let s' := s.persist cfg m now
    { s' with
      pending := s'.pending ++ [m]
      submitted := s'.submitted ++ [result]
      counted := s'.counted ++ [(m.number, 0)] }
  | .take =>
    match s.phase, s.mode, s.pending with
    | .idle, .stopped, _ => s
    | .idle, _, m :: rest => { s with phase := .attempting m, pending := rest }
    | .idle, .stopping, [] => { s with mode := .stopped }
    | _, _, _ => s
  | .attempted ok =>
    match s.phase with
    | .attempting m =>
      match buildPayload? cfg m with
      | some payload => if ok then { s.publish m payload with phase := .removing m } else s.refuse cfg m
      | none => s.refuse cfg m
    | _ => s
  | .removed =>
    match s.phase with
    | .removing m => { s.removeMessage m.stepId with phase := .idle }
    | _ => s
  | .updated =>
    match s.phase with
    | .updating m => { s.updateRetryCount cfg m with phase := .backoff m }
    | _ => s
  | .requeued =>
    match s.phase with
    | .backoff m => { s with pending := s.pending ++ [m], phase := .idle }
    | _ => s
  | .retryPending =>
    { s with pending := s.pending ++ s.loadPendingMessages.filter fun m => (m.retryCount : Int) < cfg.maxRetries }
  | .stop done =>
    match s.mode with
    | .running => { if done then s.finish cfg else s with phase := .idle, mode := .stopping }
    | _ => s
  | .restart => { s with pending := s.loadPendingMessages, phase := .idle, mode := .running }

end ResumeManager

end AteStudio.Resume
