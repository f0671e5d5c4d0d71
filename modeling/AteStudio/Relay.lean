import AteStudio.Lib.Json

/-!
# From the edge to the execution record (`services/execution_status_relay.py`)

The worker publishes an object with the keys `type` and `data`. The relay reads `run_id`, `step_id` and `status` from the
object itself.
-/

namespace AteStudio.Relay

open Json

/-! ## The edge -/

/-- `_FORWARDED_EVENT_TYPES` -/
inductive EventType where
  | stepStarted
  | stepCompleted
  | stepFailed
  | stepSkipped
  | stepStatusChanged
  | breakpointHit
deriving DecidableEq

def EventType.value : EventType → String
  | .stepStarted => "STEP_STARTED"
  | .stepCompleted => "STEP_COMPLETED"
  | .stepFailed => "STEP_FAILED"
  | .stepSkipped => "STEP_SKIPPED"
  | .stepStatusChanged => "STEP_STATUS_CHANGED"
  | .breakpointHit => "BREAKPOINT_HIT"

structure Event where
  type : EventType
  data : Dict String Obj

def Event.stepId? (event : Event) : Option String := (event.data.get? "step_id").bind Obj.str?

def Event.payload (event : Event) : Obj := .dict [(.str "type", .str event.type.value), (.str "data", ofDict event.data)]

def forwarder (reprFloat : Rat → String) (event : Event) : Option Text := dumps? reprFloat event.payload

/-! ## The cloud -/

structure Execution where
  status : String
  stepResults : Option (Dict String Obj)

def executionStatuses : List String := ["PENDING", "RUNNING", "COMPLETED", "FAILED", "ABORTED"]

def orNone (v : Option Obj) : Obj := v.getD .none

/-- The key in the JSON column. Ids are texts or whole numbers. -/
def stepKey? : Obj → Option String
  | .str s => some s
  | .int i => some (toString i)
  | .bool b => some (if b then "true" else "false")
  | _ => none

/-- A row with the result of the step, when the event names one. -/
def Execution.record (execution : Execution) (event : Obj) : Execution :=
  match (event.get? "step_id").bind stepKey? with
  | none => execution
  | some stepId => { execution with
      stepResults := some ((execution.stepResults.getD ∅).set stepId (.dict [
        (.str "status", orNone (event.get? "status")),
        (.str "outputs", orNone (event.get? "outputs")),
        (.str "timestamp", orNone (event.get? "timestamp"))])) }

def Execution.setStatus (execution : Execution) (event : Obj) : Execution :=
  match (event.get? "status").bind Obj.str? with
  | some status => if status ∈ executionStatuses then { execution with status } else execution
  | none => execution

def updateDb (db : Dict String Execution) (event : Obj) : Dict String Execution :=
  match (event.get? "run_id").bind Obj.str? with
  | none => db
  | some runId =>
    if runId = "" then db
    else match db.get? runId with
      | none => db
      | some execution => db.set runId ((execution.record event).setStatus event)

def processMessages (db : Dict String Execution) (messages : List Text) : Dict String Execution :=
  messages.foldl (fun db message => updateDb db (loads message)) db

/-! ## What should arrive -/

def lastStatus (stepId : String) (events : List Event) : Option Obj :=
  (events.reverse.find? fun e => e.type = .stepStatusChanged ∧ e.stepId? = some stepId).bind (·.data.get? "new_status")

/-- The row has the last status of every step of the events. -/
def Recorded (execution : Execution) (events : List Event) : Prop :=
  ∀ event ∈ events, ∀ stepId ∈ event.stepId?, ∃ entry, (execution.stepResults.getD ∅).get? stepId = some entry ∧
    ∀ status ∈ lastStatus stepId events, entry.get? "status" = some status

/-! ## What does arrive -/

variable {reprFloat : Rat → String}

theorem runId_forwarder {event : Event} {message : Text}
    (h : forwarder reprFloat event = some message) : (loads message).get? "run_id" = none := by
  have hkeys : event.payload = ofDict ⟨[("type", .str event.type.value), ("data", ofDict event.data)], by simp⟩ := rfl
  have himage : image reprFloat event.payload = some (loads message) := by
    rw [forwarder] at h
    rw [image, h]
    rfl
  rw [hkeys] at himage
  obtain ⟨d, hd, hget⟩ := image_ofDict himage
  rw [hd, get?_ofDict]
  by_contra hsome
  obtain ⟨v', hv'⟩ := Option.ne_none_iff_exists'.mp hsome
  obtain ⟨v, hv, _⟩ := hget _ _ hv'
  simp [Dict.get?, List.lookup] at hv

/-- Every event was put on the subject as its message. -/
abbrev Published (reprFloat : Rat → String) : List Event → List Text → Prop :=
  List.Forall₂ fun event message => forwarder reprFloat event = some message

theorem processMessages_published {events : List Event} {messages : List Text}
    (h : Published reprFloat events messages) (db : Dict String Execution) : processMessages db messages = db := by
  induction h with
  | nil => rfl
  | @cons _ message _ _ hmessage _ ih =>
    have hsame : updateDb db (loads message) = db := by simp only [updateDb, runId_forwarder hmessage, Option.bind_none]
    rw [processMessages, List.foldl_cons, hsame]
    exact ih

theorem recorded_iff {reprFloat : Rat → String} {events : List Event} {messages : List Text}
    (h : Published reprFloat events messages) {db : Dict String Execution} {runId : String} {execution : Execution}
    (hrow : db.get? runId = some execution) :
    (∃ after, (processMessages db messages).get? runId = some after ∧ Recorded after events) ↔
      Recorded execution events := by
  rw [processMessages_published h]
  constructor
  · rintro ⟨after, hafter, hrecorded⟩
    rw [hrow] at hafter
    cases hafter
    exact hrecorded
  · exact fun hrecorded => ⟨execution, hrow, hrecorded⟩

/-! ## One step that starts -/

def startedEvent : Event where
  type := .stepStarted
  data := ⟨[("step_id", .str "a"), ("condition", .none), ("run_id", .none)], by decide⟩

def startedMessage : Text :=
  .object [("type", .str "STEP_STARTED"),
    ("data", .object [("step_id", .str "a"), ("condition", .null), ("run_id", .null)])]

theorem published_started : Published (fun _ => "") [startedEvent] [startedMessage] := .cons rfl .nil

def rowOf (stepResults : Option (Dict String Obj)) : Dict String Execution :=
  ⟨[("r", { status := "RUNNING", stepResults })], by simp⟩

theorem recorded_iff_known : ∃ after,
    (processMessages (rowOf (some ⟨[("a", .none)], by decide⟩)) [startedMessage]).get? "r" = some after ∧
      Recorded after [startedEvent] := by
  refine (recorded_iff published_started rfl).mpr fun event hevent stepId hstepId => ?_
  obtain rfl := List.mem_singleton.mp hevent
  cases hstepId
  exact ⟨.none, rfl, by simp [lastStatus, startedEvent]⟩

/-- The row of a new execution has no entry for the step that was started. -/
theorem started_not_recorded : Published (fun _ => "") [startedEvent] [startedMessage] ∧
    ¬ ∃ after, (processMessages (rowOf none) [startedMessage]).get? "r" = some after ∧
      Recorded after [startedEvent] := by
  refine ⟨published_started, ?_⟩
  rintro ⟨after, hafter, hrecorded⟩
  cases hafter
  obtain ⟨entry, hentry, _⟩ := hrecorded startedEvent List.mem_cons_self "a" rfl
  cases hentry

end AteStudio.Relay
