import AteStudio.Lib.Dict
import AteStudio.Lib.Runs

/-!
# Checkpoint ids (`api/v1/operator_checkpoints.py`)

The API keeps its maps for as long as the process lives, while the entries of the handler come and go. One request is one
move.
-/

namespace AteStudio.Checkpoint.Index

open Runs

/-- `uuid4().hex`: no id is given twice. -/
structure Uuids where
  hex : Nat → String
  injective : Function.Injective hex

structure Entry where
  runId : String
  stepId : String
  resolved : Bool := false
  ended : Bool := false

abbrev Key := String × String

def Entry.key (x : Entry) : Key := (x.runId, x.stepId)

structure Event where
  checkpointId : String
  entry : Nat

structure State where
  executions : List String := []
  -- The runs with a handler in the registry.
  handlers : List String := []
  -- Every checkpoint that was ever pending, by its number.
  entries : List Entry := []
  pending : Dict String Nat := ∅
  byId : Dict String Key := ∅
  byKey : Dict Key String := ∅
  minted : Nat := 0
  events : List Event := []
  -- Not in the source: the ids that were handed out, each with the checkpoint that was pending.
  handed : List (String × Nat) := []

inductive Move where
  | create (runId : String)
  | register (runId : String)
  | pend (runId stepId : String)
  | poll (runId : String)
  | answer (runId stepId : String)
  | ack (checkpointId : String)
  | timeout (entry : Nat)
  | leave (entry : Nat)

inductive Refusal where
  | unknownId
  | noExecution
  | noHandler
  | noPending
  | otherStep
deriving DecidableEq

variable (s : State)

def pendingOf (runId : String) : Except Refusal (Nat × Entry) :=
  if runId ∉ s.executions then .error .noExecution
  else if runId ∉ s.handlers then .error .noHandler
  else
    match s.pending.get? runId with
    | none => .error .noPending
    | some e =>
      match s.entries[e]? with
      | none => .error .noPending
      | some x => .ok (e, x)

def target (runId stepId : String) : Except Refusal Nat :=
  match pendingOf s runId with
  | .error refusal => .error refusal
  | .ok (e, x) => if x.stepId = stepId then .ok e else .error .otherStep

def ackTarget (checkpointId : String) : Except Refusal Nat :=
  match s.byId.get? checkpointId with
  | none => .error .unknownId
  | some (runId, stepId) => target s runId stepId

def resolve (e : Except Refusal Nat) : State :=
  match e with
  | .error _ => s
  | .ok e => { s with entries := s.entries.modify e fun x => { x with resolved := true } }

def finish (e : Nat) (x : Entry) : State :=
  { s with
    entries := s.entries.set e { x with ended := true }
    pending := if s.pending.get? x.runId = some e then s.pending.erase x.runId else s.pending }

section

variable (uuids : Uuids)

def observePending (s : State) (e : Nat) (x : Entry) : State :=
  match s.byKey.get? x.key with
  | some checkpointId => { s with handed := s.handed ++ [(checkpointId, e)] }
  | none =>
    let checkpointId := uuids.hex s.minted
    { s with
      byId := s.byId.set checkpointId x.key
      byKey := s.byKey.set x.key checkpointId
      minted := s.minted + 1
      events := s.events ++ [⟨checkpointId, e⟩]
      handed := s.handed ++ [(checkpointId, e)] }

def step (s : State) : Move → State
  | .create runId => { s with executions := s.executions ++ [runId] }
  | .register runId => { s with handlers := s.handlers ++ [runId] }
  | .pend runId stepId =>
    { s with entries := s.entries ++ [{ runId, stepId }], pending := s.pending.set runId s.entries.length }
  | .poll runId =>
    match pendingOf s runId with
    | .error _ => s
    | .ok (e, x) => observePending uuids s e x
  | .answer runId stepId => resolve s (target s runId stepId)
  | .ack checkpointId => resolve s (ackTarget s checkpointId)
  | .timeout e =>
    match s.entries[e]? with
    | none => s
    | some x => if x.ended then s else finish s e x
  | .leave e =>
    match s.entries[e]? with
    | none => s
    | some x => if x.resolved ∧ ¬ x.ended then finish s e x else s

end

/-! ## The property -/

def firstFor (checkpointId : String) : Option Nat := (s.handed.find? (·.1 = checkpointId)).map (·.2)

/-- An acknowledgement resolves only the checkpoint of its id, and is refused once that one has ended. -/
def AckNamesOne : Move → Prop
  | .ack c =>
    (∀ e, ackTarget s c = .ok e → firstFor s c = some e) ∧
      ∀ e x, firstFor s c = some e → s.entries[e]? = some x → x.resolved = true ∨ x.ended = true →
        ∀ e', ackTarget s c ≠ .ok e'
  | _ => True

def OneEvent : Prop := ∀ c e, (c, e) ∈ s.handed → s.events.countP (·.entry = e) = 1

structure IdsNameOne (uuids : Uuids) (moves : List Move) : Prop where
  acks : Meets (step uuids) AckNamesOne {} moves
  events : OneEvent (run (step uuids) {} moves)

/-! ## The condition -/

def Unseen (e : Nat) (x : Entry) : Prop :=
  ∀ c e', s.byKey.get? x.key = some c → firstFor s c = some e' → e' = e

def polled? : Move → Option (Nat × Entry)
  | .poll runId => (pendingOf s runId).toOption
  | _ => none

def PollFresh (m : Move) : Prop := ∀ e x, polled? s m = some (e, x) → Unseen s e x

def AckFresh : Move → Prop
  | .ack c => ∀ e x, ackTarget s c = .ok e → s.entries[e]? = some x → Unseen s e x ∧ x.resolved = false
  | _ => True

/-- No checkpoint is polled or reached whose run and step had an id before, or that is answered. -/
def Fresh (m : Move) : Prop := PollFresh s m ∧ AckFresh s m

end AteStudio.Checkpoint.Index
