import AteStudio.Lib.Dict

/-!
# The upload queue (`offline/upload_queue.py`)

Every change is a commit of its own.
-/

namespace AteStudio.Offline

inductive UploadState where
  | pending
  | uploaded
  | acked
deriving DecidableEq

structure UploadRecord where
  stationId : String
  executionId : String
  seqNo : Int
  state : UploadState
  payloadPath : String
  retries : Nat
  retainedUntil : Option Rat
deriving DecidableEq

inductive QueueError where
  | emptyPayloadPath
deriving DecidableEq

structure UploadQueue where
  rows : Dict Nat UploadRecord
  -- The last `id` given out. A deleted one does not come again.
  lastId : Nat
  retention : Rat
deriving DecidableEq

inductive QueueOp where
  | enqueue (stationId executionId : String) (seqNo : Int) (payloadPath : String)
  | markUploaded (id : Nat)
  | markAcked (id : Nat) (now : Rat)
  | recordRetry (id : Nat)
  | purgeExpired (now : Rat)
deriving DecidableEq

namespace UploadQueue

def new (retention : Rat) : UploadQueue := ⟨∅, 0, retention⟩

variable (queue : UploadQueue) (id : Nat)

/-- A record with the same idempotency key is returned as it is. -/
def enqueue (stationId executionId : String) (seqNo : Int) (payloadPath : String) :
    Except QueueError ((Nat × UploadRecord) × UploadQueue) :=
  if payloadPath = "" then .error .emptyPayloadPath
  else
    match queue.rows.entries.find? fun row =>
      row.2.stationId = stationId ∧ row.2.executionId = executionId ∧ row.2.seqNo = seqNo with
    | some existing => .ok (existing, queue)
    | none =>
      let id := queue.lastId + 1
      let record := ⟨stationId, executionId, seqNo, .pending, payloadPath, 0, none⟩
      .ok ((id, record), { queue with rows := queue.rows.set id record, lastId := id })

def update (f : UploadRecord → UploadRecord) : UploadQueue :=
  { queue with rows := queue.rows.update id f }

def markUploaded : UploadQueue :=
  queue.update id fun record => if record.state = .pending then { record with state := .uploaded } else record

def markAcked (now : Rat) : UploadQueue :=
  queue.update id fun record =>
    if record.state ≠ .acked then { record with state := .acked, retainedUntil := some (now + queue.retention) }
    else record

def acks : Bool := (queue.rows.get? id).any (·.state ≠ .acked)

def recordRetry : UploadQueue :=
  queue.update id fun record => { record with retries := record.retries + 1 }

def purgeExpired (now : Rat) : UploadQueue :=
  { queue with rows := queue.rows.filter fun _ record => !(record.state = .acked && record.retainedUntil.any (· ≤ now)) }

def listPending : List (Nat × UploadRecord) :=
  (queue.rows.entries.filter (·.2.state = .pending)).insertionSort fun a b => a.1 ≤ b.1

def apply : QueueOp → UploadQueue
  | .enqueue stationId executionId seqNo payloadPath =>
    match queue.enqueue stationId executionId seqNo payloadPath with
    | .ok (_, after) => after
    | .error _ => queue
  | .markUploaded id => queue.markUploaded id
  | .markAcked id now => queue.markAcked id now
  | .recordRetry id => queue.recordRetry id
  | .purgeExpired now => queue.purgeExpired now

/-! ## The state of a record -/

def state? : Option UploadState := (queue.rows.get? id).map (·.state)

theorem state?_update {f : UploadRecord → UploadRecord} {g : UploadState → UploadState}
    (hf : ∀ record, (f record).state = g record.state) (queue : UploadQueue) (id id' : Nat) :
    (queue.update id f).state? id' = if id' = id then (queue.state? id).map g else queue.state? id' := by
  simp only [state?, update, Dict.get?_update]
  split
  · simp only [Option.map_map]
    congr 1
    exact funext hf
  · rfl

theorem state?_markUploaded (id id' : Nat) : (queue.markUploaded id).state? id' =
      if id' = id then (queue.state? id).map (fun s => if s = .pending then .uploaded else s) else queue.state? id' := by
  apply state?_update
  intro record
  split <;> rfl

theorem state?_markAcked (id id' : Nat) (now : Rat) : (queue.markAcked id now).state? id' =
      if id' = id then (queue.state? id).map (fun _ => .acked) else queue.state? id' := by
  apply state?_update
  intro record
  split
  · rfl
  · next hacked => exact not_not.mp hacked

theorem mem_listPending {queue : UploadQueue} {entry : Nat × UploadRecord} :
    entry ∈ queue.listPending ↔ queue.rows.get? entry.1 = some entry.2 ∧ entry.2.state = .pending := by
  rw [listPending, List.mem_insertionSort, List.mem_filter, Dict.get?_eq_some_iff, decide_eq_true_iff]

end UploadQueue

end AteStudio.Offline
