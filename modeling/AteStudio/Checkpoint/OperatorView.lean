import AteStudio.Lib.Dict
import AteStudio.Lib.Runs

/-!
# The operator's list of checkpoints (`utils/checkpointFlow.ts`, `views/OperatorView.vue`)

The list is kept while one run is shown after the other, and has one item for each step id. A move is a response, and its
request may have been made when another run was shown.
-/

namespace AteStudio.Checkpoint.OperatorView

open Runs

inductive CheckpointStatus where
  | pending
  | acked
deriving DecidableEq

structure CheckpointItem (Def : Type) where
  runId : String
  checkpoint : Def
  createdAt : String
  status : CheckpointStatus := .pending
  ackedBy : Option String := none
  ackedAt : Option String := none
  note : Option String := none

structure PendingCheckpointResponse (Def : Type) where
  runId : String
  pending : Bool
  stepId : Option String
  checkpoint : Option Def
  createdAt : Option String

variable {Def : Type}

abbrev Checkpoints (Def : Type) := Dict String (CheckpointItem Def)

/-- What `upsertPending` asks for. Empty texts count as missing. -/
def PendingCheckpointResponse.fields? : PendingCheckpointResponse Def → Option (String × Def × String)
  | ⟨_, true, some stepId, some checkpoint, some createdAt⟩ =>
    if stepId = "" ∨ createdAt = "" then none else some (stepId, checkpoint, createdAt)
  | _ => none

variable (items : Checkpoints Def)

def upsertPending (payload : PendingCheckpointResponse Def) : Checkpoints Def :=
  match payload.fields? with
  | some (stepId, checkpoint, createdAt) => items.set stepId { runId := payload.runId, checkpoint, createdAt }
  | none => items

def acknowledgeCheckpoint (item : CheckpointItem Def) (operator : String) (note : Option String)
    (acknowledgedAt : String) : CheckpointItem Def :=
  match item.status with
  | .acked => item
  | .pending =>
    { item with status := .acked, ackedBy := operator, ackedAt := acknowledgedAt, note := note.filter (· ≠ "") }

inductive Move (Def : Type) where
  | polled (payload : PendingCheckpointResponse Def)
  | acknowledged (runId stepId operator : String) (note : Option String) (acknowledgedAt : String)

/-- What `pollPending` and `confirmAck` do with their responses. -/
def step : Move Def → Checkpoints Def
  | .polled payload => upsertPending items payload
  | .acknowledged _ stepId operator note acknowledgedAt =>
    items.update stepId (acknowledgeCheckpoint · operator note acknowledgedAt)

def Move.acknowledges? : Move Def → Option String
  | .polled _ => none
  | .acknowledged runId .. => some runId

/-- Signed items stay as they are, and so do items of other runs than the one that is acknowledged. -/
def SignedStay (m : Move Def) : Prop :=
  ∀ stepId item, items.get? stepId = some item →
    (item.status = .acked ∨ ∃ runId, m.acknowledges? = some runId ∧ item.runId ≠ runId) →
    (step items m).get? stepId = some item

/-- No signed step is pending again, and no acknowledgement meets a pending item of another run. -/
def Apart : Move Def → Prop
  | .polled payload =>
    ∀ fields item, payload.fields? = some fields → items.get? fields.1 = some item → item.status ≠ .acked
  | .acknowledged runId stepId .. =>
    ∀ item, items.get? stepId = some item → item.status = .acked ∨ item.runId = runId

theorem signedStay_iff_apart (m : Move Def) : SignedStay items m ↔ Apart items m := by
  cases m with
  | polled payload =>
    constructor
    · intro h fields item hfields hitem hacked
      have hkept := h fields.1 item hitem (.inl hacked)
      rw [step, upsertPending, hfields, Dict.get?_set_self] at hkept
      cases hkept
      cases hacked
    · rintro h stepId item hitem (hacked | ⟨_, hnone, _⟩)
      · rw [step, upsertPending]
        split
        · next stepId' checkpoint createdAt hfields =>
          have hne : stepId ≠ stepId' := by
            rintro rfl
            exact h _ item hfields hitem hacked
          rw [Dict.get?_set_of_ne _ _ hne, hitem]
        · exact hitem
      · cases hnone
  | acknowledged runId stepId operator note acknowledgedAt =>
    constructor
    · intro h item hitem
      cases hstatus : item.status with
      | acked => exact .inl rfl
      | pending =>
        refine .inr (by_contra fun hrun => ?_)
        have hkept := h stepId item hitem (.inr ⟨runId, rfl, hrun⟩)
        rw [step, Dict.get?_update, if_pos rfl, hitem, Option.map_some, acknowledgeCheckpoint, hstatus] at hkept
        cases hstatus.symm.trans (congrArg CheckpointItem.status (Option.some.inj hkept)).symm
    · intro h stepId' item hitem hsigned
      rw [step, Dict.get?_update]
      split
      · next heq =>
        subst heq
        have hacked : item.status = .acked := by
          rcases hsigned with hacked | ⟨_, hrun, hne⟩
          · exact hacked
          · cases hrun
            exact (h item hitem).resolve_right hne
        rw [hitem, Option.map_some, acknowledgeCheckpoint, hacked]
      · exact hitem

theorem signed_stay_iff (moves : List (Move Def)) : Meets step SignedStay ∅ moves ↔ Meets step Apart ∅ moves :=
  meets_congr signedStay_iff_apart

def polledFor (runId : String) : Move Unit := .polled ⟨runId, true, some "scan", some (), some "09:00"⟩

def signedFor (runId : String) : Move Unit := .acknowledged runId "scan" "ann" none "09:05"

/-- A late response makes a signed item pending, and an item is signed with that of the run before. -/
theorem not_signed_stay :
    ¬ Meets step SignedStay ∅ [polledFor "r1", signedFor "r1", polledFor "r1"] ∧
      ¬ Meets step SignedStay ∅ [polledFor "r1", polledFor "r2", signedFor "r1"] := by
  simp only [meets_congr signedStay_iff_apart]
  constructor
  · rintro ⟨-, -, h, -⟩
    exact h _ _ rfl rfl rfl
  · rintro ⟨-, -, h, -⟩
    exact absurd (h _ rfl) (by decide)

end AteStudio.Checkpoint.OperatorView
