import AteStudio.Offline.Reconcile

/-!
# Draining the queue

A record that a crash leaves between its two commits is not offered again.
-/

namespace AteStudio.Offline

namespace UploadQueue

def recordOps (uploader : Uploader) (clock : Clock) (entry : Nat × UploadRecord) : List QueueOp :=
  match uploader.uploadRecord entry.1 entry.2 with
  | .accepted => [.markUploaded entry.1, .markAcked entry.1 (clock.ackedAt entry.1)]
  | .rejected | .raised => [.recordRetry entry.1]

def flushOps (uploader : Uploader) (clock : Clock) (queue : UploadQueue) : List QueueOp :=
  queue.listPending.flatMap (recordOps uploader clock)

end UploadQueue

inductive QueueMove where
  | op (op : QueueOp)
  -- a reconciliation that crashes after some of its commits
  | crash (uploader : Uploader) (clock : Clock) (commits : Nat)

namespace UploadQueue

def step (queue : UploadQueue) : QueueMove → UploadQueue
  | .op op => queue.apply op
  | .crash uploader clock commits => ((queue.flushOps uploader clock).take commits).foldl apply queue

variable {uploader : Uploader} {clock : Clock}

theorem flush_eq_foldl (queue : UploadQueue) (report : ReconcileReport) :
    (flushUploadQueue uploader clock queue report).1 = (queue.flushOps uploader clock).foldl apply queue := by
  unfold flushUploadQueue flushOps
  generalize queue.listPending = entries
  induction entries generalizing queue report with
  | nil => rfl
  | cons entry entries ih =>
    obtain ⟨id, record⟩ := entry
    rw [List.foldl_cons, List.flatMap_cons, List.foldl_append, ih]
    congr 1
    dsimp only [flushRecord, recordOps]
    cases uploader.uploadRecord id record <;> rfl

/-! ## What an accepting uploader leaves -/

variable {queue : UploadQueue}

theorem state?_accepted (queue : UploadQueue) (id id' : Nat) (now : Rat) :
    ((queue.markUploaded id).markAcked id now).state? id' =
      if id' = id then (queue.state? id).map (fun _ => .acked) else queue.state? id' := by
  rw [state?_markAcked]
  simp only [state?_markUploaded, if_true, Option.map_map]
  split
  · rfl
  · rfl

theorem state?_flush (haccepts : ∀ id record, uploader.uploadRecord id record = .accepted)
    (entries : List (Nat × UploadRecord)) (s : UploadQueue × ReconcileReport) (id : Nat) :
    (entries.foldl (flushRecord uploader clock) s).1.state? id =
      if id ∈ entries.map Prod.fst then (s.1.state? id).map (fun _ => .acked) else s.1.state? id := by
  induction entries generalizing s with
  | nil => rfl
  | cons entry entries ih =>
    have hentry : (flushRecord uploader clock s entry).1 =
        (s.1.markUploaded entry.1).markAcked entry.1 (clock.ackedAt entry.1) := by
      unfold flushRecord
      simp only [haccepts]
    rw [List.foldl_cons, ih, hentry, state?_accepted]
    by_cases hid : id = entry.1
    · -- Its other turns, if there were any, change nothing.
      have hmem : id ∈ (entry :: entries).map Prod.fst := hid ▸ List.mem_cons_self
      rw [if_pos hmem, if_pos hid, Option.map_map, ← hid]
      split <;> rfl
    · have hmem : id ∈ (entry :: entries).map Prod.fst ↔ id ∈ entries.map Prod.fst := by
        rw [List.map_cons, List.mem_cons, or_iff_right hid]
      simp only [if_neg hid, hmem]

theorem mem_listPending_fst {id : Nat} : id ∈ queue.listPending.map Prod.fst ↔ queue.state? id = some .pending := by
  simp only [List.mem_map, mem_listPending, state?, Option.map_eq_some_iff]
  constructor
  · rintro ⟨entry, ⟨hget, hstate⟩, rfl⟩
    exact ⟨entry.2, hget, hstate⟩
  · rintro ⟨record, hget, hstate⟩
    exact ⟨(id, record), ⟨hget, hstate⟩, rfl⟩

theorem acked_flush_iff (haccepts : ∀ id record, uploader.uploadRecord id record = .accepted) (report : ReconcileReport)
    (id : Nat) : (∀ state ∈ (flushUploadQueue uploader clock queue report).1.state? id, state = .acked) ↔
      queue.state? id ≠ some .uploaded := by
  rw [flushUploadQueue, state?_flush haccepts]
  simp only [mem_listPending_fst]
  cases queue.state? id with
  | none => simp
  | some state => cases state <;> simp

end UploadQueue

def UploadQueue.Drained (queue : UploadQueue) : Prop := ∀ entry ∈ queue.rows.entries, entry.2.state = .acked

def UploadQueue.NoneUploaded (queue : UploadQueue) : Prop := ∀ entry ∈ queue.rows.entries, entry.2.state ≠ .uploaded

instance (queue : UploadQueue) : Decidable queue.Drained := inferInstanceAs (Decidable (∀ _ ∈ _, _))

instance (queue : UploadQueue) : Decidable queue.NoneUploaded := inferInstanceAs (Decidable (∀ _ ∈ _, _))

theorem UploadQueue.forall_entries_iff (queue : UploadQueue) (p : UploadState → Prop) :
    (∀ entry ∈ queue.rows.entries, p entry.2.state) ↔ ∀ id, ∀ state ∈ queue.state? id, p state := by
  simp only [UploadQueue.state?, Option.mem_def, Option.map_eq_some_iff]
  constructor
  · rintro h id _ ⟨record, hget, rfl⟩
    exact h (id, record) ((Dict.get?_eq_some_iff _ _ _).mp hget)
  · intro h entry hentry
    exact h entry.1 _ ⟨entry.2, (Dict.get?_eq_some_iff _ _ _).mpr hentry, rfl⟩

theorem reconcile_drains_iff (sha256 : String → String) (uploader : Uploader) (clock : Clock) (station : Station)
    (retention : Rat) (moves : List QueueMove) (haccepts : ∀ id record, uploader.uploadRecord id record = .accepted) :
    (reconcile sha256 uploader clock
      { station with queue := Runs.run UploadQueue.step (.new retention) moves }).1.queue.Drained ↔
      (Runs.run UploadQueue.step (.new retention) moves).NoneUploaded := by
  generalize Runs.run UploadQueue.step (.new retention) moves = queue
  have hnone := queue.forall_entries_iff (· ≠ .uploaded)
  have hall := (flushUploadQueue uploader clock queue {}).1.forall_entries_iff (· = .acked)
  refine hall.trans (Iff.trans (forall_congr' fun id => ?_) hnone.symm)
  rw [UploadQueue.acked_flush_iff haccepts]
  cases queue.state? id <;> simp

/-! ## A record and a crash -/

def accepting : Uploader := ⟨fun _ _ => .accepted, fun _ _ => .unknown⟩

def standing : Clock := ⟨fun _ => 0, fun _ => 0⟩

def emptyStation : Station := ⟨.new 1, ∅, [], ∅⟩

theorem reconcile_drains_pending :
    (reconcile id accepting standing { emptyStation with
      queue := Runs.run UploadQueue.step (.new 1) [.op (.enqueue "st" "e" 0 "p")] }).1.queue.Drained :=
  (reconcile_drains_iff id accepting standing emptyStation 1 [.op (.enqueue "st" "e" 0 "p")] fun _ _ => rfl).mpr
    (by decide)

/-- The reconciliation before crashed between the two commits. -/
theorem reconcile_not_drained :
    ¬ (reconcile id accepting standing { emptyStation with
      queue := Runs.run UploadQueue.step (.new 1)
        [.op (.enqueue "st" "e" 0 "p"), .crash accepting standing 1] }).1.queue.Drained := by
  decide

end AteStudio.Offline
