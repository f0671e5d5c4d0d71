import AteStudio.Lib.Runs

/-!
# The execution recorder (`recorder/execution_recorder.py`)

`stop` cancels the flush task wherever it waits and publishes one last batch.
-/

namespace AteStudio.Recorder

open List

def queueMaxSize : Nat := 10000

def flushBatchSize : Nat := 50

structure Event (δ : Type) where
  sessionId : String
  data : δ
deriving DecidableEq

variable {δ : Type}

inductive Phase (δ : Type) where
  | created
  | sleeping
  -- the task waits for a publish, with the rest of its batch to come
  | publishing (event : Event δ) (rest : List (Event δ))
  | cancelling
  -- `stop` waits for a publish of the last batch
  | draining (event : Event δ) (rest : List (Event δ))
  | stopped
deriving DecidableEq

structure ExecutionRecorder (δ : Type) where
  sessionId : String
  queue : List (Event δ)
  phase : Phase δ
  -- What `record` has taken, what has reached the stream and what is neither there nor kept.
  recorded : List (Event δ)
  published : List (Event δ)
  lost : List (Event δ)
deriving DecidableEq

inductive Move (δ : Type) where
  | record (event : Event δ)
  | start (connected : Bool)
  | wake
  -- the publish that is waited for returns or raises
  | publishOk
  | publishFail
  -- a publish that is cut off may have reached the stream
  | stop (sent : Bool)
  | resume
deriving DecidableEq

namespace ExecutionRecorder

def new (sessionId : String) : ExecutionRecorder δ := ⟨sessionId, [], .created, [], [], []⟩

variable (s : ExecutionRecorder δ) (event : Event δ)

def requeue : ExecutionRecorder δ :=
  if s.queue.length < queueMaxSize then { s with queue := s.queue ++ [event] } else { s with lost := s.lost ++ [event] }

/-- The oldest event makes room in a full queue. -/
def record : ExecutionRecorder δ :=
  if event.sessionId ≠ s.sessionId then s
  else if s.queue.length < queueMaxSize then
    { s with queue := s.queue ++ [event], recorded := s.recorded ++ [event] }
  else
    { s with queue := s.queue.tail ++ [event], recorded := s.recorded ++ [event], lost := s.lost ++ s.queue.take 1 }

def drain (idle : Phase δ) (busy : Event δ → List (Event δ) → Phase δ) : ExecutionRecorder δ :=
  match s.queue.take flushBatchSize with
  | [] => { s with phase := idle }
  | event :: rest => { s with queue := s.queue.drop flushBatchSize, phase := busy event rest }

def next (idle : Phase δ) (busy : Event δ → List (Event δ) → Phase δ) : List (Event δ) → ExecutionRecorder δ
  | [] => { s with phase := idle }
  | event :: rest => { s with phase := busy event rest }

def publish : ExecutionRecorder δ :=
  { s with published := s.published ++ [event] }

/-- The flush task is cancelled in a publish. Its batch is gone. -/
def cutOff (sent : Bool) (event : Event δ) (rest : List (Event δ)) : ExecutionRecorder δ :=
  if sent then { s.publish event with phase := .cancelling, lost := s.lost ++ rest }
  else { s with phase := .cancelling, lost := s.lost ++ event :: rest }

def step : Move δ → ExecutionRecorder δ
  | .record event =>
    match s.phase with
    | .stopped => s
    | _ => s.record event
  | .start connected =>
    match s.phase with
    | .created => if connected then { s with phase := .sleeping } else s
    | _ => s
  | .wake =>
    match s.phase with
    | .sleeping => s.drain .sleeping .publishing
    | _ => s
  | .publishOk =>
    match s.phase with
    | .publishing event rest => (s.publish event).next .sleeping .publishing rest
    | .draining event rest => (s.publish event).next .stopped .draining rest
    | _ => s
  | .publishFail =>
    match s.phase with
    | .publishing event rest => (s.requeue event).next .sleeping .publishing rest
    | .draining event rest => (s.requeue event).next .stopped .draining rest
    | _ => s
  | .stop sent =>
    match s.phase with
    | .created => { s with phase := .stopped }
    | .sleeping => { s with phase := .cancelling }
    | .publishing event rest => s.cutOff sent event rest
    | _ => s
  | .resume =>
    match s.phase with
    | .cancelling => s.drain .stopped .draining
    | _ => s

end ExecutionRecorder

/-! ## Where the events are -/

def Phase.batch : Phase δ → List (Event δ)
  | .publishing event rest | .draining event rest => event :: rest
  | .created | .sleeping | .cancelling | .stopped => []

def Phase.last : Phase δ → Bool
  | .draining .. | .stopped => true
  | .created | .sleeping | .publishing .. | .cancelling => false

namespace ExecutionRecorder

variable (s : ExecutionRecorder δ)

section Helpers

variable (idle : Phase δ) (busy : Event δ → List (Event δ) → Phase δ)

@[simp] theorem lost_drain : (s.drain idle busy).lost = s.lost := by
  unfold drain
  split <;> rfl

@[simp] theorem queue_drain : (s.drain idle busy).queue = s.queue.drop flushBatchSize := by
  unfold drain
  split
  · next hempty =>
    rcases take_eq_nil_iff.mp hempty with hzero | hqueue
    · cases hzero
    · simp [hqueue]
  · rfl

variable (rest : List (Event δ))

@[simp] theorem lost_next : (s.next idle busy rest).lost = s.lost := by
  cases rest <;> rfl

@[simp] theorem queue_next : (s.next idle busy rest).queue = s.queue := by
  cases rest <;> rfl

@[simp] theorem last_drain_sleeping : (s.drain .sleeping .publishing).phase.last = false := by
  unfold drain
  split <;> rfl

@[simp] theorem last_drain_stopped : (s.drain .stopped .draining).phase.last = true := by
  unfold drain
  split <;> rfl

@[simp] theorem last_next_sleeping : (s.next .sleeping .publishing rest).phase.last = false := by
  cases rest <;> rfl

@[simp] theorem last_next_stopped : (s.next .stopped .draining rest).phase.last = true := by
  cases rest <;> rfl

end Helpers

open Phase

/-! ## What a move takes and loses -/

/-- The event that `record` is called with, when it does not raise. -/
def taken : Move δ → List (Event δ)
  | .record event =>
    match s.phase with
    | .stopped => []
    | _ => if event.sessionId = s.sessionId then [event] else []
  | _ => []

/-- A full queue loses its oldest event to a new one, and has no room for one that comes back. What `stop` cuts off is
lost, but for an event that was sent. -/
def losses : Move δ → List (Event δ)
  | .record event =>
    if s.queue.length < queueMaxSize ∨ (s.taken (.record event)).isEmpty then [] else s.queue.take 1
  | .publishFail => if s.queue.length < queueMaxSize then [] else s.phase.batch.take 1
  | .stop sent =>
    match s.phase with
    | .publishing event rest => if sent then rest else event :: rest
    | _ => []
  | _ => []

theorem recorded_step (move : Move δ) :
    (s.step move).recorded = s.recorded ++ s.taken move := by
  cases move with
  | record event => cases hphase : s.phase <;> simp only [step, taken, record, hphase] <;> grind
  | _ => cases hphase : s.phase <;> simp [step, taken, hphase, requeue, drain, next, publish, cutOff] <;> grind

theorem lost_step (move : Move δ) : (s.step move).lost = s.lost ++ s.losses move := by
  cases move with
  | record event => cases hphase : s.phase <;> simp only [step, taken, losses, record, hphase] <;> grind
  | _ => cases hphase : s.phase <;> simp [step, losses, hphase, requeue, batch, publish, cutOff] <;> grind

section Conservation

variable [DecidableEq δ] {s : ExecutionRecorder δ}

def Conserved (s : ExecutionRecorder δ) : Prop :=
  ∀ event, s.recorded.count event =
    s.published.count event + s.lost.count event + s.phase.batch.count event + s.queue.count event

theorem conserved_record (h : s.Conserved) (event : Event δ) : (s.record event).Conserved := by
  intro e
  have he := h e
  unfold record
  split
  · exact he
  · split
    · simp only [count_append]
      omega
    · have hqueue := congrArg (List.count e) (take_append_drop 1 s.queue)
      simp only [count_append, drop_one] at hqueue ⊢
      omega

variable {idle : Phase δ} {busy : Event δ → List (Event δ) → Phase δ}

theorem conserved_drain (h : s.Conserved) (hphase : s.phase.batch = []) (hidle : idle.batch = [])
    (hbusy : ∀ event rest, (busy event rest).batch = event :: rest) : (s.drain idle busy).Conserved := by
  intro e
  have he := h e
  rw [hphase] at he
  unfold drain
  split
  · rw [hidle]
    exact he
  · next event rest htake =>
    have hqueue := congrArg (List.count e) (take_append_drop flushBatchSize s.queue)
    rw [htake, count_append] at hqueue
    simp only [hbusy, count_nil] at he ⊢
    omega

/-- An event of the batch has been published, queued again or lost. -/
def Moved (s : ExecutionRecorder δ) (event : Event δ) (after : ExecutionRecorder δ) : Prop :=
  after.recorded = s.recorded ∧ ∀ e, after.published.count e + after.lost.count e + after.queue.count e =
    s.published.count e + s.lost.count e + s.queue.count e + [event].count e

theorem conserved_next {after : ExecutionRecorder δ} {event : Event δ} {rest : List (Event δ)} (h : s.Conserved)
    (hphase : s.phase.batch = event :: rest) (hmoved : s.Moved event after) (hidle : idle.batch = [])
    (hbusy : ∀ event rest, (busy event rest).batch = event :: rest) : (after.next idle busy rest).Conserved := by
  intro e
  have he := h e
  obtain ⟨hrecorded, hcounts⟩ := hmoved
  have hcount := hcounts e
  rw [hphase, count_cons] at he
  rw [count_singleton] at hcount
  cases rest with
  | nil =>
    simp only [next, hrecorded, hidle, count_nil] at he ⊢
    omega
  | cons event' rest =>
    simp only [next, hrecorded, hbusy] at he ⊢
    omega

theorem moved_publish (s : ExecutionRecorder δ) (event : Event δ) : s.Moved event (s.publish event) := by
  refine ⟨rfl, fun e => ?_⟩
  simp only [publish, count_append]
  omega

theorem moved_requeue (s : ExecutionRecorder δ) (event : Event δ) : s.Moved event (s.requeue event) := by
  unfold requeue
  split
  all_goals
    refine ⟨rfl, fun e => ?_⟩
    simp only [count_append]
    omega

theorem conserved_cutOff (h : s.Conserved) (sent : Bool) {event : Event δ} {rest : List (Event δ)}
    (hphase : s.phase.batch = event :: rest) : (s.cutOff sent event rest).Conserved := by
  intro e
  have he := h e
  rw [hphase] at he
  unfold cutOff
  split
  · simp only [publish, batch, count_append, count_cons, count_nil] at he ⊢
    omega
  · simp only [batch, count_append, count_nil] at he ⊢
    omega

theorem Conserved.step (h : s.Conserved) (move : Move δ) : (s.step move).Conserved := by
  have hphase : ∀ phase : Phase δ, phase.batch = s.phase.batch → Conserved { s with phase } := by
    intro phase hbatch e
    exact hbatch ▸ h e
  cases move with
  | record event =>
    dsimp only [ExecutionRecorder.step]
    split
    · exact h
    · exact conserved_record h event
  | start connected =>
    dsimp only [ExecutionRecorder.step]
    split
    · next hcreated =>
      split
      · exact hphase _ (by rw [hcreated]; rfl)
      · exact h
    · exact h
  | wake =>
    dsimp only [ExecutionRecorder.step]
    split
    · next hsleeping => exact conserved_drain h (by rw [hsleeping]; rfl) rfl fun _ _ => rfl
    · exact h
  | publishOk =>
    dsimp only [ExecutionRecorder.step]
    split
    · next hbusy => exact conserved_next h (by rw [hbusy]; rfl) (moved_publish s _) rfl fun _ _ => rfl
    · next hbusy => exact conserved_next h (by rw [hbusy]; rfl) (moved_publish s _) rfl fun _ _ => rfl
    · exact h
  | publishFail =>
    dsimp only [ExecutionRecorder.step]
    split
    · next hbusy => exact conserved_next h (by rw [hbusy]; rfl) (moved_requeue s _) rfl fun _ _ => rfl
    · next hbusy => exact conserved_next h (by rw [hbusy]; rfl) (moved_requeue s _) rfl fun _ _ => rfl
    · exact h
  | stop sent =>
    dsimp only [ExecutionRecorder.step]
    split
    · next hcreated => exact hphase _ (by rw [hcreated]; rfl)
    · next hsleeping => exact hphase _ (by rw [hsleeping]; rfl)
    · next hbusy => exact conserved_cutOff h sent (by rw [hbusy]; rfl)
    · exact h
  | resume =>
    dsimp only [ExecutionRecorder.step]
    split
    · next hcancelling => exact conserved_drain h (by rw [hcancelling]; rfl) rfl fun _ _ => rfl
    · exact h

theorem conserved_run (sessionId : String) (moves : List (Move δ)) : (Runs.run step (new sessionId) moves).Conserved :=
  Runs.run_always (fun _ move h => h.step move) (fun _ => rfl) moves

/-- Nothing is published twice, and nothing else is lost. -/
theorem recorded_perm (sessionId : String) (moves : List (Move δ)) :
    let s := Runs.run step (new sessionId) moves
    (Runs.collect step taken (new sessionId) moves).Perm
      (s.published ++ Runs.collect step losses (new sessionId) moves ++ s.phase.batch ++ s.queue) := by
  have hrecorded := Runs.run_collect recorded_step (new sessionId) moves
  have hlost := Runs.run_collect lost_step (new sessionId) moves
  rw [show (new sessionId).recorded = [] from rfl, nil_append] at hrecorded
  rw [show (new sessionId).lost = [] from rfl, nil_append] at hlost
  rw [← hrecorded, ← hlost]
  refine perm_iff_count.mpr fun event => ?_
  simp only [count_append]
  exact conserved_run sessionId moves event

end Conservation

/-! ## What is not published -/

def Spoiled (s : ExecutionRecorder δ) : Prop := s.lost ≠ [] ∨ s.phase.last = true ∧ s.queue ≠ []

/-- No queue is full. The recorder is started before it is stopped, and at that moment nothing but a last publish that
goes through is under way. The events that are left fit into a batch, and nothing is recorded while it is published. -/
def Clean (s : ExecutionRecorder δ) : Move δ → Prop
  | .record event =>
    event.sessionId = s.sessionId → s.phase ≠ .stopped → s.queue.length < queueMaxSize ∧ s.phase.last = false
  | .publishFail => s.phase.batch ≠ [] → s.queue.length < queueMaxSize ∧ s.phase.last = false
  | .stop sent =>
    (s.phase = .created → s.queue = []) ∧
    (s.phase.batch ≠ [] → s.phase.last = false → sent = true ∧ s.phase.batch.length = 1)
  | .resume => s.phase = .cancelling → s.queue.length ≤ flushBatchSize
  | .start _ | .wake | .publishOk => True

instance [DecidableEq δ] (s : ExecutionRecorder δ) : (move : Move δ) → Decidable (s.Clean move)
  | .record _ => inferInstanceAs (Decidable (_ → _ → _))
  | .publishFail => inferInstanceAs (Decidable (_ → _))
  | .stop _ => inferInstanceAs (Decidable (_ ∧ _))
  | .resume => inferInstanceAs (Decidable (_ → _))
  | .start _ | .wake | .publishOk => inferInstanceAs (Decidable True)

theorem not_spoiled_iff {s : ExecutionRecorder δ} :
    ¬ s.Spoiled ↔ s.lost = [] ∧ (s.phase.last = true → s.queue = []) := by
  simp only [Spoiled, not_or, not_and, not_not]

section Steps

variable {s : ExecutionRecorder δ}

theorem spoiled_requeue (s : ExecutionRecorder δ) (event : Event δ) :
    (s.requeue event).lost ≠ [] ∨ (s.requeue event).queue ≠ [] := by
  unfold requeue
  split
  · exact .inr (by simp)
  · exact .inl (by simp)

theorem spoiled_record {event : Event δ} (hsession : event.sessionId = s.sessionId) :
    (s.record event).Spoiled ↔ s.Spoiled ∨ queueMaxSize ≤ s.queue.length ∨ s.phase.last = true := by
  unfold record
  rw [if_neg (not_not.mpr hsession)]
  split
  · next hroom =>
    simp only [Spoiled, Nat.not_le.mpr hroom]
    simp
    tauto
  · next hfull =>
    have hqueue : s.queue ≠ [] := by
      intro hempty
      simp [hempty, queueMaxSize] at hfull
    simp [Spoiled, Nat.not_lt.mp hfull, hqueue]

section

variable (h : ¬ s.Spoiled)

include h

theorem clean_record (event : Event δ) : s.Clean (.record event) ↔ ¬ (s.step (.record event)).Spoiled := by
  by_cases hstopped : s.phase = .stopped
  · simp [Clean, step, hstopped, h]
  · have hstep : s.step (.record event) = s.record event := by
      dsimp only [step]
      split
      · next hphase => exact absurd hphase hstopped
      · rfl
    rw [hstep]
    by_cases hsession : event.sessionId = s.sessionId
    · rw [spoiled_record hsession]
      simp [Clean, h, hstopped, hsession]
    · simp [Clean, record, hsession, h]

theorem clean_publishFail : s.Clean .publishFail ↔ ¬ (s.step .publishFail).Spoiled := by
  obtain ⟨hlost, -⟩ := not_spoiled_iff.mp h
  cases hphase : s.phase with
  | publishing event rest =>
    simp only [Clean, step, hphase, not_spoiled_iff, lost_next, queue_next, last_next_sleeping]
    unfold requeue
    split
    · next hroom => simp [hroom, hlost, last]
    · next hfull => simp [hfull, batch]
  | draining event rest =>
    have hspoiled := s.spoiled_requeue event
    simp only [Clean, step, hphase, not_spoiled_iff, lost_next, queue_next, last_next_stopped]
    simp only [batch, last]
    tauto
  | _ => simp [Clean, step, hphase, h, batch]

theorem clean_stop (sent : Bool) : s.Clean (.stop sent) ↔ ¬ (s.step (.stop sent)).Spoiled := by
  obtain ⟨hlost, -⟩ := not_spoiled_iff.mp h
  cases hphase : s.phase with
  | created => simp [Clean, step, hphase, not_spoiled_iff, hlost, batch, last]
  | sleeping => simp [Clean, step, hphase, not_spoiled_iff, hlost, batch, last]
  | publishing event rest =>
    cases sent <;> simp [Clean, step, hphase, not_spoiled_iff, cutOff, hlost, batch, last]
  | _ => simp [Clean, step, hphase, h, batch, last]

theorem clean_resume : s.Clean .resume ↔ ¬ (s.step .resume).Spoiled := by
  obtain ⟨hlost, -⟩ := not_spoiled_iff.mp h
  cases hphase : s.phase with
  | cancelling => simp [Clean, step, hphase, not_spoiled_iff, hlost]
  | _ => simp [Clean, step, hphase, h]

theorem clean_iff (move : Move δ) : s.Clean move ↔ ¬ (s.step move).Spoiled := by
  obtain ⟨hlost, hqueue⟩ := not_spoiled_iff.mp h
  cases move with
  | record event => exact clean_record h event
  | publishFail => exact clean_publishFail h
  | stop sent => exact clean_stop h sent
  | resume => exact clean_resume h
  | start connected =>
    refine iff_of_true trivial ?_
    dsimp only [step]
    split
    · split
      · exact not_spoiled_iff.mpr ⟨hlost, (nomatch ·)⟩
      · exact h
    · exact h
  | wake =>
    refine iff_of_true trivial ?_
    dsimp only [step]
    split
    · rw [not_spoiled_iff, last_drain_sleeping, lost_drain]
      exact ⟨hlost, (nomatch ·)⟩
    · exact h
  | publishOk =>
    refine iff_of_true trivial ?_
    dsimp only [step]
    split
    · rw [not_spoiled_iff, last_next_sleeping, lost_next]
      exact ⟨hlost, (nomatch ·)⟩
    · next hphase =>
      rw [not_spoiled_iff, last_next_stopped, lost_next, queue_next]
      exact ⟨hlost, fun _ => hqueue (by rw [hphase]; rfl)⟩
    · exact h

end

theorem queue_step (hlast : s.phase.last = true) (hqueue : s.queue ≠ []) (move : Move δ) :
    (s.step move).phase.last = true ∧ (s.step move).queue ≠ [] := by
  cases hphase : s.phase with
  | stopped =>
    have hstep : s.step move = s := by cases move <;> simp [step, hphase]
    rw [hstep]
    exact ⟨hlast, hqueue⟩
  | draining event rest =>
    cases move with
    | record event =>
      simp only [step, hphase]
      unfold record
      split
      · exact ⟨hlast, hqueue⟩
      · split <;> exact ⟨hlast, by simp⟩
    | publishOk =>
      simp only [step, hphase, last_next_stopped, queue_next, true_and]
      exact hqueue
    | publishFail =>
      simp only [step, hphase, last_next_stopped, queue_next, true_and]
      unfold requeue
      split
      · simp
      · exact hqueue
    | _ => simp [step, hphase, last, hqueue]
  | _ => rw [hphase] at hlast; cases hlast

theorem Spoiled.step (h : s.Spoiled) (move : Move δ) : (s.step move).Spoiled := by
  rcases h with hlost | ⟨hlast, hqueue⟩
  · rw [Spoiled, lost_step]
    exact .inl fun hempty => hlost (append_eq_nil_iff.mp hempty).1
  · exact .inr (queue_step hlast hqueue move)

end Steps

/-! ## After `stop` -/

variable [DecidableEq δ]

def Delivered (s : ExecutionRecorder δ) : Prop :=
  ∀ event ∈ s.recorded, s.recorded.count event ≤ s.published.count event

instance (s : ExecutionRecorder δ) : Decidable s.Delivered := inferInstanceAs (Decidable (∀ _ ∈ _, _))

theorem delivered_iff {s : ExecutionRecorder δ} (h : s.Conserved) (hstopped : s.phase = .stopped) :
    s.Delivered ↔ ¬ s.Spoiled := by
  have hcount : ∀ event, s.recorded.count event = s.published.count event + s.lost.count event + s.queue.count event := by
    intro event
    have := h event
    simpa only [hstopped, batch, count_nil, Nat.add_zero] using this
  rw [not_spoiled_iff, hstopped]
  constructor
  · intro hdelivered
    have hnone : ∀ event, s.lost.count event = 0 ∧ s.queue.count event = 0 := by
      intro event
      have := hcount event
      by_cases hmem : event ∈ s.recorded
      · have := hdelivered event hmem
        omega
      · rw [count_eq_zero.mpr hmem] at this
        omega
    exact ⟨eq_nil_iff_forall_not_mem.mpr fun event => count_eq_zero.mp (hnone event).1,
      fun _ => eq_nil_iff_forall_not_mem.mpr fun event => count_eq_zero.mp (hnone event).2⟩
  · rintro ⟨hlost, hqueue⟩ event -
    have := hcount event
    rw [hlost, hqueue rfl, count_nil] at this
    omega

end ExecutionRecorder

open ExecutionRecorder

/-- When `stop` returns, every recorded event is on the stream exactly when the run was clean. -/
theorem stop_delivers_iff [DecidableEq δ] (sessionId : String) (moves : List (Move δ))
    (hstopped : (Runs.run step (new sessionId) moves).phase = .stopped) :
    (Runs.run step (new sessionId) moves).Delivered ↔ Runs.Meets step Clean (new sessionId) moves :=
  (delivered_iff (conserved_run sessionId moves) hstopped).trans
    (@Runs.meets_iff_not_spoiled _ _ step Clean _ _ Spoiled (fun _ move h => h.step move)
      (fun _ move h => clean_iff h move) (not_spoiled_iff.mpr ⟨rfl, fun _ => rfl⟩)).symm

/-! ## A batch that is cut off and a queue that is too long -/

def eventOf (n : Nat) : Event Nat := ⟨"s", n⟩

/-- The second event is still in the queue when the recorder is stopped. -/
theorem stop_delivers_queued :
    (Runs.run step (new "s") [.start true, .record (eventOf 0), .wake, .publishOk, .record (eventOf 1), .stop false,
      .resume, .publishOk]).Delivered :=
  (stop_delivers_iff "s" _ rfl).mpr (by decide)

def cutOffMoves : List (Move Nat) := [.start true, .record (eventOf 0), .record (eventOf 1), .wake, .stop true, .resume]

def tooManyMoves : List (Move Nat) :=
  .start true :: (List.range 51).map (fun n => .record (eventOf n)) ++ [.stop false, .resume] ++
    List.replicate 50 .publishOk

theorem stop_not_delivered :
    ((Runs.run step (new "s") cutOffMoves).phase = .stopped ∧ ¬ (Runs.run step (new "s") cutOffMoves).Delivered) ∧
    (Runs.run step (new "s") tooManyMoves).phase = .stopped ∧ ¬ (Runs.run step (new "s") tooManyMoves).Delivered := by
  decide +kernel

end AteStudio.Recorder
