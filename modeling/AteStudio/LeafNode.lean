import AteStudio.Lib.Runs

/-!
# Messages from a leaf node (`scheduler/leaf_node_runner.py`)

The client takes a message when `publish` is called, and raises after a suspension when it does not take it. A message
is known by the number of its `publish_upstream` call.
-/

namespace AteStudio.LeafNode

open Runs List

structure Sync where
  pending : List ℕ
  failed : List ℕ := []
deriving DecidableEq

structure Runner where
  wanConnected : Bool
  buffer : List ℕ := []
  syncing : Option Sync := none
  -- The calls of `publish_upstream` that wait for a publish that is going to raise.
  raising : List ℕ := []
  -- The number of the next call, and what the remote NATS has got.
  next : ℕ := 0
  remote : List ℕ := []
deriving DecidableEq

/-- `ok` and `reachable` are the answers of the client. -/
inductive Move where
  | publishUpstream (ok : Bool)
  | publishRaises (message : ℕ)
  | onRemoteDisconnected
  | onRemoteReconnect
  | checkWan (reachable : Bool)
  | syncBacklog
  | replay (ok : Bool)

variable (s : Runner)

def syncBacklog : Runner :=
  if s.syncing.isSome ∨ s.buffer = [] ∨ s.wanConnected = false then s
  else { s with syncing := some { pending := s.buffer }, buffer := [] }

def step : Move → Runner
  | .publishUpstream ok =>
    if s.wanConnected then
      if ok then { s with next := s.next + 1, remote := s.remote ++ [s.next] }
      else { s with next := s.next + 1, raising := s.raising ++ [s.next] }
    else { s with next := s.next + 1, buffer := s.buffer ++ [s.next] }
  | .publishRaises message =>
    if message ∈ s.raising then
      { s with raising := s.raising.erase message, wanConnected := false, buffer := s.buffer ++ [message] }
    else s
  | .onRemoteDisconnected => { s with wanConnected := false }
  | .onRemoteReconnect => syncBacklog { s with wanConnected := true }
  | .checkWan reachable => { s with wanConnected := reachable }
  | .syncBacklog => syncBacklog s
  | .replay ok =>
    match s.syncing with
    | none => s
    | some ⟨message :: pending, failed⟩ =>
      if ok then { s with remote := s.remote ++ [message], syncing := some ⟨pending, failed⟩ }
      else { s with syncing := some ⟨pending, failed ++ [message]⟩ }
    | some ⟨[], failed⟩ =>
      { s with syncing := none, buffer := failed ++ s.buffer, wanConnected := s.wanConnected && failed = [] }

/-- What has been given to the runner and has not reached the remote NATS. -/
def Runner.waiting : List ℕ :=
  s.raising ++ s.buffer ++ (s.syncing.elim [] fun sync => sync.pending ++ sync.failed)

/-- What a running sync has taken from the buffer. -/
def Runner.held : List ℕ := s.syncing.elim [] fun sync => sync.pending ++ sync.failed

/-- Messages arrive in order, and no message stays in the buffer while the WAN counts as connected and no sync runs. -/
structure InOrder (s : Runner) : Prop where
  remote : s.remote.Pairwise (· < ·)
  tended : s.wanConnected = true → s.syncing = none → s.buffer = []

/-- A message is published only when no earlier one waits, and the WAN is not set connected, by a check or a sync, over
a buffer that nobody empties. -/
def Careful : Move → Prop
  | .publishUpstream ok => s.wanConnected = true → ok = true → s.waiting = []
  | .checkWan reachable => reachable = true → s.syncing = none → s.buffer = []
  | .replay ok =>
    match s.syncing with
    | none => True
    | some ⟨message :: pending, failed⟩ =>
      ok = true → ∀ m ∈ s.raising ++ s.buffer ++ (pending ++ failed), message < m
    | some ⟨[], failed⟩ => s.wanConnected = true → failed = [] → s.buffer = []
  | _ => True

/-- What waits came after what has arrived. -/
structure Inv (s : Runner) : Prop extends InOrder s where
  waits : ∀ r ∈ s.remote, ∀ m ∈ s.waiting, r < m
  known : ∀ m ∈ s.remote ++ s.waiting, m < s.next

variable {s} {s' : Runner}

/-- What a move brings to the remote NATS, and how many calls it makes. -/
def delivered (s : Runner) : Move → Option ℕ
  | .publishUpstream ok => if s.wanConnected && ok then some s.next else none
  | .replay ok => if ok then s.syncing.bind (·.pending.head?) else none
  | _ => none

def calls : Move → ℕ
  | .publishUpstream _ => 1
  | _ => 0

theorem waiting_syncBacklog (s : Runner) : (syncBacklog s).waiting = s.waiting := by
  unfold syncBacklog
  split
  · rfl
  · next hnot =>
    have hnone : s.syncing = none := by simp_all
    simp [Runner.waiting, hnone]

theorem remote_step (s : Runner) (m : Move) : (step s m).remote = s.remote ++ (delivered s m).toList := by
  cases m <;> simp only [step, delivered, syncBacklog] <;> grind

theorem next_step (s : Runner) (m : Move) : (step s m).next = s.next + calls m := by
  cases m <;> simp only [step, calls, syncBacklog] <;> grind

/-- What a move delivers and what waits after it is what waited before it and the new calls. -/
theorem waiting_step (s : Runner) (m : Move) :
    (delivered s m).toList ++ (step s m).waiting ~ s.waiting ++ (range (calls m)).map (s.next + ·) := by
  refine perm_iff_count.mpr fun a => ?_
  cases m with
  | publishUpstream ok =>
    cases ok <;> cases hwan : s.wanConnected <;>
      simp [step, delivered, calls, hwan, Runner.waiting, count_cons] <;> omega
  | publishRaises message =>
    dsimp only [step, delivered, calls]
    split
    · next hmem =>
      have hcount := (perm_cons_erase hmem).count_eq a
      simp only [Runner.waiting, count_cons, count_append, count_nil, range_zero, map_nil, Option.toList_none] at hcount ⊢
      omega
    · simp
  | onRemoteReconnect =>
    rw [step, waiting_syncBacklog]
    simp [delivered, calls, Runner.waiting]
  | syncBacklog => simp [step, delivered, calls, waiting_syncBacklog]
  | replay ok =>
    rcases hsync : s.syncing with _ | ⟨_ | ⟨message, pending⟩, failed⟩
    · simp [step, delivered, calls, hsync]
    · simp [step, delivered, calls, hsync, Runner.waiting]
      omega
    · cases ok <;> simp [step, delivered, calls, hsync, Runner.waiting, count_cons] <;> omega
  | _ => simp [step, delivered, calls, Runner.waiting]

theorem first_of_careful {m : Move} (h : Careful s m) {message later : ℕ} (hmessage : message ∈ delivered s m)
    (hlater : later ∈ (step s m).waiting) : message < later := by
  cases m with
  | publishUpstream ok =>
    obtain ⟨hsent, -⟩ := Option.mem_ite_none_right.mp hmessage
    rw [Bool.and_eq_true] at hsent
    have hnone : s.waiting = [] := h hsent.1 hsent.2
    rw [step, if_pos hsent.1, if_pos hsent.2] at hlater
    exact absurd (show later ∈ s.waiting from hlater) (hnone ▸ not_mem_nil)
  | replay ok =>
    obtain ⟨rfl, hhead⟩ := Option.mem_ite_none_right.mp hmessage
    rcases hsync : s.syncing with _ | ⟨_ | ⟨first, pending⟩, failed⟩ <;> simp [hsync] at hhead
    simp only [Careful, step, hsync] at h hlater
    exact hhead ▸ h trivial later hlater
  | _ => nomatch hmessage

theorem tended_syncBacklog (hwan : (syncBacklog s).wanConnected = true) (hsync : (syncBacklog s).syncing = none) :
    (syncBacklog s).buffer = [] := by
  unfold syncBacklog at hwan hsync ⊢
  split at hwan <;> simp_all

theorem tended_step (h : InOrder s) {m : Move} (hcareful : Careful s m) (hwan : (step s m).wanConnected = true)
    (hsync : (step s m).syncing = none) : (step s m).buffer = [] := by
  have htended := h.tended
  cases m with
  | onRemoteDisconnected => nomatch hwan
  | onRemoteReconnect => exact tended_syncBacklog hwan hsync
  | checkWan reachable => exact hcareful hwan hsync
  | syncBacklog => exact tended_syncBacklog hwan hsync
  | _ =>
    dsimp only [step, Careful] at hwan hsync hcareful ⊢
    grind

/-- Every call made is known, by its number, to have arrived or to wait. -/
def Complete (s : Runner) : Prop := range s.next ~ s.remote ++ s.waiting

theorem complete_step (h : Complete s) (m : Move) : Complete (step s m) := by
  rw [Complete, next_step, range_add, remote_step, append_assoc]
  calc range s.next ++ (range (calls m)).map (s.next + ·)
    _ ~ s.remote ++ s.waiting ++ (range (calls m)).map (s.next + ·) := h.append_right _
    _ = s.remote ++ (s.waiting ++ (range (calls m)).map (s.next + ·)) := append_assoc ..
    _ ~ s.remote ++ ((delivered s m).toList ++ (step s m).waiting) := (waiting_step s m).symm.append_left _

theorem inv_step (h : Inv s) (hcomplete : Complete s) {m : Move} (hcareful : Careful s m) : Inv (step s m) := by
  have hafter (r : ℕ) (hr : r ∈ s.remote) (x : ℕ) (hx : x ∈ (delivered s m).toList ++ (step s m).waiting) : r < x := by
    -- What is delivered or waits afterwards waited before, or comes from a new call.
    rcases mem_append.mp ((waiting_step s m).mem_iff.mp hx) with hold | hnew
    · exact h.waits r hr x hold
    · obtain ⟨k, -, rfl⟩ := mem_map.mp hnew
      exact Nat.lt_add_right k (h.known r (mem_append_left _ hr))
  refine ⟨⟨?_, tended_step h.toInOrder hcareful⟩, fun r hr x hx => ?_, fun x hx => ?_⟩
  · rw [remote_step, pairwise_append]
    refine ⟨h.remote, ?_, fun r hr x hx => hafter r hr x (mem_append_left _ hx)⟩
    cases delivered s m <;> simp
  · rw [remote_step, mem_append, Option.mem_toList] at hr
    rcases hr with hr | hr
    · exact hafter r hr x (mem_append_right _ hx)
    · exact first_of_careful hcareful hr hx
  · exact mem_range.mp ((complete_step hcomplete m).mem_iff.mpr hx)

theorem inOrder_of_careful {connected : Bool} {moves : List Move}
    (h : Meets step Careful { wanConnected := connected } moves) :
    InOrder (run step { wanConnected := connected } moves) := by
  have hstart : Inv { wanConnected := connected } :=
    ⟨⟨.nil, fun _ _ => rfl⟩, fun _ h => (nomatch h), fun _ h => (nomatch h)⟩
  have hstep (s : Runner) (m : Move) (h : Inv s ∧ Complete s) (hcareful : Careful s m) :
      Inv (step s m) ∧ Complete (step s m) :=
    ⟨inv_step h.1 h.2 hcareful, complete_step h.2 m⟩
  exact (run_invariant hstep ⟨hstart, .refl _⟩ h).1.toInOrder

def replayedMoves : List Move :=
  [.onRemoteDisconnected, .publishUpstream true, .publishUpstream true, .onRemoteReconnect, .replay true, .replay true,
    .replay true]

theorem inOrder_replayedMoves : InOrder (run step { wanConnected := true } replayedMoves) :=
  inOrder_of_careful (by simp [Meets, replayedMoves, Careful, step, syncBacklog])

/-- The third message overtakes the second, and a check leaves the buffer as it is. -/
theorem not_inOrder_overtaken :
    (run step { wanConnected := true } [.onRemoteDisconnected, .publishUpstream true, .publishUpstream true,
        .onRemoteReconnect, .replay true, .publishUpstream true, .replay true]).remote = [0, 2, 1] ∧
      ¬ InOrder (run step { wanConnected := true } [.onRemoteDisconnected, .publishUpstream true,
        .publishUpstream true, .onRemoteReconnect, .replay true, .publishUpstream true, .replay true]) ∧
      ¬ InOrder (run step { wanConnected := true } [.onRemoteDisconnected, .publishUpstream true, .checkWan true]) := by
  refine ⟨by decide, fun h => ?_, fun h => ?_⟩
  · exact absurd h.remote (by decide)
  · exact absurd (h.tended (by decide) (by decide)) (by decide)

/-- A call that waits may also end with its message taken. -/
inductive Event where
  | move (m : Move)
  | publishReturns (message : ℕ)

def take (s : Runner) : Event → Runner
  | .move m => step s m
  | .publishReturns message =>
    if message ∈ s.raising then { s with raising := s.raising.erase message, remote := s.remote ++ [message] } else s

theorem complete_take (s : Runner) (event : Event) (h : Complete s) : Complete (take s event) := by
  cases event with
  | move m => exact complete_step h m
  | publishReturns message =>
    dsimp only [take]
    split
    · next hmem =>
      refine h.trans ?_
      rw [append_assoc]
      exact (((perm_cons_erase hmem).append_right _).append_right _).append_left _
    · exact h

/-- The calls of `publish_upstream` in a run, told from its events: those made, and those that are not finished. -/
structure Calls where
  made : ℕ := 0
  unfinished : List ℕ := []

/-- A call waits for the client when the WAN counts as connected and the client does not take the message at once. -/
def Calls.after (connected : Bool) (c : Calls) : Event → Calls
  | .move (.publishUpstream ok) =>
    { made := c.made + 1, unfinished := if connected && !ok then c.unfinished ++ [c.made] else c.unfinished }
  | .move (.publishRaises message) => { c with unfinished := c.unfinished.erase message }
  | .publishReturns message => { c with unfinished := c.unfinished.erase message }
  | _ => c

def observe (r : Runner × Calls) (event : Event) : Runner × Calls :=
  (take r.1 event, r.2.after r.1.wanConnected event)

/-- The runner knows its calls, and each of them has arrived or waits. -/
structure Accounted (r : Runner × Calls) : Prop where
  made : r.1.next = r.2.made
  unfinished : r.1.raising = r.2.unfinished
  complete : Complete r.1

theorem accounted_observe (r : Runner × Calls) (event : Event) (h : Accounted r) : Accounted (observe r event) := by
  obtain ⟨s, c⟩ := r
  obtain ⟨hmade, hunfinished, hcomplete⟩ := h
  dsimp only at hmade hunfinished
  have hcalls : (take s event).next = (c.after s.wanConnected event).made ∧
      (take s event).raising = (c.after s.wanConnected event).unfinished := by
    cases event with
    | move m => cases m <;> simp only [take, step, syncBacklog, Calls.after] <;> grind [erase_of_not_mem]
    | publishReturns message =>
      simp only [take, Calls.after]
      grind [erase_of_not_mem]
  exact ⟨hcalls.1, hcalls.2, complete_take s event hcomplete⟩

/-- No message is lost or delivered twice: the messages of the finished calls are those the remote NATS has got, those
in the buffer and those a sync holds. -/
theorem messages_conserved (connected : Bool) (events : List Event) :
    let (s, calls) := run observe (({ wanConnected := connected } : Runner), ({} : Calls)) events
    Multiset.range calls.made - calls.unfinished = (s.remote + s.buffer + s.held : Multiset ℕ) := by
  have hstart : Accounted ({ wanConnected := connected }, {}) := ⟨rfl, rfl, .refl _⟩
  obtain ⟨hmade, hunfinished, hcomplete⟩ := run_always accounted_observe hstart events
  generalize run observe _ events = r at hmade hunfinished hcomplete ⊢
  obtain ⟨s, calls⟩ := r
  dsimp only at hmade hunfinished hcomplete ⊢
  have hall : Multiset.range s.next = s.raising + (s.remote + s.buffer + s.held : Multiset ℕ) := by
    rw [add_assoc, add_left_comm, ← add_assoc (s.raising : Multiset ℕ)]
    exact Multiset.coe_eq_coe.mpr hcomplete
  rw [← hmade, ← hunfinished, hall, add_tsub_cancel_left]

end AteStudio.LeafNode
