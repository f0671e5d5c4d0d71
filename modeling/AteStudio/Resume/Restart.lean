import AteStudio.Resume.Accounting

/-!
# After a restart

A message from the table has the text of its status in place of the member of the enum.
-/

namespace AteStudio.Resume

open List Runs

namespace ResumeManager

variable (cfg : Config)

def Connected (moves : List Move) : Prop := ∀ ok, Move.attempted ok ∈ moves → ok = true

def WorkedOff (s : ResumeManager) : Prop := s.live = []

def PublishedAs (s : ResumeManager) (number : Nat) : Prop :=
  ∃ r p, s.submitted[number]? = some r ∧ payload? cfg r = some p ∧ (number, p) ∈ s.published

/-- After a restart with a connected publisher, a message with a row is published as its result by the time its row is
gone or the loop has nothing left to do. -/
def SurvivesRestart (s : ResumeManager) : Prop :=
  ∀ row ∈ s.rows, row.owner ∉ s.published.map Prod.fst → ∀ moves, Connected moves →
    let s' := Runs.run (step cfg) (s.step cfg .restart) moves
    row.owner ∉ s'.rows.map Row.owner ∨ s'.WorkedOff → s'.PublishedAs cfg row.owner

/-! ## The loop on messages without a payload -/

variable {cfg} {s : ResumeManager}

def turns (cfg : Config) (pending : List PendingMessage) : Nat :=
  (pending.map fun m => (cfg.maxRetries - m.retryCount).toNat + 1).sum

def turn (cfg : Config) (m : PendingMessage) : List Move :=
  if (m.retryCount : Int) ≥ cfg.maxRetries then [.take, .attempted true, .removed]
  else [.take, .attempted true, .updated, .requeued]

def Waiting (s : ResumeManager) : Prop := s.phase = .idle ∧ s.mode = .running

theorem run_turn {m : PendingMessage} {rest : List PendingMessage} (hw : s.Waiting) (hp : s.pending = m :: rest)
    (hm : buildPayload? cfg m = none) : let s' := run (step cfg) s (turn cfg m)
    s'.Waiting ∧ s'.published = s.published ∧
      if (m.retryCount : Int) ≥ cfg.maxRetries then
        s'.pending = rest ∧ s'.rows = s.rows.filter (·.payload.stepId ≠ m.stepId)
      else s'.pending = rest ++ [{ m with retryCount := m.retryCount + 1 }] ∧ s'.rows = s.rows := by
  obtain ⟨hphase, hmode⟩ := hw
  have hm' : buildPayload? cfg { m with retryCount := m.retryCount + 1 } = none := hm
  by_cases hmax : (m.retryCount : Int) ≥ cfg.maxRetries
  · simp [turn, hmax, run, step, hphase, hmode, hp, hm, refuse, Waiting, removeMessage]
  · simp [turn, hmax, run, step, hphase, hmode, hp, hm, hm', refuse, Waiting, updateRetryCount]

theorem turn_connected (m : PendingMessage) : Connected (turn cfg m) := by
  unfold Connected turn
  split <;> simp

/-- None of the messages is published, and the rows of all are deleted. -/
structure WorksOff (cfg : Config) (s : ResumeManager) (moves : List Move) : Prop where
  connected : Connected moves
  waiting : (Runs.run (step cfg) s moves).Waiting
  pending : (Runs.run (step cfg) s moves).pending = []
  published : (Runs.run (step cfg) s moves).published = s.published
  rows : ∀ row ∈ (Runs.run (step cfg) s moves).rows, row ∈ s.rows ∧ ∀ m ∈ s.pending, row.payload.stepId ≠ m.stepId

theorem worksOff_nil (hw : s.Waiting) (hp : s.pending = []) : WorksOff cfg s [] where
  connected _ h := absurd h not_mem_nil
  waiting := hw
  pending := hp
  published := rfl
  rows _ hrow := ⟨hrow, fun _ hm => absurd (hp ▸ hm) not_mem_nil⟩

theorem WorksOff.turn {m : PendingMessage} {moves : List Move} (h : WorksOff cfg (run (step cfg) s (turn cfg m)) moves)
    (hpub : (run (step cfg) s (turn cfg m)).published = s.published)
    (hrows : ∀ row ∈ (run (step cfg) s (turn cfg m)).rows,
      (∀ m' ∈ (run (step cfg) s (turn cfg m)).pending, row.payload.stepId ≠ m'.stepId) →
        row ∈ s.rows ∧ ∀ m' ∈ s.pending, row.payload.stepId ≠ m'.stepId) :
    WorksOff cfg s (ResumeManager.turn cfg m ++ moves) := by
  have hrun : run (step cfg) s (ResumeManager.turn cfg m ++ moves) =
      run (step cfg) (run (step cfg) s (ResumeManager.turn cfg m)) moves := foldl_append
  refine ⟨fun ok hok => (mem_append.mp hok).elim (turn_connected m ok) (h.connected ok), ?_, ?_, ?_, ?_⟩ <;>
    rw [hrun]
  · exact h.waiting
  · exact h.pending
  · exact h.published.trans hpub
  · intro row hrow
    exact hrows row (h.rows row hrow).1 (h.rows row hrow).2

theorem exists_worksOff (n : Nat) (hn : turns cfg s.pending ≤ n) (hw : s.Waiting)
    (hp : ∀ m ∈ s.pending, buildPayload? cfg m = none) : ∃ moves, WorksOff cfg s moves := by
  induction n generalizing s with
  | zero =>
    cases hpending : s.pending with
    | nil => exact ⟨[], worksOff_nil hw hpending⟩
    | cons m rest => simp [hpending, turns] at hn
  | succ n ih =>
    cases hpending : s.pending with
    | nil => exact ⟨[], worksOff_nil hw hpending⟩
    | cons m rest =>
      rw [hpending] at hn hp
      obtain ⟨hm, hrest⟩ := forall_mem_cons.mp hp
      obtain ⟨hw', hpub, hturn⟩ := run_turn hw hpending hm
      split at hturn <;> obtain ⟨hp', hrows⟩ := hturn
      · obtain ⟨moves, h⟩ := @ih (run (step cfg) s (turn cfg m))
          (by rw [hp']; simp only [turns, map_cons, sum_cons] at hn ⊢; omega) hw' (by rw [hp']; exact hrest)
        refine ⟨_, h.turn hpub fun row hrow hne => ?_⟩
        rw [hrows, mem_filter, decide_eq_true_eq] at hrow
        rw [hp'] at hne
        rw [hpending]
        exact ⟨hrow.1, forall_mem_cons.mpr ⟨hrow.2, hne⟩⟩
      · obtain ⟨moves, h⟩ := @ih (run (step cfg) s (turn cfg m))
          (by
            rw [hp']
            simp only [turns, map_cons, sum_cons, map_append, map_nil, sum_append, sum_nil] at hn ⊢
            omega) hw'
          (by
            rw [hp']
            exact forall_mem_append.mpr ⟨hrest, forall_mem_singleton.mpr hm⟩)
        refine ⟨_, h.turn hpub fun row hrow hne => ?_⟩
        rw [hp', forall_mem_append, forall_mem_singleton] at hne
        rw [hpending]
        exact ⟨hrows ▸ hrow, forall_mem_cons.mpr ⟨hne.2, hne.1⟩⟩

theorem exists_restart_loses (cfg : Config) (s : ResumeManager) :
    ∃ moves, Connected moves ∧
      let s' := run (step cfg) (s.step cfg .restart) moves
      s'.WorkedOff ∧ s'.rows = [] ∧ s'.published = s.published := by
  obtain ⟨moves, h⟩ := @exists_worksOff cfg (s.step cfg .restart) _ le_rfl ⟨rfl, rfl⟩ fun m hm => by
      obtain ⟨row, _, rfl⟩ := mem_loadPendingMessages.mp hm
      exact buildPayload?_reload row
  refine ⟨moves, h.connected, ?_, ?_, h.published⟩
  · exact (live_of_idle h.waiting.1).trans h.pending
  · rw [eq_nil_iff_forall_not_mem]
    intro row hrow
    obtain ⟨hmem, hne⟩ := h.rows row hrow
    exact hne (reload row) (mem_loadPendingMessages.mpr ⟨row, hmem, rfl⟩) rfl

theorem not_survivesRestart {row : Row} (hrow : row ∈ s.rows) (hp : row.owner ∉ s.published.map Prod.fst) :
    ¬ s.SurvivesRestart cfg := by
  intro h
  obtain ⟨moves, hc, hoff, -, hpub⟩ := exists_restart_loses cfg s
  obtain ⟨r, p, -, -, hmem⟩ := h row hrow hp moves hc (.inr hoff)
  rw [hpub] at hmem
  exact hp (mem_map_of_mem hmem)

theorem survivesRestart_iff (cfg : Config) (moves : List Move) :
    (Runs.run (step cfg) new moves).SurvivesRestart cfg ↔
      ∀ row ∈ (Runs.run (step cfg) new moves).rows,
        row.owner ∈ (Runs.run (step cfg) new moves).published.map Prod.fst := by
  constructor
  · intro h row hrow
    by_contra hp
    exact not_survivesRestart hrow hp h
  · intro h row hrow hp
    exact absurd (h row hrow) hp

/-- The process dies before the first attempt. -/
theorem not_survivesRestart_one_result :
    ¬ (Runs.run (step defaultConfig) new [.submit (resultOf "a") 0]).SurvivesRestart defaultConfig :=
  not_survivesRestart List.mem_cons_self (by decide)

end ResumeManager

end AteStudio.Resume
