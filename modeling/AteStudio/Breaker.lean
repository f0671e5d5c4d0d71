import AteStudio.Lib.Runs

/-!
# The circuit breaker (`common/circuit_breaker.py`)

The lock is held by `__aenter__` and `__aexit__`, not between them.
-/

namespace AteStudio.Breaker

open Runs

inductive CircuitState where
  | closed
  | open
  | halfOpen
deriving DecidableEq

structure Config where
  failureThreshold : ℕ := 5
  timeout : ℚ := 30
  threshold_pos : 1 ≤ failureThreshold := by decide
  timeout_pos : 0 < timeout := by decide

structure CircuitBreaker where
  state : CircuitState := .closed
  failureCount : ℕ := 0
  lastFailureTime : ℚ := 0
  -- Not in the source: the number of the next call, the calls that are inside, and those admitted since the last
  -- transition to `HALF_OPEN`.
  next : ℕ := 0
  inside : List ℕ := []
  probes : List ℕ := []
deriving DecidableEq

inductive Move where
  | enter (now : ℚ)
  | exit (call : ℕ) (success : Bool) (now : ℚ)
deriving DecidableEq

variable (cfg : Config) (now : ℚ) (b : CircuitBreaker)

def onSuccess : CircuitBreaker :=
  { b with failureCount := 0, state := if b.state = .halfOpen then .closed else b.state }

def onFailure : CircuitBreaker :=
  { b with
    failureCount := b.failureCount + 1
    lastFailureTime := now
    state :=
      match b.state with
      | .closed => if cfg.failureThreshold ≤ b.failureCount + 1 then .open else .closed
      | .halfOpen => .open
      | .open => .open }

/-- `_before_call`. Nothing when it raises `CircuitBreakerOpenError`. -/
def beforeCall : Option CircuitBreaker :=
  if b.state = .open then
    if cfg.timeout ≤ now - b.lastFailureTime then some { b with state := .halfOpen, probes := [] } else none
  else some b

def admitted : CircuitBreaker :=
  { b with
    inside := b.next :: b.inside
    probes := if b.state = .halfOpen then b.next :: b.probes else b.probes }

def step : Move → CircuitBreaker
  | .enter now => { (beforeCall cfg now b).elim b admitted with next := b.next + 1 }
  | .exit call success now =>
    if call ∈ b.inside then
      let b := { b with inside := b.inside.erase call }
      if success then onSuccess b else onFailure cfg now b
    else b

/-! ## One probe -/

/-- At most one call was admitted since the breaker is half open, and only its success closes it. -/
structure OneProbe (cfg : Config) (b : CircuitBreaker) (m : Move) : Prop where
  single : (step cfg b m).state = .halfOpen → (step cfg b m).probes.length ≤ 1
  closes : b.state = .halfOpen → (step cfg b m).state = .closed → ∃ call now, m = .exit call true now ∧ b.probes = [call]

/-- While half open, no call enters and no earlier one leaves with a success. -/
def Undisturbed (m : Move) : Prop :=
  b.state = .halfOpen →
    match m with
    | .enter _ => False
    | .exit call success _ => success = true → call ∈ b.inside → call ∈ b.probes

variable {cfg b} {m : Move}

theorem step_halfOpen (h : (step cfg b m).state = .halfOpen) :
    (step cfg b m).probes = [b.next] ∨
      b.state = .halfOpen ∧
        ((∃ now, m = .enter now) ∧ (step cfg b m).probes = b.next :: b.probes ∨ (step cfg b m).probes = b.probes) := by
  cases m with
  | enter now =>
    simp only [step, beforeCall] at h ⊢
    split at h
    · split at h
      · simp_all [admitted]
      · simp_all
    · simp_all [admitted]
  | exit call success now =>
    simp only [step] at h ⊢
    split at h
    · cases success
      · cases hstate : b.state <;> simp [onFailure, hstate] at h
        split at h <;> simp at h
      · cases hstate : b.state <;> simp [onSuccess, hstate] at h
    · simp_all

def Probed (b : CircuitBreaker) : Prop := b.state = .halfOpen → b.probes ≠ []

theorem probed_step (h : Probed b) (m : Move) : Probed (step cfg b m) := by
  intro hstate
  rcases step_halfOpen hstate with hnew | ⟨hbefore, ⟨_, hnew⟩ | hsame⟩
  · rw [hnew]
    exact List.cons_ne_nil _ _
  · rw [hnew]
    exact List.cons_ne_nil _ _
  · rw [hsame]
    exact h hbefore

theorem enter_halfOpen (hstate : b.state = .halfOpen) (now : ℚ) :
    (step cfg b (.enter now)).state = .halfOpen ∧ (step cfg b (.enter now)).probes = b.next :: b.probes := by
  simp [step, beforeCall, admitted, hstate]

theorem exit_halfOpen (hstate : b.state = .halfOpen) {call : ℕ} (hcall : call ∈ b.inside) (now : ℚ) :
    (step cfg b (.exit call true now)).state = .closed := by
  simp [step, onSuccess, hstate, hcall]

theorem undisturbed_of_oneProbe (hprobed : Probed b) (h : OneProbe cfg b m) : Undisturbed b m := by
  intro hstate
  cases m with
  | enter now =>
    obtain ⟨hhalf, hprobes⟩ := enter_halfOpen hstate now
    have hlength := h.single hhalf
    rw [hprobes, List.length_cons] at hlength
    exact hprobed hstate (List.length_eq_zero_iff.mp (by omega))
  | exit call success now =>
    rintro rfl hcall
    obtain ⟨_, _, heq, hprobes⟩ := h.closes hstate (exit_halfOpen hstate hcall now)
    cases heq
    rw [hprobes]
    exact List.mem_singleton_self call

def Single (b : CircuitBreaker) : Prop := b.state = .halfOpen → ∃ call, b.probes = [call]

theorem single_step (h : Single b) (hgood : Undisturbed b m) : Single (step cfg b m) := by
  intro hstate
  rcases step_halfOpen hstate with hnew | ⟨hbefore, ⟨⟨now, rfl⟩, _⟩ | hsame⟩
  · exact ⟨b.next, hnew⟩
  · exact (hgood hbefore).elim
  · rw [hsame]
    exact h hbefore

theorem oneProbe_of_undisturbed (hsingle : Single b) (h : Undisturbed b m) : OneProbe cfg b m := by
  refine ⟨fun hstate => ?_, fun hstate hclosed => ?_⟩
  · obtain ⟨call, hprobes⟩ := single_step hsingle h hstate
    rw [hprobes, List.length_singleton]
  · obtain ⟨probe, hprobes⟩ := hsingle hstate
    cases m with
    | enter now => exact (h hstate).elim
    | exit call success now =>
      have hcall : call ∈ b.inside := by
        by_contra hnot
        simp [step, hnot, hstate] at hclosed
      cases success
      · simp [step, hcall, onFailure, hstate] at hclosed
      · have hmem := h hstate rfl hcall
        rw [hprobes, List.mem_singleton] at hmem
        exact ⟨call, now, rfl, hmem ▸ hprobes⟩

theorem oneProbe_iff (cfg : Config) (moves : List Move) :
    Meets (step cfg) (OneProbe cfg) {} moves ↔ Meets (step cfg) Undisturbed {} moves := by
  have hclosed : CircuitState.closed ≠ .halfOpen := by decide
  have hprobed : Probed {} := fun h => absurd h hclosed
  have hsingle : Single {} := fun h => absurd h hclosed
  constructor
  · exact meets_of_invariant (fun _ m h _ => probed_step h m) (fun _ _ h => undisturbed_of_oneProbe h) hprobed
  · exact meets_of_invariant (fun _ _ h => single_step h) (fun _ _ h => oneProbe_of_undisturbed h) hsingle

/-- The second call succeeds after the first has opened the breaker and a third is the probe. -/
def lateSuccess : List Move := [.enter 0, .enter 0, .exit 0 false 0, .enter 30, .enter 30, .exit 1 true 31]

/-- Two calls are admitted half open, and the breaker is closed by a call of before. -/
theorem not_oneProbe_lateSuccess :
    (run (step ⟨1, 30, by decide, by decide⟩) {} (lateSuccess.take 5)).state = .halfOpen ∧
      (run (step ⟨1, 30, by decide, by decide⟩) {} (lateSuccess.take 5)).probes = [3, 2] ∧
      (run (step ⟨1, 30, by decide, by decide⟩) {} lateSuccess).state = .closed ∧
      ¬ Meets (step ⟨1, 30, by decide, by decide⟩) (OneProbe ⟨1, 30, by decide, by decide⟩) {} lateSuccess := by
  refine ⟨by decide +kernel, by decide +kernel, by decide +kernel, fun h => ?_⟩
  have hlength := h.2.2.2.2.1.single (by decide +kernel)
  exact absurd hlength (by decide +kernel)

end AteStudio.Breaker
