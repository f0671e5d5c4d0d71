import AteStudio.Lib.Runs
import AteStudio.Scheduler.State

/-!
# Barriers of UUTs (`scheduler/uut_sync.py`)

The calls of one barrier name. A move is one block under the lock of the manager or under the condition of a barrier.
-/

namespace AteStudio.Barrier

open Function Runs Finset

open AteStudio.Scheduler (UUTState)

structure SyncBarrier where
  arrived : Finset String := ∅
  released : Bool := false
  timedOut : Bool := false

structure BarrierResult where
  reached : Finset String
  missing : Finset String
  timedOut : Bool

/-- The block of `wait_barrier` that a thread comes to next. -/
inductive Pc where
  | outside
  | arriving (barrier : ℕ) (uutId : String)
  | waiting (barrier : ℕ)
  | marking (barrier : ℕ) (result : BarrierResult)
  | cleaning (barrier : ℕ)

inductive Event where
  | joined (barrier : ℕ) (uutId : String)
  | returned (barrier : ℕ) (result : BarrierResult)

structure State (τ : Type) where
  uuts : String → UUTState := fun _ => .idle
  lastError : String → Option String := fun _ => none
  barrier : ℕ → SyncBarrier := fun _ => {}
  created : ℕ := 0
  current : Option ℕ := none
  pc : τ → Pc := fun _ => .outside
  -- Not in the source, the newest first.
  log : List Event := []

inductive Move where
  | call (uutId : String)
  | arrive (expired : Bool)
  | wake (expired : Bool)
  | mark
  | cleanUp

section Code

variable {τ : Type} [DecidableEq τ] (pool : Finset String) (barrierName : String) (s : State τ) (t : τ)

/-- `wait` from the test of its loop: nothing when the thread waits again. -/
def check (b : SyncBarrier) (expired : Bool) : SyncBarrier × Option BarrierResult :=
  if b.released = false ∧ b.arrived ≠ pool then
    if expired then
      ({ b with released := true, timedOut := true }, some ⟨b.arrived, pool \ b.arrived, true⟩)
    else (b, none)
  else ({ b with released := true }, some ⟨b.arrived, pool \ b.arrived, b.timedOut⟩)

def join (barrier : ℕ) (uutId : String) : State τ :=
  { s with current := some barrier, pc := update s.pc t (.arriving barrier uutId), log := .joined barrier uutId :: s.log }

def wait (barrier : ℕ) (b : SyncBarrier) (expired : Bool) : State τ :=
  match check pool b expired with
  | (b, none) => { s with barrier := update s.barrier barrier b, pc := update s.pc t (.waiting barrier) }
  | (b, some result) =>
    { s with
      barrier := update s.barrier barrier b
      pc := update s.pc t (.marking barrier result)
      log := .returned barrier result :: s.log }

/-- A move that the thread cannot make leaves the state as it is, and so does an unknown UUT. -/
def step (m : τ × Move) : State τ :=
  match m.2, s.pc m.1 with
  | .call uutId, .outside =>
    if uutId ∈ pool then
      match s.current.filter fun barrier => !(s.barrier barrier).released with
      | some barrier => join s m.1 barrier uutId
      | none => join { s with created := s.created + 1 } m.1 s.created uutId
    else s
  | .arrive expired, .arriving barrier uutId =>
    wait pool s m.1 barrier { s.barrier barrier with arrived := insert uutId (s.barrier barrier).arrived } expired
  | .wake expired, .waiting barrier => wait pool s m.1 barrier (s.barrier barrier) expired
  | .mark, .marking barrier result =>
    let failed (uutId : String) : Bool := result.timedOut ∧ uutId ∈ result.missing ∧ !(s.uuts uutId).busy
    { s with
      uuts := fun uutId => if failed uutId then .failed else s.uuts uutId
      lastError := fun uutId =>
        if failed uutId then some ("Barrier '" ++ barrierName ++ "' timeout") else s.lastError uutId
      pc := update s.pc m.1 (.cleaning barrier) }
  | .cleanUp, .cleaning barrier =>
    { s with
      current := if s.current = some barrier ∧ (s.barrier barrier).released then none else s.current
      pc := update s.pc m.1 .outside }
  | _, _ => s

end Code

/-- No call joins a barrier that some call has returned from, and the calls of one barrier return alike: after a
timeout, or when all UUTs have joined it. -/
def Safe (pool : Finset String) : List Event → Prop
  | [] => True
  | .joined barrier _ :: log => (∀ result, .returned barrier result ∉ log) ∧ Safe pool log
  | .returned barrier result :: log =>
    (∀ result', .returned barrier result' ∈ log → result'.timedOut = result.timedOut) ∧
    (result.timedOut = false → result.missing = ∅ ∧ ∀ uutId ∈ pool, .joined barrier uutId ∈ log) ∧ Safe pool log

/-! ## One barrier -/

structure Ok (pool : Finset String) (log : List Event) (barrier : ℕ) (b : SyncBarrier) : Prop where
  arrived : ∀ uutId ∈ b.arrived, .joined barrier uutId ∈ log
  full : b.released → b.timedOut = false → b.arrived = pool
  returned : ∀ result, .returned barrier result ∈ log → b.released ∧ result.timedOut = b.timedOut

section

variable {pool : Finset String} {log : List Event} {barrier : ℕ} {b b' : SyncBarrier} {uutId : String}
  {result : BarrierResult} {expired : Bool}

theorem Ok.insert (h : Ok pool log barrier b) (hpool : uutId ∈ pool) (hjoined : .joined barrier uutId ∈ log) :
    Ok pool log barrier { b with arrived := insert uutId b.arrived } where
  arrived u hu := by
    rcases mem_insert.mp hu with rfl | hu
    · exact hjoined
    · exact h.arrived u hu
  full hreleased hnot := by
    rw [h.full hreleased hnot]
    exact insert_eq_of_mem hpool
  returned := h.returned

theorem Ok.joined (h : Ok pool log barrier b) (barrier' : ℕ) (uutId : String) :
    Ok pool (.joined barrier' uutId :: log) barrier b where
  arrived u hu := List.mem_cons_of_mem _ (h.arrived u hu)
  full := h.full
  returned r hr := h.returned r (by simpa using hr)

theorem Ok.of_returned_ne {barrier' : ℕ} (h : Ok pool log barrier b) (hne : barrier ≠ barrier') :
    Ok pool (.returned barrier' result :: log) barrier b where
  arrived u hu := List.mem_cons_of_mem _ (h.arrived u hu)
  full := h.full
  returned r hr := h.returned r (by simpa [hne] using hr)

theorem check_none (h : check pool b expired = (b', none)) : b' = b := by
  unfold check at h
  grind

theorem Ok.check (h : Ok pool log barrier b) (hsafe : Safe pool log) (hcheck : check pool b expired = (b', some result)) :
    Ok pool (.returned barrier result :: log) barrier b' ∧ Safe pool (.returned barrier result :: log) := by
  have hjoined (u : String) (hu : u ∈ b.arrived) := List.mem_cons_of_mem (.returned barrier result) (h.arrived u hu)
  unfold Barrier.check at hcheck
  split at hcheck
  · rename_i hopen
    split at hcheck
    · cases hcheck
      -- The barrier is open still, so no call has returned from it.
      have hnone (r : BarrierResult) : .returned barrier r ∉ log := fun hr => by
        simpa [hopen.1] using (h.returned r hr).1
      refine ⟨⟨hjoined, by simp, fun r hr => ?_⟩, fun r hr => absurd hr (hnone r), by simp, hsafe⟩
      obtain rfl : r = _ := by simpa [hnone] using hr
      exact ⟨rfl, rfl⟩
    · cases hcheck
  · rename_i hopen
    cases hcheck
    have hfull (hnot : b.timedOut = false) : b.arrived = pool := by
      by_cases hreleased : b.released
      · exact h.full hreleased hnot
      · simpa [hreleased] using hopen
    refine ⟨⟨hjoined, fun _ => hfull, fun r hr => ⟨rfl, ?_⟩⟩, fun r hr => (h.returned r hr).2, fun hnot => ?_, hsafe⟩
    · rcases List.mem_cons.mp hr with heq | hr
      · cases heq
        rfl
      · exact (h.returned r hr).2
    · refine ⟨by simp [hfull hnot], fun u hu => h.arrived u ?_⟩
      rwa [hfull hnot]

end

/-! ## Runs -/

variable {τ : Type} [DecidableEq τ]

structure Inv (pool : Finset String) (s : State τ) : Prop where
  ok : ∀ barrier, Ok pool s.log barrier (s.barrier barrier)
  fresh : ∀ barrier, s.created ≤ barrier → (s.barrier barrier).released = false
  current : ∀ barrier ∈ s.current, barrier < s.created
  arriving : ∀ t barrier uutId, s.pc t = .arriving barrier uutId →
    barrier < s.created ∧ uutId ∈ pool ∧ .joined barrier uutId ∈ s.log
  waiting : ∀ t barrier, s.pc t = .waiting barrier → barrier < s.created
  safe : Safe pool s.log

variable {pool : Finset String} {barrierName : String} {s : State τ} {t : τ} {barrier : ℕ} {uutId : String}

theorem inv_join (h : Inv pool s) (hpool : uutId ∈ pool) (hopen : (s.barrier barrier).released = false)
    (hcreated : barrier < s.created) : Inv pool (join s t barrier uutId) where
  ok b := (h.ok b).joined barrier uutId
  fresh := h.fresh
  current := by simpa [join] using hcreated
  arriving := by
    have := h.arriving
    simp only [join]
    grind
  waiting := by
    have := h.waiting
    simp only [join]
    grind
  safe := ⟨fun r hr => by simpa [hopen] using ((h.ok barrier).returned r hr).1, h.safe⟩

theorem inv_wait (h : Inv pool s) {b : SyncBarrier} (hb : Ok pool s.log barrier b) (hcreated : barrier < s.created)
    (expired : Bool) : Inv pool (wait pool s t barrier b expired) := by
  obtain ⟨hok, hfresh, hcurrent, harriving, hwaiting, hsafe⟩ := h
  unfold wait
  split
  · rename_i b' hcheck
    obtain rfl := check_none hcheck
    constructor <;> grind
  · rename_i b' result hcheck
    obtain ⟨hok', hsafe'⟩ := hb.check hsafe hcheck
    refine ⟨fun b => ?_, ?_, hcurrent, ?_, ?_, hsafe'⟩
    · by_cases hne : b = barrier
      · subst hne
        simpa using hok'
      · simpa [hne] using (hok b).of_returned_ne hne
    · grind
    · grind
    · grind

theorem inv_step (h : Inv pool s) (m : τ × Move) : Inv pool (step pool barrierName s m) := by
  obtain ⟨hok, hfresh, hcurrent, harriving, hwaiting, hsafe⟩ := id h
  unfold step
  split
  · split
    · split
      · rename_i barrier hsome
        obtain ⟨hsome, hopen⟩ := Option.filter_eq_some_iff.mp hsome
        exact inv_join h ‹_› (by simpa using hopen) (hcurrent barrier hsome)
      · have hnew : Inv pool { s with created := s.created + 1 } := by
          constructor <;> grind
        exact inv_join hnew ‹_› (hfresh s.created le_rfl) (by simp)
    · exact h
  · rename_i expired barrier uutId _ ht
    obtain ⟨hcreated, hpool, hjoined⟩ := harriving m.1 barrier uutId ht
    exact inv_wait h ((hok barrier).insert hpool hjoined) hcreated expired
  · rename_i expired barrier _ ht
    exact inv_wait h (hok barrier) (hwaiting m.1 barrier ht) expired
  · constructor <;> grind
  · constructor <;> grind
  · exact h

theorem barriers_safe (pool : Finset String) (barrierName : String) (uuts : String → UUTState) (moves : List (τ × Move)) :
    Safe pool (run (step pool barrierName) ({ uuts } : State τ) moves).log := by
  have hinit : Inv pool ({ uuts } : State τ) :=
    ⟨fun _ => ⟨by simp, by simp, by simp⟩, by simp, by simp, by simp, by simp, trivial⟩
  have hstep (s : State τ) (m : τ × Move) (h : Inv pool s) : Inv pool (step pool barrierName s m) := inv_step h m
  exact (run_always hstep hinit moves).safe

end AteStudio.Barrier
