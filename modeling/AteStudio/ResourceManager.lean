import AteStudio.Lib.Runs

/-!
# Resource locks (`scheduler/resource_manager.py`)

A move is one block under the manager lock, or one operation on the lock of a resource.
-/

namespace AteStudio.ResourceManager

open Function Runs

inductive Pc where
  | idle
  | acquiring (resourceId ownerId : String) (blocking : Bool)
  | recording (resourceId ownerId : String)
  | unlocking (resourceId ownerId : String)

inductive Event where
  | acquired (resourceId ownerId : String)
  | refused (resourceId ownerId : String)
  | released (resourceId ownerId : String)
  | raised (message : String)

structure State (τ : Type) where
  locks : String → Option Bool := fun _ => none
  owners : String → Option String := fun _ => none
  pc : τ → Pc := fun _ => .idle
  -- Not in the source.
  log : List Event := []

inductive Move where
  | acquire (resourceId ownerId : String) (timeout : Option ℚ)
  | attempt
  | expire
  | record
  | release (resourceId ownerId : String)
  | unlock

variable {τ : Type}

section Code

def State.emit (s : State τ) (e : Event) : State τ := { s with log := s.log ++ [e] }

variable [DecidableEq τ]

def State.goto (s : State τ) (t : τ) (pc : Pc) : State τ := { s with pc := update s.pc t pc }

def acquire (s : State τ) (t : τ) (resourceId ownerId : String) (timeout : Option ℚ) : State τ :=
  let locks := if s.locks resourceId = none then update s.locks resourceId (some false) else s.locks
  let s := { s with locks }
  if s.owners resourceId = some ownerId then
    s.emit (.raised ("Owner '" ++ ownerId ++ "' already holds resource '" ++ resourceId ++ "'"))
  else s.goto t (.acquiring resourceId ownerId (timeout.any (0 < ·)))

def release (s : State τ) (t : τ) (resourceId ownerId : String) : State τ :=
  if s.locks resourceId = none then s.emit (.raised ("Resource '" ++ resourceId ++ "' not found"))
  else if s.owners resourceId = some ownerId then
    { s with owners := update s.owners resourceId none }.goto t (.unlocking resourceId ownerId)
  else
    s.emit (.raised ("Cannot release '" ++ resourceId ++ "': owner is '" ++ (s.owners resourceId).getD "None" ++
      "', not '" ++ ownerId ++ "'"))

/-- A move that the thread cannot make leaves the state as it is. -/
def step (s : State τ) (m : τ × Move) : State τ :=
  match m.2, s.pc m.1 with
  | .acquire resourceId ownerId timeout, .idle => acquire s m.1 resourceId ownerId timeout
  | .attempt, .acquiring resourceId ownerId blocking =>
    if s.locks resourceId = some false then
      { s with locks := update s.locks resourceId (some true) }.goto m.1 (.recording resourceId ownerId)
    else if blocking then s
    else (s.goto m.1 .idle).emit (.refused resourceId ownerId)
  | .expire, .acquiring resourceId ownerId true => (s.goto m.1 .idle).emit (.refused resourceId ownerId)
  | .record, .recording resourceId ownerId =>
    ({ s with owners := update s.owners resourceId (some ownerId) }.goto m.1 .idle).emit (.acquired resourceId ownerId)
  | .release resourceId ownerId, .idle => release s m.1 resourceId ownerId
  | .unlock, .unlocking resourceId ownerId =>
    if s.locks resourceId = some true then
      ({ s with locks := update s.locks resourceId (some false) }.goto m.1 .idle).emit (.released resourceId ownerId)
    else (s.goto m.1 .idle).emit (.raised "release unlocked lock")
  | _, _ => s

end Code

/-- The owners of the acquires that no release with the same owner has followed. -/
def outstanding (resourceId : String) (log : List Event) : List String :=
  log.foldl (fun owners e =>
    match e with
    | .acquired r o => if r = resourceId then owners ++ [o] else owners
    | .released r o => if r = resourceId then owners.filter (· ≠ o) else owners
    | _ => owners) []

/-! ## The life of a lock -/

inductive Phase (τ : Type) where
  | free
  | recording (t : τ) (ownerId : String)
  | owned (ownerId : String)
  | unlocking (t : τ) (ownerId : String)

def Phase.owner? : Phase τ → Option String
  | .owned o => some o
  | _ => none

def Phase.outstanding : Phase τ → List String
  | .owned o | .unlocking _ o => [o]
  | _ => []

def Pc.Holds (r : String) : Pc → Prop
  | .recording r' _ | .unlocking r' _ => r' = r
  | _ => False

structure Agrees (s : State τ) (r : String) (phase : Phase τ) : Prop where
  locks : s.locks r = some true ↔ phase ≠ .free
  owners : s.owners r = phase.owner?
  recording : ∀ t o, s.pc t = .recording r o ↔ phase = .recording t o
  unlocking : ∀ t o, s.pc t = .unlocking r o ↔ phase = .unlocking t o
  outstanding : outstanding r s.log = phase.outstanding

theorem outstanding_append (r : String) (log : List Event) (e : Event) :
    outstanding r (log ++ [e]) =
      match e with
      | .acquired r' o => if r' = r then outstanding r log ++ [o] else outstanding r log
      | .released r' o => if r' = r then (outstanding r log).filter (· ≠ o) else outstanding r log
      | _ => outstanding r log := by
  simp [outstanding]

attribute [grind =] Phase.owner? Phase.outstanding Pc.Holds outstanding_append

namespace Agrees

variable {s : State τ} {r r' o : String} {phase : Phase τ} {t : τ}

theorem phase_of_owner (h : Agrees s r phase) (ho : s.owners r = some o) : phase = .owned o := by
  have howner := h.owners.symm.trans ho
  cases phase <;> simp_all [Phase.owner?]

theorem set {locks : String → Option Bool} {owners : String → Option String} (h : Agrees s r phase)
    (hlocks : locks r = some true ↔ s.locks r = some true) (howners : owners r = s.owners r) :
    Agrees { s with locks, owners } r phase :=
  { h with locks := hlocks.trans h.locks, owners := howners.trans h.owners }

theorem emit {e : Event} (h : Agrees s r phase)
    (he : ResourceManager.outstanding r (s.log ++ [e]) = ResourceManager.outstanding r s.log) : Agrees (s.emit e) r phase :=
  { h with outstanding := he.trans h.outstanding }

variable [DecidableEq τ]

theorem goto {pc : Pc} (h : Agrees s r phase) (hfrom : ¬ (s.pc t).Holds r) (hto : ¬ pc.Holds r) :
    Agrees (s.goto t pc) r phase := by
  obtain ⟨hlocks, howners, hrecording, hunlocking, hout⟩ := h
  constructor <;> simp only [State.goto] <;> grind

theorem step (h : Agrees s r phase) (m : τ × Move) : ∃ phase', Agrees (step s m) r phase' := by
  obtain ⟨hlocks, howners, hrecording, hunlocking, hout⟩ := id h
  unfold ResourceManager.step
  split
  · rename_i r' o timeout _ hpc
    refine ⟨phase, ?_⟩
    have hset : Agrees { s with locks := if s.locks r' = none then update s.locks r' (some false) else s.locks } r phase :=
      h.set (by grind) rfl
    unfold acquire
    dsimp only
    split
    · exact hset.emit (by grind)
    · exact hset.goto (by grind) (by grind)
  · rename_i r' o blocking _ hpc
    split
    · by_cases hr : r' = r
      · refine ⟨.recording m.1 o, ?_⟩
        constructor <;> simp only [State.goto] <;> grind
      · exact ⟨phase, (h.set (by grind) rfl).goto (by grind) (by grind)⟩
    · split
      · exact ⟨phase, h⟩
      · exact ⟨phase, (h.goto (by grind) (by grind)).emit (by grind)⟩
  · exact ⟨phase, (h.goto (by grind) (by grind)).emit (by grind)⟩
  · rename_i r' o _ hpc
    by_cases hr : r' = r
    · refine ⟨.owned o, ?_⟩
      constructor <;> simp only [State.goto, State.emit] <;> grind
    · exact ⟨phase, ((h.set .rfl (by grind)).goto (by grind) (by grind)).emit (by grind)⟩
  · rename_i r' o _ hpc
    unfold release
    split
    · exact ⟨phase, h.emit (by grind)⟩
    · split
      · by_cases hr : r' = r
        · have hphase : phase = .owned o := h.phase_of_owner (by grind)
          refine ⟨.unlocking m.1 o, ?_⟩
          constructor <;> simp only [State.goto] <;> grind
        · exact ⟨phase, (h.set .rfl (by grind)).goto (by grind) (by grind)⟩
      · exact ⟨phase, h.emit (by grind)⟩
  · rename_i r' o _ hpc
    split
    · by_cases hr : r' = r
      · have hone : [o].filter (· ≠ o) = [] := by simp
        refine ⟨.free, ?_⟩
        constructor <;> simp only [State.goto, State.emit] <;> grind
      · exact ⟨phase, ((h.set (by grind) rfl).goto (by grind) (by grind)).emit (by grind)⟩
    · exact ⟨phase, (h.goto (by grind) (by grind)).emit (by grind)⟩
  · exact ⟨phase, h⟩

end Agrees

variable [DecidableEq τ]

theorem release_raised {s : State τ} {t : τ} {r o message : String} {m : Move} (h : ∀ r, ∃ phase, Agrees s r phase)
    (hm : m = .release r o ∨ m = .unlock) (hlog : (step s (t, m)).log = s.log ++ [.raised message]) :
    step s (t, m) = s.emit (.raised message) := by
  rcases hm with rfl | rfl
  · cases hpc : s.pc t with
    | idle =>
      simp only [step, hpc, release] at hlog ⊢
      repeat' split at hlog
      all_goals simp_all [State.emit, State.goto]
    | _ => simp [step, hpc] at hlog
  · cases hpc : s.pc t with
    | unlocking r' o' =>
      obtain ⟨phase, h⟩ := h r'
      have hheld : s.locks r' = some true := h.locks.mpr (by simp [(h.unlocking t o').mp hpc])
      simp [step, hpc, hheld, State.emit, State.goto] at hlog
    | _ => simp [step, hpc] at hlog

theorem locks_exclusive (moves : List (τ × Move)) :
    let s := run step ({} : State τ) moves
    (∀ r, (outstanding r s.log).length ≤ 1) ∧
    (∀ r o, s.owners r = some o → s.locks r = some true ∧ outstanding r s.log = [o]) ∧
    ∀ t r o m message, m = .release r o ∨ m = .unlock →
      (step s (t, m)).log = s.log ++ [.raised message] → step s (t, m) = s.emit (.raised message) := by
  intro s
  have hagrees (r : String) : ∃ phase, Agrees s r phase := by
    have hstep (s : State τ) (m : τ × Move) (h : ∃ phase, Agrees s r phase) : ∃ phase, Agrees (step s m) r phase :=
      h.elim fun _ h => h.step m
    refine run_always hstep ⟨.free, ?_⟩ moves
    constructor <;> simp [Phase.owner?, Phase.outstanding, outstanding]
  refine ⟨fun r => ?_, fun r o ho => ?_, fun t r o m message hm hlog => release_raised hagrees hm hlog⟩
  · obtain ⟨phase, h⟩ := hagrees r
    rw [h.outstanding]
    cases phase <;> simp [Phase.outstanding]
  · obtain ⟨phase, h⟩ := hagrees r
    have hphase : phase = .owned o := h.phase_of_owner ho
    exact ⟨h.locks.mpr (by simp [hphase]), by rw [h.outstanding, hphase]; rfl⟩

end AteStudio.ResourceManager
