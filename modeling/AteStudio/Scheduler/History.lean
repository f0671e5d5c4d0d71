import AteStudio.Scheduler.Steps

/-!
# What the log says about a step

The newest entry of the log comes first.
-/

namespace AteStudio.Scheduler

open List

variable {V : Type}

def openSince (closes : StepStatus → Bool) (id : String) : List Obs → Bool
  | [] => false
  | .started stepId _ _ _ :: log => stepId = id || openSince closes id log
  | .status stepId _ new :: log => !(stepId = id && closes new) && openSince closes id log
  | _ :: log => openSince closes id log

section OpenSince

variable {closes : StepStatus → Bool} {id x : String} {s s' : State V}

def Obs.Aside (o : Obs) : Prop := o.IsNote ∨ o.Silent

theorem openSince_aside {asides log : List Obs} (h : ∀ o ∈ asides, o.Aside) :
    openSince closes x (asides ++ log) = openSince closes x log := by
  induction asides with
  | nil => rfl
  | cons o asides ih =>
    obtain ⟨ho, hrest⟩ := forall_mem_cons.mp h
    cases o with
    | status | started | skipped => rcases ho with ho | ho <;> cases ho
    | _ => exact ih hrest

theorem Alike.openSince (h : Alike s s') : openSince closes x s'.log = openSince closes x s.log := by
  obtain ⟨notes, hnotes, hlog⟩ := h.log
  rw [hlog, openSince_aside fun o ho => .inl (hnotes o ho)]

theorem Kept.openSince (h : Kept s s') : openSince closes x s'.log = openSince closes x s.log := by
  obtain ⟨notes, hnotes, hlog⟩ := h.log
  rw [hlog, openSince_aside fun o ho => .inr (hnotes o ho)]

end OpenSince

/-! ## Setting a status -/

section UpdateStatus

variable (s : State V) (id : String) (status : StepStatus)

theorem updateStatus_cases : s.updateStatus id status = s ∧ (∀ old, s.steps.get? id = some old → old = status) ∨
    ∃ old, s.steps.get? id = some old ∧ old ≠ status ∧ s.updateStatus id status = { s with
      steps := s.steps.set id status
      queue := s.queue ++ [.statusChanged id old status]
      log := .status id old status :: s.log } := by
  unfold State.updateStatus
  split
  · next hnone => exact .inl ⟨rfl, by simp [hnone]⟩
  next old hold =>
  split
  · next heq => exact .inl ⟨rfl, fun old' hold' => by simp_all⟩
  · next hne => exact .inr ⟨old, hold, hne, rfl⟩

theorem get?_updateStatus {old : StepStatus} (h : (s.updateStatus id status).steps.get? id = some old) :
    old = status := by
  rcases updateStatus_cases s id status with ⟨heq, hsame⟩ | ⟨_, _, _, heq⟩
  · rw [heq] at h
    exact hsame old h
  · simpa [heq] using h.symm

theorem updateStatus_notifiedReady : (s.updateStatus id status).notifiedReady = s.notifiedReady := by
  rcases updateStatus_cases s id status with ⟨heq, _⟩ | ⟨_, _, _, heq⟩ <;> rw [heq]

theorem updateStatus_affinityClaims : (s.updateStatus id status).affinityClaims = s.affinityClaims := by
  rcases updateStatus_cases s id status with ⟨heq, _⟩ | ⟨_, _, _, heq⟩ <;> rw [heq]

theorem updateStatus_scans : (s.updateStatus id status).scans = s.scans := by
  rcases updateStatus_cases s id status with ⟨heq, _⟩ | ⟨_, _, _, heq⟩ <;> rw [heq]

theorem openSince_updateStatus {closes : StepStatus → Bool} {x : String}
    (h : openSince closes x (s.updateStatus id status).log = true) : openSince closes x s.log = true := by
  rcases updateStatus_cases s id status with ⟨heq, _⟩ | ⟨_, _, _, heq⟩
  · rwa [heq] at h
  · rw [heq] at h
    exact (Bool.and_eq_true_iff.mp h).2

end UpdateStatus

/-! ## Skipping, starting and ending -/

section Acts

variable (cfg : Config V) (s : State V) (id : String)

theorem openSince_markSkipped {closes : StepStatus → Bool} {x reason : String}
    (h : openSince closes x (markSkipped cfg s id reason).log = true) : openSince closes x s.log = true :=
  openSince_updateStatus s id .skipped h

theorem startStep_eq : startStep cfg s id =
    { s with
      notifiedReady := id :: s.notifiedReady
      affinityClaims := (claimUut cfg s id).affinityClaims
      log := .started id (s.steps.get? id) s.paused s.down :: s.log } := by
  unfold startStep
  rw [claimUut_eq]

theorem openSince_startStep {closes : StepStatus → Bool} {x : String} (hx : x ≠ id)
    (h : openSince closes x (startStep cfg s id).log = true) : openSince closes x s.log = true := by
  rw [startStep_eq] at h
  rcases Bool.or_eq_true_iff.mp h with heq | hold
  · exact absurd (of_decide_eq_true heq).symm hx
  · exact hold

end Acts

/-! ## Every entry, every suspended scan -/

section Rules

variable {cfg : Config V} {G : Guards V} {s s' : State V}

theorem Act.scans {id : String} (h : Act cfg G id s s') : s'.scans = s.scans := by
  cases h with
  | quiet hq => exact hq.scans
  | status status => exact updateStatus_scans s id status
  | skip => exact updateStatus_scans s id .skipped
  | start => rw [startStep_eq]
  | spent => rfl

def Suspended (G : Guards V) (s : State V) : Prop := ∀ scan ∈ s.scans, G.suspend (scan.stepId :: scan.rest)

theorem Suspended.kept (hk : Kept s s') (h : Suspended G s) : Suspended G s' :=
  fun scan hscan => h scan (hk.scans hscan)

theorem Suspended.change (hc : Change cfg G s s') (h : Suspended G s) : Suspended G s' := by
  intro scan hscan
  cases hc with
  | act hact => exact h scan (hact.scans ▸ hscan)
  | ended => exact h scan (by rwa [stepEnded_eq] at hscan)
  | suspend hnew =>
    rcases mem_append.mp hscan with hscan | hscan
    · exact h scan hscan
    · rw [mem_singleton] at hscan
      exact hscan ▸ hnew
  | arm => exact h scan hscan
  | outside hk => exact h.kept hk scan hscan

variable {L : ∀ ans, ListGuard cfg G ans}

theorem State.Fresh.suspended (h : s.Fresh) : Suspended G s := by
  simp [Suspended, h.scans]

theorem State.Fresh.run_permitted {P : State V → Prop} {good : State V → Move V → Prop} {moves : List (Move V)}
    (hs : s.Fresh) (h : P s) (hstep : ∀ s m, Permits L s m → P s → P (step cfg s m))
    (hpermits : ∀ s m, good s m → Suspended G s → Permits L s m) (hmoves : Runs.Meets (step cfg) good s moves) :
    P (run cfg s moves) := by
  have hboth (s : State V) (m : Move V) (h : P s ∧ Suspended G s) (hm : good s m) :
      P (step cfg s m) ∧ Suspended G (step cfg s m) := by
    have hm := hpermits s m hm h.2
    exact ⟨hstep s m hm h.1, step_invariant L Suspended.change Suspended.kept h.2 hm⟩
  exact (Runs.run_invariant hboth ⟨h, hs.suspended⟩ hmoves).1

/-- What holds of every entry, by the guard that speaks of it. -/
structure Entries (cfg : Config V) (G : Guards V) (P : Obs → Prop) : Prop where
  silent : ∀ o, o.Silent → P o
  status : ∀ id old new, P (.status id old new)
  skip : ∀ s id reason, G.skip s id → P (.skipped id reason (cfg.ready s id) s.steps)
  start : ∀ s id, MayStart cfg s id → G.start s id → P (.started id (s.steps.get? id) s.paused s.down)
  spent : ∀ control id due, G.spent due → P (.spent control id due)
  arm : ∀ breakpoints, G.arm breakpoints → P (.armed breakpoints)

variable {P : Obs → Prop}

theorem Entries.updateStatus (hP : Entries cfg G P) (id : String) (status : StepStatus)
    (h : ∀ o ∈ s.log, P o) : ∀ o ∈ (s.updateStatus id status).log, P o := by
  rcases updateStatus_cases s id status with ⟨heq, _⟩ | ⟨_, _, _, heq⟩
  · rwa [heq]
  · rw [heq]
    exact forall_mem_cons.mpr ⟨hP.status _ _ _, h⟩

theorem Entries.kept (hP : Entries cfg G P) (hk : Kept s s') (h : ∀ o ∈ s.log, P o) : ∀ o ∈ s'.log, P o := by
  obtain ⟨notes, hnotes, hlog⟩ := hk.log
  rw [hlog]
  exact forall_mem_append.mpr ⟨fun o ho => hP.silent o (hnotes o ho), h⟩

theorem Entries.change (hP : Entries cfg G P) (hc : Change cfg G s s') (h : ∀ o ∈ s.log, P o) : ∀ o ∈ s'.log, P o := by
  cases hc with
  | act hact =>
    cases hact with
    | quiet hq =>
      intro o ho
      rcases hq.entries o ho with ho | hsilent
      · exact h o ho
      · exact hP.silent o hsilent
    | status status => exact hP.updateStatus _ status h
    | skip reason hmay => exact forall_mem_cons.mpr ⟨hP.skip s _ reason hmay, hP.updateStatus _ .skipped h⟩
    | start hcode hmay =>
      rw [startStep_eq]
      exact forall_mem_cons.mpr ⟨hP.start s _ hcode hmay, h⟩
    | spent control hdue => exact forall_mem_cons.mpr ⟨hP.spent control _ _ hdue, h⟩
  | ended => rwa [stepEnded_eq]
  | suspend => exact h
  | arm harm => exact forall_mem_cons.mpr ⟨hP.arm _ harm, h⟩
  | outside hk => exact hP.kept hk h

theorem Entries.step (hP : Entries cfg G P) {m : Move V}
    (hm : Permits L s m) (h : ∀ o ∈ s.log, P o) : ∀ o ∈ (step cfg s m).log, P o :=
  @step_invariant _ m s cfg G L (fun s => ∀ o ∈ s.log, P o) hP.change hP.kept h hm

end Rules

/-! ## The log grows -/

section Log

variable {cfg : Config V} {G : Guards V} {s s' : State V}

theorem updateStatus_log (s : State V) (id : String) (status : StepStatus) :
    s.log ⊆ (s.updateStatus id status).log := by
  rcases updateStatus_cases s id status with ⟨heq, _⟩ | ⟨_, _, _, heq⟩
  · rw [heq]
    exact List.Subset.refl _
  · rw [heq]
    exact subset_cons_self _ _

theorem Kept.log_subset (h : Kept s s') : s.log ⊆ s'.log := by
  obtain ⟨notes, _, hlog⟩ := h.log
  rw [hlog]
  exact subset_append_right _ _

theorem Change.log_subset (h : Change cfg G s s') : s.log ⊆ s'.log := by
  cases h with
  | @act _ id hact =>
    cases hact with
    | quiet hq =>
      obtain ⟨notes, _, hlog⟩ := hq.log
      rw [hlog]
      exact subset_append_right _ _
    | status status => exact updateStatus_log s id status
    | skip => exact subset_cons_of_subset _ (updateStatus_log s id .skipped)
    | start =>
      rw [startStep_eq]
      exact subset_cons_self _ _
    | spent => exact subset_cons_self _ _
  | ended =>
    rw [stepEnded_eq]
    exact List.Subset.refl _
  | suspend => exact List.Subset.refl _
  | arm => exact subset_cons_self _ _
  | outside hk => exact hk.log_subset

theorem step_log (cfg : Config V) (s : State V) (m : Move V) : s.log ⊆ (step cfg s m).log :=
  @step_always _ cfg (fun s' => s.log ⊆ s'.log) (fun hc h => List.Subset.trans h hc.log_subset)
    (fun hk h => List.Subset.trans h hk.log_subset) s m (List.Subset.refl _)

end Log

/-! ## Every terminal status -/

/-- A step that is terminal has the status since `s₀`, or the log says when it was set. -/
def Logs (s₀ s : State V) : Prop := ∀ id status, s.steps.get? id = some status → status.terminal = true →
  s₀.steps.get? id = some status ∨ ∃ old, .status id old status ∈ s.log

section Logs

variable {cfg : Config V} {G : Guards V} {s₀ s s' : State V}

theorem Logs.of_steps (hsteps : s'.steps = s.steps) : Logs s s' := fun _ _ hstatus _ => .inl (hsteps ▸ hstatus)

theorem Logs.mono (h : Logs s₀ s) (hsteps : s'.steps = s.steps) (hlog : s.log ⊆ s'.log) : Logs s₀ s' := by
  intro id status hstatus hterminal
  rw [hsteps] at hstatus
  rcases h id status hstatus hterminal with hbefore | ⟨old, hmem⟩
  · exact .inl hbefore
  · exact .inr ⟨old, hlog hmem⟩

theorem Logs.updateStatus (h : Logs s₀ s) (id : String) (status : StepStatus) : Logs s₀ (s.updateStatus id status) := by
  rcases updateStatus_cases s id status with ⟨heq, _⟩ | ⟨old, _, _, heq⟩
  · rwa [heq]
  · rw [heq]
    intro x new hnew hterminal
    rw [Dict.get?_set] at hnew
    split at hnew
    · next hx =>
      cases hnew
      exact .inr ⟨old, hx ▸ mem_cons_self⟩
    · rcases h x new hnew hterminal with hbefore | ⟨old, hmem⟩
      · exact .inl hbefore
      · exact .inr ⟨old, mem_cons_of_mem _ hmem⟩

theorem Logs.kept (hk : Kept s s') (h : Logs s₀ s) : Logs s₀ s' := h.mono hk.steps hk.log_subset

theorem Logs.change (hc : Change cfg G s s') (h : Logs s₀ s) : Logs s₀ s' := by
  have hlog := hc.log_subset
  cases hc with
  | @act _ id hact =>
    cases hact with
    | quiet hq => exact h.mono hq.steps hlog
    | status status => exact h.updateStatus id status
    | skip reason => exact (h.updateStatus id .skipped).mono rfl (subset_cons_self _ _)
    | start => exact h.mono (by rw [startStep_eq]) hlog
    | spent => exact h.mono rfl hlog
  | ended => exact h.mono (by rw [stepEnded_eq]) hlog
  | suspend | arm => exact h.mono rfl hlog
  | outside hk => exact h.kept hk

theorem Logs.register (h : Logs s₀ s) (id : String) : Logs s₀ { s with steps := s.steps.set id .pending } := by
  intro x status hstatus hterminal
  rw [Dict.get?_set] at hstatus
  split at hstatus
  · cases hstatus
    cases hterminal
  · exact h x status hstatus hterminal

end Logs

/-! ## Every start, given what came before -/

def EachStart (P : String → List Obs → Prop) : List Obs → Prop
  | [] => True
  | .started id _ _ _ :: log => P id log ∧ EachStart P log
  | _ :: log => EachStart P log

namespace EachStart

variable {P : String → List Obs → Prop}

instance decidable [∀ id log, Decidable (P id log)] : ∀ log, Decidable (EachStart P log)
  | [] => isTrue trivial
  | .started .. :: log =>
    have := decidable log
    inferInstanceAs (Decidable (_ ∧ _))
  | .status .. :: log | .skipped .. :: log | .failed .. :: log | .breakpointHit .. :: log | .began :: log
  | .aborted _ :: log | .armed _ :: log | .spent .. :: log =>
    decidable log

theorem asides {asides log : List Obs} (hasides : ∀ o ∈ asides, o.Aside) (h : EachStart P log) :
    EachStart P (asides ++ log) := by
  induction asides with
  | nil => exact h
  | cons o asides ih =>
    obtain ⟨ho, hrest⟩ := forall_mem_cons.mp hasides
    cases o with
    | started => rcases ho with ho | ho <;> cases ho
    | _ => exact ih hrest

variable {cfg : Config V} {G : Guards V} {s s' : State V}

theorem updateStatus (h : EachStart P s.log) (id : String) (status : StepStatus) :
    EachStart P (s.updateStatus id status).log := by
  rcases updateStatus_cases s id status with ⟨heq, _⟩ | ⟨_, _, _, heq⟩ <;> rw [heq] <;> exact h

theorem kept (hk : Kept s s') (h : EachStart P s.log) : EachStart P s'.log := by
  obtain ⟨notes, hnotes, hlog⟩ := hk.log
  rw [hlog]
  exact h.asides fun o ho => .inr (hnotes o ho)

theorem change (hstart : ∀ id, MayStart cfg s id → G.start s id → P id s.log) (hc : Change cfg G s s')
    (h : EachStart P s.log) : EachStart P s'.log := by
  cases hc with
  | act hact =>
    cases hact with
    | quiet hq =>
      obtain ⟨notes, hnotes, hlog⟩ := hq.log
      rw [hlog]
      exact h.asides fun o ho => .inl (hnotes o ho)
    | status status => exact h.updateStatus _ status
    | skip reason => exact h.updateStatus _ .skipped
    | start hmay hguard =>
      rw [startStep_eq]
      exact ⟨hstart _ hmay hguard, h⟩
    | spent => exact h
  | ended => rwa [stepEnded_eq]
  | suspend | arm => exact h
  | outside hk => exact h.kept hk

end EachStart

end AteStudio.Scheduler
