import AteStudio.Checkpoint.Handler

/-!
# Taking a wait

A submission that has found the entry with its step returns `True`.
-/

namespace AteStudio.Checkpoint

open Runs List

def Call.answer? : Call → Option (Nat × CheckpointResponse)
  | .submit response (.matched w) => some (w, response)
  | .submit response (.recorded w) => some (w, response)
  | .submit response (.scheduled w) => some (w, response)
  | .submit response (.accepted w) => some (w, response)
  | _ => none

/-! ## What goes wrong -/

def Outcome.isLost : Outcome → Bool
  | .timedOut => true
  | .cancelled => true
  | _ => false

def WaitAt.isLost : WaitAt → Bool
  | leaving outcome => outcome.isLost
  | left outcome => outcome.isLost
  | _ => false

variable (s : State)

def lost (w : Nat) : Bool := (s.waits[w]?).any (·.pos.isLost)

def taken (w : Nat) : Nat := (s.calls.filterMap Call.answer?).countP (·.1 = w)

def takes? : Move → Option (Nat × CheckpointResponse)
  | .call t =>
    match s.calls[t]? with
    | some (.submit response (.found w)) =>
      if (s.waits[w]?).any (·.stepId = response.stepId) then some (w, response) else none
    | _ => none
  | _ => none

def PendingCheckpoint.givesUp (x : PendingCheckpoint) : Move → Bool
  | .timeout _ => match x.pos with | .waiting => true | _ => false
  | .wait _ => match x.pos with | .woken => x.cancelled | _ => false
  | _ => false

def loses (m : Move) (w : Nat) : Bool :=
  match m with
  | .timeout w' => w' = w && (s.waits[w]?).any (·.givesUp m)
  | .wait w' => w' = w && (s.waits[w]?).any (·.givesUp m)
  | _ => false

/-- One submission takes a wait, before it is given up, and it is not given up then. -/
def Orderly (m : Move) : Prop :=
  (∀ w response, takes? s m = some (w, response) → taken s w = 0 ∧ lost s w = false) ∧
    ∀ w, loses s m w = true → taken s w = 0

def Spoiled : Prop := ∃ w, 2 ≤ taken s w ∨ 1 ≤ taken s w ∧ lost s w = true

/-! ## Taking and losing -/

theorem filterMap_set_of_eq {α β : Type} {f : α → Option β} {l : List α} {i : Nat} {a b : α} (h : l[i]? = some a)
    (hf : f b = f a) : (l.set i b).filterMap f = l.filterMap f := by
  induction l generalizing i with
  | nil => rfl
  | cons c l ih =>
    cases i with
    | zero =>
      obtain rfl : c = a := by simpa using h
      rw [set_cons_zero, filterMap_cons, filterMap_cons, hf]
    | succ i => rw [set_cons_succ, filterMap_cons, filterMap_cons, ih (by simpa using h)]

theorem filterMap_set_of_some {α β : Type} {f : α → Option β} {l : List α} {i : Nat} {a b : α} {v : β}
    (h : l[i]? = some a)
    (ha : f a = none) (hb : f b = some v) : ((l.set i b).filterMap f).Perm (v :: l.filterMap f) := by
  induction l generalizing i with
  | nil => simp at h
  | cons c l ih =>
    cases i with
    | zero =>
      obtain rfl : c = a := by simpa using h
      rw [set_cons_zero, filterMap_cons, filterMap_cons, ha, hb]
    | succ i =>
      have hrest := ih (by simpa using h)
      rw [set_cons_succ, filterMap_cons, filterMap_cons]
      cases f c with
      | none => exact hrest
      | some u => exact (hrest.cons u).trans (.swap v u _)

variable {s} {t : Nat} {response : CheckpointResponse}

theorem callNext_submit {pos : SubmitAt} (h : s.calls[t]? = some (.submit response pos)) :
    callNext s t =
      { (submitNext s response pos).1 with calls := s.calls.set t (.submit response (submitNext s response pos).2) } := by
  simp only [callNext, h]

theorem callNext_cancel {runId : String} {pos : CancelAt} (h : s.calls[t]? = some (.cancel runId pos)) :
    callNext s t =
      { (cancelNext s runId pos).1 with calls := s.calls.set t (.cancel runId (cancelNext s runId pos).2) } := by
  simp only [callNext, h]

theorem callNext_none (h : s.calls[t]? = none) : callNext s t = s := by
  simp only [callNext, h]

theorem takes?_call {pos : SubmitAt} (h : s.calls[t]? = some (.submit response pos)) :
    takes? s (.call t) =
      match pos with
      | .found w => if (s.waits[w]?).any (·.stepId = response.stepId) then some (w, response) else none
      | _ => none := by
  simp only [takes?, h]
  cases pos <;> rfl

theorem submitNext_found (s : State) (response : CheckpointResponse) (w : Nat) :
    Call.answer? (.submit response (submitNext s response (.found w)).2) =
      if (s.waits[w]?).any (·.stepId = response.stepId) then some (w, response) else none := by
  cases hx : s.waits[w]? with
  | none => simp [submitNext, hx, Call.answer?]
  | some x =>
    by_cases hstep : x.stepId = response.stepId <;> simp [submitNext, hx, Call.answer?, hstep]

theorem answers_step (s : State) (m : Move) :
    ((step s m).calls.filterMap Call.answer?).Perm ((takes? s m).toList ++ s.calls.filterMap Call.answer?) := by
  cases m with
  | start runId stepId =>
    rw [step, start]
    split <;> exact .refl _
  | submit runId stepId response reason extra =>
    rw [step, filterMap_append]
    exact .of_eq (append_nil _)
  | cancel runId =>
    rw [step, filterMap_append]
    exact .of_eq (append_nil _)
  | wait w => exact .refl _
  | timeout w => exact .refl _
  | callback =>
    rw [step, callback]
    split <;> exact .refl _
  | call t =>
    rw [step]
    cases hc : s.calls[t]? with
    | none =>
      rw [callNext_none hc, takes?, hc]
      exact .refl _
    | some c =>
      cases c with
      | cancel runId pos =>
        have hanswer : Call.answer? (.cancel runId (cancelNext s runId pos).2) = Call.answer? (.cancel runId pos) := rfl
        rw [callNext_cancel hc, takes?, hc, filterMap_set_of_eq hc hanswer]
        exact .refl _
      | submit response pos =>
        rw [callNext_submit hc, takes?_call hc]
        cases pos with
        | found w =>
          have hnext := submitNext_found s response w
          simp only
          split at hnext
          · next h =>
            rw [if_pos h]
            exact filterMap_set_of_some hc rfl hnext
          · next h =>
            rw [if_neg h]
            exact .of_eq (filterMap_set_of_eq hc hnext)
        | start =>
          refine .of_eq (filterMap_set_of_eq hc ?_)
          cases hp : s.pending.get? response.runId <;> simp [submitNext, hp, Call.answer?]
        | _ => exact .of_eq (filterMap_set_of_eq hc rfl)

theorem lost_modify (s : State) (w' : Nat) (f : PendingCheckpoint → PendingCheckpoint) (gives : PendingCheckpoint → Bool)
    (hf : ∀ x, (f x).pos.isLost = (x.pos.isLost || gives x)) (w : Nat) :
    ((s.waits.modify w' f)[w]?).any (·.pos.isLost) = (lost s w || (w' = w && (s.waits[w]?).any gives)) := by
  rw [getElem?_modify, lost]
  cases s.waits[w]? with
  | none => simp
  | some x => by_cases h : w' = w <;> simp [h, hf]

theorem lost_modify_same (s : State) (w' : Nat) (f : PendingCheckpoint → PendingCheckpoint) (hf : ∀ x, (f x).pos = x.pos)
    (w : Nat) : ((s.waits.modify w' f)[w]?).any (·.pos.isLost) = lost s w := by
  rw [lost_modify s w' f (fun _ => false) fun x => by rw [hf, Bool.or_false]]
  simp

open PendingCheckpoint

theorem isLost_next (x : PendingCheckpoint) (w : Nat) : x.next.pos.isLost = (x.pos.isLost || x.givesUp (.wait w)) := by
  unfold PendingCheckpoint.next givesUp
  cases hpos : x.pos with
  | waiting => cases x.event <;> simp [hpos, WaitAt.isLost]
  | woken => cases x.cancelled <;> rfl
  | uncancelled => cases x.response <;> rfl
  | leaving outcome => simp [WaitAt.isLost]
  | left outcome => simp [hpos]
  | _ => rfl

theorem isLost_expire (x : PendingCheckpoint) (w : Nat) :
    x.expire.pos.isLost = (x.pos.isLost || x.givesUp (.timeout w)) := by
  unfold expire givesUp
  cases hpos : x.pos <;> simp [hpos, WaitAt.isLost, Outcome.isLost]

theorem lost_call (s : State) (t w : Nat) : lost (callNext s t) w = lost s w := by
  cases hc : s.calls[t]? with
  | none => rw [callNext_none hc]
  | some c =>
    cases c with
    | submit response pos =>
      rw [callNext_submit hc]
      cases pos with
      | start => cases hp : s.pending.get? response.runId <;> simp [submitNext, hp, lost]
      | found w => cases hw : s.waits[w]? <;> simp [submitNext, hw, lost]
      | matched w' => exact lost_modify_same s w' (.record response) (fun _ => rfl) w
      | _ => rfl
    | cancel runId pos =>
      rw [callNext_cancel hc]
      cases pos with
      | start => cases hp : s.pending.get? runId <;> simp [cancelNext, hp, lost]
      | found w' => exact lost_modify_same s w' .mark (fun _ => rfl) w
      | _ => rfl

theorem lost_step (s : State) (m : Move) (w : Nat) : lost (step s m) w = (lost s w || loses s m w) := by
  cases m with
  | start runId stepId =>
    have hloses : loses s (.start runId stepId) w = false := rfl
    rw [hloses, Bool.or_false, step, start]
    split
    · rw [lost, lost, getElem?_append]
      split
      · rfl
      · next h =>
        rw [getElem?_eq_none (Nat.le_of_not_lt h)]
        cases w - s.waits.length <;> rfl
    · rfl
  | submit runId stepId response reason extra => exact (Bool.or_false _).symm
  | cancel runId => exact (Bool.or_false _).symm
  | wait w' => exact lost_modify s w' .next _ (fun x => isLost_next x w') w
  | timeout w' => exact lost_modify s w' .expire _ (fun x => isLost_expire x w') w
  | callback =>
    have hloses : loses s .callback w = false := rfl
    rw [hloses, Bool.or_false, step, callback]
    split
    · rfl
    · next w' _ _ => exact lost_modify_same s w' .wake (fun _ => rfl) w
  | call t => exact (lost_call s t w).trans (Bool.or_false _).symm

theorem taken_step (s : State) (m : Move) (w : Nat) :
    taken (step s m) w = (takes? s m).toList.countP (·.1 = w) + taken s w := by
  rw [taken, (answers_step s m).countP_eq, countP_append, taken]

theorem spoiled_step (m : Move) (h : Spoiled s) : Spoiled (step s m) := by
  obtain ⟨w, h⟩ := h
  refine ⟨w, ?_⟩
  rw [taken_step, lost_step]
  rcases h with h | ⟨h, hlost⟩
  · exact .inl (by omega)
  · exact .inr ⟨by omega, by simp [hlost]⟩

theorem takes?_cases (s : State) (m : Move) (w : Nat) :
    (∃ response, takes? s m = some (w, response)) ∧ (takes? s m).toList.countP (·.1 = w) = 1 ∧ loses s m w = false ∨
      (∀ response, takes? s m ≠ some (w, response)) ∧ (takes? s m).toList.countP (·.1 = w) = 0 := by
  cases h : takes? s m with
  | none => exact .inr ⟨by simp, rfl⟩
  | some new =>
    obtain ⟨w', response⟩ := new
    by_cases hw : w' = w
    · subst hw
      refine .inl ⟨⟨response, rfl⟩, by simp, ?_⟩
      cases m <;> first | rfl | cases h
    · exact .inr ⟨by simp [hw], by simp [hw]⟩

theorem orderly_iff (m : Move) (h : ¬ Spoiled s) : Orderly s m ↔ ¬ Spoiled (step s m) := by
  have hs : ∀ w, taken s w = 0 ∨ taken s w = 1 ∧ lost s w = false := by
    intro w
    by_contra hw
    rw [not_or, not_and, Bool.not_eq_false] at hw
    refine h ⟨w, ?_⟩
    by_cases hone : taken s w = 1
    · exact .inr ⟨hone.ge, hw.2 hone⟩
    · exact .inl (by omega)
  constructor
  · rintro ⟨htakes, hloses⟩ ⟨w, hspoiled⟩
    rw [taken_step, lost_step, Bool.or_eq_true] at hspoiled
    rcases takes?_cases s m w with ⟨⟨response, hnew⟩, hcount, hkeeps⟩ | ⟨-, hcount⟩
    · obtain ⟨hzero, hlost⟩ := htakes w response hnew
      simp [hcount, hzero, hlost, hkeeps] at hspoiled
    · rcases hs w with hzero | ⟨hone, hlost⟩
      · simp [hcount, hzero] at hspoiled
      · have hkeeps : loses s m w ≠ true := fun hl => by simp [hloses w hl] at hone
        simp [hcount, hone, hlost, hkeeps] at hspoiled
  · intro hnot
    have hkept : ∀ w, ¬ (2 ≤ (takes? s m).toList.countP (·.1 = w) + taken s w ∨
        1 ≤ (takes? s m).toList.countP (·.1 = w) + taken s w ∧ (lost s w || loses s m w) = true) := by
      intro w hw
      rw [← taken_step, ← lost_step] at hw
      exact hnot ⟨w, hw⟩
    refine ⟨fun w response hnew => ?_, fun w hl => ?_⟩
    · have hw := hkept w
      rcases takes?_cases s m w with ⟨-, hcount, -⟩ | ⟨hno, -⟩
      · rw [hcount, not_or] at hw
        refine ⟨by omega, ?_⟩
        by_contra hlost
        exact hw.2 ⟨by omega, by simp [Bool.not_eq_false _ ▸ hlost]⟩
      · exact absurd hnew (hno response)
    · by_contra htaken
      exact hkept w (.inr ⟨by omega, by simp [hl]⟩)

theorem meets_orderly_iff (moves : List Move) : Meets step Orderly {} moves ↔ ¬ Spoiled (run step {} moves) :=
  meets_iff_not_spoiled (fun _ m => spoiled_step m) (fun _ m => orderly_iff m) fun ⟨_, h⟩ => by simp [taken] at h

end AteStudio.Checkpoint
