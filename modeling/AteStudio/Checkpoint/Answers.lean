import AteStudio.Checkpoint.Taking

/-! # Accepted answers -/

namespace AteStudio.Checkpoint

open Runs List Option

/-! ## The property -/

def Call.isDone : Call → Bool
  | .submit _ (.accepted _) => true
  | .submit _ .rejected => true
  | .cancel _ (.done _) => true
  | _ => false

def Call.accepted? : Call → Option (Nat × CheckpointResponse)
  | .submit response (.accepted w) => some (w, response)
  | _ => none

variable (s : State)

/-- Nothing is left to do for the calls, the loop and the waits, but to wait on. -/
structure Quiet : Prop where
  calls : ∀ c ∈ s.calls, c.isDone = true
  queue : s.queue = []
  waits : ∀ x ∈ s.waits, x.pos.isLeft = true ∨ x.pos = .waiting ∧ x.event = false

structure ActsOnAccepted : Prop where
  one : ∀ w, (s.calls.filterMap Call.accepted?).countP (·.1 = w) ≤ 1
  acted : ∀ w response, (w, response) ∈ s.calls.filterMap Call.accepted? →
    ∃ x, s.waits[w]? = some x ∧ x.pos = .left (.returned (some response))

/-! ## What the threads know -/

abbrev answers : List (Nat × CheckpointResponse) := s.calls.filterMap Call.answer?

def OutcomeOk (w : Nat) : Outcome → Prop
  | .returned response => ∃ r, response = some r ∧ (w, r) ∈ answers s
  | .withoutResponse => False
  | _ => True

/-- All that a wait knows comes from a submission that has taken it. -/
def PosOk (w : Nat) (x : PendingCheckpoint) : Prop :=
  match x.pos with
  | .woken => x.response ≠ none ∨ x.cancelled = true
  | .uncancelled => x.response ≠ none
  | .answered => x.response ≠ none
  | .leaving outcome => OutcomeOk s w outcome
  | .left outcome => OutcomeOk s w outcome
  | _ => True

structure WaitOk (w : Nat) (x : PendingCheckpoint) : Prop where
  woken : x.event = true ∨ w ∈ s.queue → x.response ≠ none ∨ x.cancelled = true
  response : ∀ r, x.response = some r → (w, r) ∈ answers s
  pos : PosOk s w x

def CallOk : Call → Prop
  | .submit _ (.found w) => w < s.waits.length
  | .submit _ (.matched w) => w < s.waits.length
  | .submit _ (.recorded w) => ∃ x, s.waits[w]? = some x ∧ x.response ≠ none
  | .submit _ (.scheduled w) => ∃ x, s.waits[w]? = some x ∧ (w ∈ s.queue ∨ x.event = true)
  | .submit _ (.accepted w) => ∃ x, s.waits[w]? = some x ∧ (w ∈ s.queue ∨ x.event = true)
  | .cancel _ (.found w) => w < s.waits.length
  | .cancel _ (.marked w) => ∃ x, s.waits[w]? = some x ∧ x.cancelled = true
  | _ => True

structure Sound : Prop where
  pending : ∀ runId w, s.pending.get? runId = some w → w < s.waits.length
  queue : ∀ w ∈ s.queue, w < s.waits.length
  wait : ∀ w x, s.waits[w]? = some x → WaitOk s w x
  call : ∀ c ∈ s.calls, CallOk s c

structure PendingCheckpoint.Grows (x x' : PendingCheckpoint) : Prop where
  event : x.event = true → x'.event = true
  response : x.response ≠ none → x'.response ≠ none
  cancelled : x.cancelled = true → x'.cancelled = true

structure Grows (s s' : State) : Prop where
  waits : ∀ (w : Nat) (x : PendingCheckpoint), s.waits[w]? = some x → ∃ x', s'.waits[w]? = some x' ∧ x.Grows x'
  queue : ∀ w ∈ s.queue, w ∈ s'.queue ∨ ∀ x', s'.waits[w]? = some x' → x'.event = true

variable {s s' : State} {w : Nat}

theorem Grows.length (h : Grows s s') (hw : w < s.waits.length) : w < s'.waits.length := by
  obtain ⟨x', hx', -⟩ := h.waits w _ (getElem?_eq_getElem hw)
  exact (List.getElem?_eq_some_iff.mp hx').1

theorem Grows.awake (h : Grows s s') (hw : ∃ x, s.waits[w]? = some x ∧ (w ∈ s.queue ∨ x.event = true)) :
    ∃ x, s'.waits[w]? = some x ∧ (w ∈ s'.queue ∨ x.event = true) := by
  obtain ⟨x, hx, hawake⟩ := hw
  obtain ⟨x', hx', hgrows⟩ := h.waits w x hx
  refine ⟨x', hx', ?_⟩
  rcases hawake with hqueue | hevent
  · exact (h.queue w hqueue).imp_right fun hset => hset x' hx'
  · exact .inr (hgrows.event hevent)

theorem CallOk.mono (h : Grows s s') {c : Call} (hc : CallOk s c) : CallOk s' c := by
  cases c with
  | submit response pos =>
    cases pos with
    | found w => exact h.length hc
    | matched w => exact h.length hc
    | recorded w =>
      obtain ⟨x, hx, hresponse⟩ := hc
      obtain ⟨x', hx', hgrows⟩ := h.waits w x hx
      exact ⟨x', hx', hgrows.response hresponse⟩
    | scheduled w => exact h.awake hc
    | accepted w => exact h.awake hc
    | _ => trivial
  | cancel runId pos =>
    cases pos with
    | found w => exact h.length hc
    | marked w =>
      obtain ⟨x, hx, hcancelled⟩ := hc
      obtain ⟨x', hx', hgrows⟩ := h.waits w x hx
      exact ⟨x', hx', hgrows.cancelled hcancelled⟩
    | _ => trivial

theorem OutcomeOk.mono (h : answers s ⊆ answers s') {outcome : Outcome} (ho : OutcomeOk s w outcome) :
    OutcomeOk s' w outcome := by
  cases outcome with
  | returned response =>
    obtain ⟨r, hr, hmem⟩ := ho
    exact ⟨r, hr, h hmem⟩
  | withoutResponse => exact ho
  | _ => trivial

theorem PosOk.mono (h : answers s ⊆ answers s') {x x' : PendingCheckpoint} (hpos : x'.pos = x.pos)
    (hgrows : x.Grows x') (hx : PosOk s w x) : PosOk s' w x' := by
  unfold PosOk at hx ⊢
  rw [hpos]
  revert hx
  cases x.pos with
  | woken => exact Or.imp hgrows.response hgrows.cancelled
  | uncancelled => exact hgrows.response
  | answered => exact hgrows.response
  | leaving outcome => exact OutcomeOk.mono h
  | left outcome => exact OutcomeOk.mono h
  | _ => exact id

theorem PendingCheckpoint.Grows.refl (x : PendingCheckpoint) : x.Grows x := ⟨id, id, id⟩

structure Follows (s s' : State) (w : Nat) (x x' : PendingCheckpoint) : Prop where
  grows : x.Grows x'
  event : x'.event = true → x.event = true ∨ w ∈ s.queue
  response : ∀ r, x'.response = some r → x.response = some r ∨ (w, r) ∈ answers s'
  pos : PosOk s' w x'

variable {x : PendingCheckpoint}

theorem Follows.same (h : WaitOk s w x) (hans : answers s ⊆ answers s') : Follows s s' w x x :=
  ⟨.refl x, .inl, fun _ => .inl, h.pos.mono hans rfl (.refl x)⟩

structure Steps (s s' : State) : Prop where
  answers : answers s ⊆ answers s'
  old : ∀ w x, s.waits[w]? = some x → ∃ x', s'.waits[w]? = some x' ∧ Follows s s' w x x'
  new : ∀ w x', s'.waits[w]? = some x' → s.waits[w]? = none → WaitOk s' w x'
  pending : ∀ runId w, s'.pending.get? runId = some w → s.pending.get? runId = some w ∨ w < s'.waits.length
  -- Only an entry with a response or a cancellation is queued.
  queued : ∀ w ∈ s'.queue, w ∈ s.queue ∨ ∃ x, s'.waits[w]? = some x ∧ (x.response ≠ none ∨ x.cancelled = true)
  popped : ∀ w ∈ s.queue, w ∈ s'.queue ∨ ∀ x', s'.waits[w]? = some x' → x'.event = true
  call : ∀ c ∈ s'.calls, c ∈ s.calls ∨ CallOk s' c

theorem Sound.next (h : Sound s) (hsteps : Steps s s') : Sound s' := by
  have hgrows : Grows s s' := by
    refine ⟨fun w x hx => ?_, hsteps.popped⟩
    obtain ⟨x', hx', hfollows⟩ := hsteps.old w x hx
    exact ⟨x', hx', hfollows.grows⟩
  have hlt : ∀ {w : Nat} {x : PendingCheckpoint}, s'.waits[w]? = some x → w < s'.waits.length := fun hx =>
    (List.getElem?_eq_some_iff.mp hx).1
  refine ⟨fun runId w hw => ?_, fun w hw => ?_, fun w x' hx' => ?_, fun c hc => ?_⟩
  · exact (hsteps.pending runId w hw).elim (fun hold => hgrows.length (h.pending runId w hold)) id
  · rcases hsteps.queued w hw with hold | ⟨x, hx, -⟩
    · exact hgrows.length (h.queue w hold)
    · exact hlt hx
  · cases hx : s.waits[w]? with
    | none => exact hsteps.new w x' hx' hx
    | some x =>
      obtain ⟨x'', hx'', hfollows⟩ := hsteps.old w x hx
      obtain rfl : x' = x'' := some.inj (hx'.symm.trans hx'')
      have hok := h.wait w x hx
      have hold : x.event = true ∨ w ∈ s.queue → x'.response ≠ none ∨ x'.cancelled = true := fun hw =>
        (hok.woken hw).imp hfollows.grows.response hfollows.grows.cancelled
      refine ⟨?_, fun r hr => ?_, hfollows.pos⟩
      · rintro (hevent | hqueue)
        · exact hold (hfollows.event hevent)
        · rcases hsteps.queued w hqueue with hq | ⟨y, hy, hset⟩
          · exact hold (.inr hq)
          · obtain rfl : x' = y := some.inj (hx'.symm.trans hy)
            exact hset
      · exact (hfollows.response r hr).elim (fun hold => hsteps.answers (hok.response r hold)) id
  · exact (hsteps.call c hc).elim (fun hold => (h.call c hold).mono hgrows) id

open PendingCheckpoint

section Moves

variable {s s' : State} {w t : Nat} {f : PendingCheckpoint → PendingCheckpoint} {c : Call}

theorem no_new (hlength : s'.waits.length = s.waits.length) (w : Nat) (x' : PendingCheckpoint)
    (hx' : s'.waits[w]? = some x') (hx : s.waits[w]? = none) : WaitOk s' w x' := by
  have hlt := (List.getElem?_eq_some_iff.mp hx').1
  have hge := getElem?_eq_none_iff.mp hx
  omega

theorem clear_get? {w' : Nat} {runId : String} (hw : (clear s w).get? runId = some w') :
    s.pending.get? runId = some w' := by
  unfold clear at hw
  split at hw
  · split at hw
    · rw [Dict.get?_erase] at hw
      split at hw
      · cases hw
      · exact hw
    · exact hw
  · exact hw

theorem Follows.moveTo {pos : WaitAt} (hpos : PosOk s' w { x with pos }) : Follows s s' w x { x with pos } :=
  ⟨⟨id, id, id⟩, .inl, fun _ => .inl, hpos⟩

theorem follows_next (hx : WaitOk s w x) : Follows s (waitNext s w) w x x.next := by
  have hsame : Follows s (waitNext s w) w x x := .same hx fun _ ha => ha
  have hpos := hx.pos
  unfold PosOk at hpos
  unfold PendingCheckpoint.next
  revert hpos
  cases x.pos with
  | notifying => exact fun _ => .moveTo trivial
  | waiting =>
    intro _
    simp only
    split
    · next hevent => exact .moveTo (hx.woken (.inl hevent))
    · exact hsame
  | woken =>
    refine fun hpos => .moveTo ?_
    by_cases hcancelled : x.cancelled = true
    · simp [PosOk, hcancelled, OutcomeOk]
    · simpa [PosOk, hcancelled] using hpos
  | uncancelled => exact fun hpos => .moveTo (by simp [PosOk, hpos])
  | answered =>
    intro hpos
    obtain ⟨r, hr⟩ := ne_none_iff_exists'.mp hpos
    exact .moveTo ⟨r, hr, hx.response r hr⟩
  | leaving outcome => exact fun hpos => .moveTo hpos
  | left outcome => exact fun _ => hsame

theorem answers_set {c' : Call} (hc : s.calls[t]? = some c) (h : c.answer? = none ∨ c'.answer? = c.answer?) :
    answers s ⊆ (s.calls.set t c').filterMap Call.answer? := by
  by_cases heq : c'.answer? = c.answer?
  · rw [filterMap_set_of_eq hc heq]
    exact fun _ ha => ha
  · have hnone := h.resolve_right heq
    rw [hnone] at heq
    obtain ⟨a, ha⟩ := ne_none_iff_exists'.mp heq
    exact fun _ hmem => (filterMap_set_of_some hc hnone ha).mem_iff.mpr (mem_cons_of_mem a hmem)

theorem mem_set_call {c' : Call} (hcalls : s'.calls = s.calls.set t c') (hok : CallOk s' c') :
    ∀ c ∈ s'.calls, c ∈ s.calls ∨ CallOk s' c := by
  intro c hmem
  rw [hcalls] at hmem
  rcases mem_or_eq_of_mem_set hmem with hold | rfl
  · exact .inl hold
  · exact .inr hok

theorem getElem?_modify_self (hw : w < s.waits.length) (f : PendingCheckpoint → PendingCheckpoint) :
    ∃ x, (s.waits.modify w f)[w]? = some (f x) :=
  ⟨s.waits[w], by rw [getElem?_modify_eq, getElem?_eq_getElem hw]; rfl⟩

section

variable (h : Sound s)

include h

theorem Follows.all (hans : answers s ⊆ answers s') (hwaits : s'.waits = s.waits) (w : Nat)
    (x : PendingCheckpoint) (hx : s.waits[w]? = some x) : ∃ x', s'.waits[w]? = some x' ∧ Follows s s' w x x' :=
  ⟨x, hwaits ▸ hx, .same (h.wait w x hx) hans⟩

theorem Follows.one (hans : answers s ⊆ answers s') {w₀ : Nat} (hwaits : s'.waits = s.waits.modify w₀ f)
    (hf : ∀ x, s.waits[w₀]? = some x → Follows s s' w₀ x (f x)) (w : Nat) (x : PendingCheckpoint)
    (hx : s.waits[w]? = some x) : ∃ x', s'.waits[w]? = some x' ∧ Follows s s' w x x' := by
  rw [hwaits, getElem?_modify, hx]
  by_cases hw : w₀ = w
  · subst hw
    exact ⟨f x, by simp, hf x hx⟩
  · exact ⟨x, by simp [hw], .same (h.wait w x hx) hans⟩

theorem sound_start (runId stepId : String) : Sound (start s runId stepId) := by
  unfold start
  split
  · refine h.next ⟨fun _ ha => ha, fun w x hx => ?_, fun w x' hx' hx => ?_, fun run w hw => ?_, fun _ hw => .inl hw,
      fun _ hw => .inl hw, fun _ hc => .inl hc⟩
    · have hlt := (List.getElem?_eq_some_iff.mp hx).1
      exact ⟨x, by rw [getElem?_append_left hlt, hx], .same (h.wait w x hx) fun _ ha => ha⟩
    · -- The new entry is not queued: the queue has entries that were there before.
      have hge := getElem?_eq_none_iff.mp hx
      rw [getElem?_append_right hge, getElem?_singleton] at hx'
      split at hx'
      · obtain rfl := some.inj hx'
        refine ⟨?_, fun r hr => (by cases hr), trivial⟩
        rintro (hevent | hqueue)
        · cases hevent
        · exact absurd (h.queue w hqueue) (by omega)
      · cases hx'
    · rw [Dict.get?_set] at hw
      split at hw
      · obtain rfl := some.inj hw
        exact .inr (by simp)
      · exact .inl hw
  · exact h

theorem sound_waitNext (w : Nat) : Sound (waitNext s w) := by
  refine h.next ⟨fun _ ha => ha, Follows.one h (fun _ ha => ha) rfl fun x hx => follows_next (h.wait w x hx),
    no_new (length_modify _ _ _), fun _ _ hw => .inl (clear_get? hw), fun _ hw => .inl hw, fun _ hw => .inl hw,
    fun _ hc => .inl hc⟩

theorem sound_timeout (w : Nat) : Sound (step s (.timeout w)) := by
  have hans : answers s ⊆ answers (step s (.timeout w)) := fun _ ha => ha
  refine h.next ⟨hans, Follows.one h hans rfl fun x hx => ?_, no_new (length_modify _ _ _), fun _ _ hw => .inl hw,
    fun _ hw => .inl hw, fun _ hw => .inl hw, fun _ hc => .inl hc⟩
  unfold expire
  split
  · exact ⟨⟨id, id, id⟩, .inl, fun _ => .inl, trivial⟩
  · exact .same (h.wait w x hx) hans

theorem sound_callback : Sound (callback s) := by
  unfold callback
  split
  · exact h
  · next w rest hqueue =>
    refine h.next ⟨fun _ ha => ha, Follows.one h (fun _ ha => ha) rfl fun x hx => ?_, no_new (length_modify _ _ _),
      fun _ _ hw => .inl hw, fun w' hw' => .inl ?_, fun w' hw' => ?_, fun _ hc => .inl hc⟩
    · refine ⟨⟨fun _ => rfl, id, id⟩, fun _ => .inr ?_, fun _ => .inl, ?_⟩
      · simp [hqueue]
      · exact (h.wait w x hx).pos.mono (fun _ ha => ha) rfl ⟨fun _ => rfl, id, id⟩
    · rw [hqueue]
      exact mem_cons_of_mem w hw'
    · rw [hqueue] at hw'
      rcases mem_cons.mp hw' with rfl | hw'
      · right
        intro x' hx'
        simp only [getElem?_modify_eq] at hx'
        obtain ⟨x, -, rfl⟩ := map_eq_some_iff.mp hx'
        rfl
      · exact .inl hw'

theorem sound_call (c' : Call) (hc : s.calls[t]? = some c)
    (hanswer : c.answer? = none ∨ c'.answer? = c.answer?) (hok : CallOk s c') :
    Sound { s with calls := s.calls.set t c' } := by
  have hans := answers_set hc hanswer
  exact h.next ⟨hans, Follows.all h hans rfl, no_new rfl, fun _ _ hw => .inl hw, fun _ hw => .inl hw, fun _ hw => .inl hw,
    mem_set_call rfl hok⟩

theorem sound_schedule (c' : Call) (hc : s.calls[t]? = some c)
    (hanswer : c'.answer? = c.answer?) (hx : s.waits[w]? = some x) (hset : x.response ≠ none ∨ x.cancelled = true)
    (hok : CallOk { s with queue := s.queue ++ [w] } c') :
    Sound { s with calls := s.calls.set t c', queue := s.queue ++ [w] } := by
  have hans := answers_set hc (.inr hanswer)
  refine h.next ⟨hans, Follows.all h hans rfl, no_new rfl, fun _ _ hw => .inl hw, fun w' hw' => ?_,
    fun w' hw' => .inl (mem_append_left _ hw'), mem_set_call rfl hok⟩
  rcases mem_append.mp hw' with hw' | hw'
  · exact .inl hw'
  · exact .inr ⟨x, mem_singleton.mp hw' ▸ hx, hset⟩

theorem sound_write (c' : Call)
    (hc : s.calls[t]? = some c) (hanswer : c'.answer? = c.answer?) (hpos : ∀ x, (f x).pos = x.pos)
    (hevent : ∀ x, (f x).event = x.event) (hgrows : ∀ x : PendingCheckpoint, x.Grows (f x))
    (hresponse : ∀ x r, (f x).response = some r → x.response = some r ∨ c'.answer? = some (w, r))
    (hok : CallOk { s with waits := s.waits.modify w f } c') :
    Sound { s with waits := s.waits.modify w f, calls := s.calls.set t c' } := by
  have hans := answers_set hc (.inr hanswer)
  have hmem : c' ∈ s.calls.set t c' := mem_set (List.getElem?_eq_some_iff.mp hc).1 c'
  refine h.next ⟨hans, Follows.one h hans rfl fun x hx => ?_, no_new (length_modify _ _ _), fun _ _ hw => .inl hw,
    fun _ hw => .inl hw, fun _ hw => .inl hw, mem_set_call rfl hok⟩
  refine ⟨hgrows x, fun he => .inl (hevent x ▸ he), fun r hr => ?_, (h.wait w x hx).pos.mono hans (hpos x) (hgrows x)⟩
  exact (hresponse x r hr).imp_right fun ha => mem_filterMap.mpr ⟨c', hmem, ha⟩

theorem sound_submitNext {response : CheckpointResponse} {pos : SubmitAt}
    (hc : s.calls[t]? = some (.submit response pos)) : Sound (callNext s t) := by
  have hok := h.call _ (mem_of_getElem? hc)
  rw [callNext_submit hc]
  cases pos with
  | start =>
    cases hp : s.pending.get? response.runId with
    | none => simpa only [submitNext, hp] using sound_call h (.submit response .rejected) hc (.inl rfl) trivial
    | some w =>
      simpa only [submitNext, hp] using sound_call h (.submit response (.found w)) hc (.inl rfl) (h.pending _ w hp)
  | found w =>
    cases hx : s.waits[w]? with
    | none => simpa only [submitNext, hx] using sound_call h (.submit response (.found w)) hc (.inl rfl) hok
    | some x =>
      simp only [submitNext, hx]
      split
      · exact sound_call h (.submit response (.matched w)) hc (.inl rfl) hok
      · exact sound_call h (.submit response .rejected) hc (.inl rfl) trivial
  | matched w =>
    refine sound_write h (.submit response (.recorded w)) hc rfl (fun _ => rfl) (fun _ => rfl)
      (fun _ => ⟨id, fun _ => by simp [record], id⟩) (fun x r hr => .inr ?_) ?_
    · rw [← some.inj hr]
      rfl
    · obtain ⟨x, hx⟩ := getElem?_modify_self hok (.record response)
      exact ⟨_, hx, by simp [record]⟩
  | recorded w =>
    obtain ⟨x, hx, hresponse⟩ := hok
    exact sound_schedule h (.submit response (.scheduled w)) hc rfl hx (.inl hresponse) ⟨x, hx, .inl (by simp)⟩
  | scheduled w => exact sound_call h (.submit response (.accepted w)) hc (.inr rfl) hok
  | accepted w => exact sound_call h _ hc (.inr rfl) hok
  | rejected => exact sound_call h _ hc (.inr rfl) hok

theorem sound_cancelNext {runId : String} {pos : CancelAt}
    (hc : s.calls[t]? = some (.cancel runId pos)) : Sound (callNext s t) := by
  have hok := h.call _ (mem_of_getElem? hc)
  rw [callNext_cancel hc]
  cases pos with
  | start =>
    cases hp : s.pending.get? runId with
    | none => simpa only [cancelNext, hp] using sound_call h (.cancel runId (.done false)) hc (.inl rfl) trivial
    | some w => simpa only [cancelNext, hp] using sound_call h (.cancel runId (.found w)) hc (.inl rfl) (h.pending _ w hp)
  | found w =>
    refine sound_write h (.cancel runId (.marked w)) hc rfl (fun _ => rfl) (fun _ => rfl)
      (fun _ => ⟨id, id, fun _ => rfl⟩) (fun x r hr => .inl hr) ?_
    obtain ⟨x, hx⟩ := getElem?_modify_self hok .mark
    exact ⟨_, hx, rfl⟩
  | marked w =>
    obtain ⟨x, hx, hcancelled⟩ := hok
    exact sound_schedule h (.cancel runId (.scheduled w)) hc rfl hx (.inr hcancelled) trivial
  | scheduled w => exact sound_call h (.cancel runId (.done true)) hc (.inl rfl) trivial
  | done found => exact sound_call h _ hc (.inl rfl) trivial

theorem sound_newCall (hok : CallOk s c) : Sound { s with calls := s.calls ++ [c] } := by
  have hans : answers s ⊆ (s.calls ++ [c]).filterMap Call.answer? := by
    rw [filterMap_append]
    exact subset_append_left _ _
  refine h.next ⟨hans, Follows.all h hans rfl, no_new rfl, fun _ _ hw => .inl hw, fun _ hw => .inl hw,
    fun _ hw => .inl hw,
    fun c' hc' => ?_⟩
  rcases mem_append.mp hc' with hold | hnew
  · exact .inl hold
  · obtain rfl := mem_singleton.mp hnew
    exact .inr hok

theorem sound_step (m : Move) : Sound (step s m) := by
  cases m with
  | start runId stepId => exact sound_start h runId stepId
  | submit runId stepId response reason extra => exact sound_newCall h trivial
  | cancel runId => exact sound_newCall h trivial
  | wait w => exact sound_waitNext h w
  | timeout w => exact sound_timeout h w
  | callback => exact sound_callback h
  | call t =>
    rw [step]
    cases hc : s.calls[t]? with
    | none => rwa [callNext_none hc]
    | some c =>
      cases c with
      | submit response pos => exact sound_submitNext h hc
      | cancel runId pos => exact sound_cancelNext h hc

end

end Moves

theorem sound_run (moves : List Move) : Sound (run step {} moves) := by
  have hstart : Sound {} := ⟨by simp, by simp, by simp, by simp⟩
  exact run_always (fun s m (h : Sound s) => sound_step h m) hstart moves

/-- A wait never ends without its answer, and returns only one that a submission has matched with it. -/
def Answered (s : State) : Prop :=
  ∀ w x outcome, s.waits[w]? = some x → x.pos = .left outcome → OutcomeOk s w outcome

theorem answered_run (moves : List Move) : Answered (run step {} moves) := by
  intro w x outcome hx hleft
  have hpos := ((sound_run moves).wait w x hx).pos
  rwa [PosOk, hleft] at hpos

/-! ## The answers that are acted on -/

theorem accepted_eq_answers (hquiet : Quiet s) : s.calls.filterMap Call.accepted? = answers s := by
  refine filterMap_congr fun c hc => ?_
  have hdone := hquiet.calls c hc
  cases c with
  | submit response pos => cases pos <;> first | rfl | cases hdone
  | cancel runId pos => rfl

theorem left_of_accepted (h : Sound s) (hquiet : Quiet s) {response : CheckpointResponse}
    (hmem : (w, response) ∈ s.calls.filterMap Call.accepted?) :
    ∃ x outcome, s.waits[w]? = some x ∧ x.pos = .left outcome ∧ OutcomeOk s w outcome := by
  obtain ⟨c, hc, hanswer⟩ := mem_filterMap.mp hmem
  have hcall : ∃ x, s.waits[w]? = some x ∧ (w ∈ s.queue ∨ x.event = true) := by
    have hok := h.call c hc
    cases c with
    | cancel runId pos => cases hanswer
    | submit r pos =>
      cases pos with
      | accepted w' =>
        cases hanswer
        exact hok
      | _ => cases hanswer
  obtain ⟨x, hx, hawake⟩ := hcall
  have hevent : x.event = true := hawake.resolve_left (by simp [hquiet.queue])
  have hpos := (h.wait w x hx).pos
  unfold PosOk at hpos
  rcases hquiet.waits x (mem_of_getElem? hx) with hleft | ⟨-, hnot⟩
  · cases hp : x.pos with
    | left outcome =>
      rw [hp] at hpos
      exact ⟨x, outcome, hx, hp, hpos⟩
    | _ =>
      rw [hp] at hleft
      cases hleft
  · rw [hevent] at hnot
    cases hnot

theorem eq_of_taken_le_one (h : taken s w ≤ 1) {r r' : CheckpointResponse} (hr : (w, r) ∈ answers s)
    (hr' : (w, r') ∈ answers s) : r = r' := by
  by_contra hne
  have hpair : [(w, r), (w, r')].Nodup := by simpa using hne
  have hsub : [(w, r), (w, r')] ⊆ (answers s).filter (·.1 = w) := by simp [hr, hr']
  rw [taken, countP_eq_length_filter] at h
  exact absurd ((subperm_of_subset hpair hsub).length_le.trans h) (by simp)

theorem actsOnAccepted_iff (moves : List Move) (hquiet : Quiet (run step {} moves)) :
    ActsOnAccepted (run step {} moves) ↔ Meets step Orderly {} moves := by
  rw [meets_orderly_iff]
  have hsound := sound_run moves
  generalize run step {} moves = s at *
  have haccepted := accepted_eq_answers hquiet
  constructor
  · rintro ⟨hone, hacted⟩ ⟨w, hspoiled⟩
    rw [haccepted] at hone hacted
    rcases hspoiled with htwo | ⟨htaken, hlost⟩
    · have := hone w
      rw [← taken] at this
      omega
    · obtain ⟨⟨w', response⟩, hmem, hw⟩ := List.countP_pos_iff.mp (show 0 < (answers s).countP (·.1 = w) from htaken)
      obtain rfl : w' = w := by simpa using hw
      obtain ⟨x, hx, hpos⟩ := hacted w' response hmem
      simp [lost, hx, hpos, WaitAt.isLost, Outcome.isLost] at hlost
  · intro hnot
    have hone : ∀ w, taken s w ≤ 1 := by
      intro w
      by_contra htwo
      exact hnot ⟨w, .inl (by omega)⟩
    refine ⟨fun w => haccepted ▸ hone w, fun w response hmem => ?_⟩
    obtain ⟨x, outcome, hx, hpos, hok⟩ := left_of_accepted hsound hquiet hmem
    rw [haccepted] at hmem
    have hkept : lost s w ≠ true := fun hlost =>
      hnot ⟨w, .inr ⟨List.countP_pos_iff.mpr ⟨_, hmem, by simp⟩, hlost⟩⟩
    refine ⟨x, hx, ?_⟩
    cases outcome with
    | returned r =>
      obtain ⟨r, rfl, hr⟩ := hok
      rw [hpos, eq_of_taken_le_one (hone w) hr hmem]
    | withoutResponse => exact hok.elim
    | timedOut => exact absurd (by simp [lost, hx, hpos, WaitAt.isLost, Outcome.isLost]) hkept
    | cancelled => exact absurd (by simp [lost, hx, hpos, WaitAt.isLost, Outcome.isLost]) hkept

def answeredMoves : List Move :=
  [.start "run" "step", .wait 0, .submit "run" "step" "ok" none none] ++ List.replicate 5 (.call 0) ++ [.callback] ++
    List.replicate 5 (.wait 0)

def okResponse : CheckpointResponse where
  runId := "run"
  stepId := "step"
  response := "ok"

def leftState (outcome : Outcome) (timedOut : Bool) (calls : List Call) (response : CheckpointResponse) : State where
  waits := [{
    runId := "run", stepId := "step", event := true, response := some response, timedOut, pos := .left outcome }]
  calls

theorem quiet_leftState {outcome : Outcome} {timedOut : Bool} {calls : List Call} {response : CheckpointResponse}
    (h : ∀ c ∈ calls, c.isDone = true) : Quiet (leftState outcome timedOut calls response) :=
  ⟨h, rfl, fun x hx => .inl (by rw [mem_singleton.mp hx]; rfl)⟩

theorem actsOnAccepted_answeredMoves :
    Quiet (run step {} answeredMoves) ∧ ActsOnAccepted (run step {} answeredMoves) ∧
      Meets step Orderly {} answeredMoves := by
  have hstate : run step {} answeredMoves =
      leftState (.returned (some okResponse)) false [.submit okResponse (.accepted 0)] okResponse := rfl
  have hquiet : Quiet (run step {} answeredMoves) := hstate ▸ quiet_leftState (by simp [Call.isDone])
  have hacts : ActsOnAccepted (run step {} answeredMoves) := by
    rw [hstate]
    refine ⟨fun w => List.countP_le_length, fun w response hmem => ?_⟩
    obtain ⟨rfl, rfl⟩ := Prod.mk.inj (List.mem_singleton.mp hmem)
    exact ⟨_, rfl, rfl⟩
  exact ⟨hquiet, hacts, (actsOnAccepted_iff answeredMoves hquiet).mp hacts⟩

def lateMoves : List Move :=
  [.start "run" "step", .wait 0, .submit "run" "step" "ok" none none] ++ List.replicate 5 (.call 0) ++
    [.timeout 0, .wait 0, .callback]

def twoMoves : List Move :=
  [.start "run" "step", .wait 0, .submit "run" "step" "ok" none none, .submit "run" "step" "fail" none none] ++
    List.replicate 5 (.call 0) ++ List.replicate 5 (.call 1) ++ [.callback, .callback] ++ List.replicate 5 (.wait 0)

theorem not_actsOnAccepted_lateMoves :
    (Quiet (run step {} lateMoves) ∧ ¬ ActsOnAccepted (run step {} lateMoves)) ∧
      Quiet (run step {} twoMoves) ∧ ¬ ActsOnAccepted (run step {} twoMoves) := by
  have hlate : run step {} lateMoves = leftState .timedOut true [.submit okResponse (.accepted 0)] okResponse := rfl
  have htwo : run step {} twoMoves =
      leftState (.returned (some { okResponse with response := "fail" })) false
        [.submit okResponse (.accepted 0), .submit { okResponse with response := "fail" } (.accepted 0)]
        { okResponse with response := "fail" } := rfl
  rw [hlate, htwo]
  refine ⟨⟨quiet_leftState (by simp [Call.isDone]), fun h => ?_⟩, quiet_leftState (by simp [Call.isDone]), fun h => ?_⟩
  · obtain ⟨x, hx, hpos⟩ := h.acted 0 okResponse List.mem_cons_self
    obtain rfl := some.inj hx
    cases hpos
  · exact absurd (h.one 0) (by decide)

end AteStudio.Checkpoint
