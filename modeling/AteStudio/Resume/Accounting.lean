import AteStudio.Resume.Code

/-!
# Rows and messages

The database is addressed by the step inside the payload of a row.
-/

namespace AteStudio.Resume

open List

namespace ResumeManager

variable (cfg : Config) (s : ResumeManager)

def held : Option PendingMessage :=
  match s.phase with
  | .idle => none
  | .attempting m | .removing m | .updating m | .backoff m => some m

def live : List PendingMessage := s.held.toList ++ s.pending

def payload? (r : Submission) : Option Payload := buildPayload? cfg (message 0 r)

def Done (number : Nat) : Prop := number ∈ s.published.map Prod.fst ∨ number ∈ s.exhausted

/-- A row goes only when its message is done, and holds its payload and retry count. -/
structure Accounted : Prop where
  kept : ∀ number ∈ s.persisted, number ∈ s.rows.map Row.owner ∨ s.Done number
  own : ∀ row ∈ s.rows, (∃ r, s.submitted[row.owner]? = some r ∧ payload? cfg r = some row.payload) ∧
    (row.owner, row.retryCount) ∈ s.counted

/-- Steps are submitted again, and rows loaded, only when nothing is left in memory. -/
def Fresh : Move → Prop
  | .submit result _ => result.stepId ∉ s.rows.map (·.payload.stepId) ∧ result.stepId ∉ s.live.map PendingMessage.stepId
  | .retryPending => s.live.length = 0
  | _ => True

instance : ∀ m, Decidable (s.Fresh m)
  | .submit .. => inferInstanceAs (Decidable (_ ∧ _))
  | .retryPending => inferInstanceAs (Decidable (_ = _))
  | .take | .attempted _ | .removed | .updated | .requeued | .stop _ | .restart => isTrue trivial

/-! ## Steps name messages -/

variable {m : PendingMessage}

theorem stepId_of_buildPayload? {p : Payload} (h : buildPayload? cfg m = some p) : p.stepId = m.stepId := by
  simp only [buildPayload?, Option.bind_eq_bind, Option.bind_eq_some_iff, pure, Option.some.injEq] at h
  obtain ⟨_, _, _, _, rfl⟩ := h
  rfl

/-- The step of its result, and its payload if one can be built. -/
structure Carries (m : PendingMessage) : Prop where
  result : ∃ r, s.submitted[m.number]? = some r ∧ r.stepId = m.stepId ∧
    ∀ p, buildPayload? cfg m = some p → payload? cfg r = some p
  count : (m.number, m.retryCount) ∈ s.counted

structure Inv : Prop where
  accounted : s.Accounted cfg
  carries : ∀ m ∈ s.live, s.Carries cfg m
  -- A step names one row and one message in memory, and these belong together.
  rows : (s.rows.map (·.payload.stepId)).Nodup
  messages : (s.live.map PendingMessage.stepId).Nodup
  same : ∀ row ∈ s.rows, ∀ m ∈ s.live, row.payload.stepId = m.stepId → row.owner = m.number
  removing : ∀ m, s.phase = .removing m → s.Done m.number

structure Continues (s' : ResumeManager) (m m' : PendingMessage) : Prop where
  number : m'.number = m.number
  stepId : m'.stepId = m.stepId
  payload : buildPayload? cfg m' = buildPayload? cfg m
  count : (m'.number, m'.retryCount) ∈ s'.counted

variable {cfg s} {s' : ResumeManager}

/-! ## Changes in memory -/

structure Extends (s s' : ResumeManager) : Prop where
  rows : s'.rows = s.rows
  submitted : s'.submitted = s.submitted
  persisted : s'.persisted = s.persisted
  counted : s.counted ⊆ s'.counted
  published : s.published ⊆ s'.published
  exhausted : s.exhausted ⊆ s'.exhausted

theorem extends_memory (s : ResumeManager) (pending : List PendingMessage) (phase : Phase) (mode : Mode) :
    Extends s { s with pending, phase, mode } :=
  ⟨rfl, rfl, rfl, Subset.refl _, Subset.refl _, Subset.refl _⟩

theorem Extends.done (h : Extends s s') {number : Nat} (hd : s.Done number) : s'.Done number :=
  hd.imp (fun hp => map_subset _ h.published hp) fun he => h.exhausted he

theorem Extends.accounted (h : Extends s s') (ha : s.Accounted cfg) : s'.Accounted cfg where
  kept number hn := by
    rw [h.rows]
    exact (ha.kept number (h.persisted ▸ hn)).imp_right h.done
  own row hrow := by
    obtain ⟨hpayload, hcount⟩ := ha.own row (h.rows ▸ hrow)
    rw [h.submitted]
    exact ⟨hpayload, h.counted hcount⟩

theorem Inv.memory (h : s.Inv cfg) (he : Extends s s')
    (hlive : ∀ m' ∈ s'.live, ∃ m ∈ s.live, Continues cfg s' m m') (hnodup : (s'.live.map PendingMessage.stepId).Nodup)
    (hremoving : ∀ m, s'.phase = .removing m → s'.Done m.number) : s'.Inv cfg where
  accounted := he.accounted h.accounted
  carries m' hm' := by
    obtain ⟨m, hm, hc⟩ := hlive m' hm'
    obtain ⟨r, hr, hstep, hpayload⟩ := (h.carries m hm).result
    refine ⟨⟨r, by rw [he.submitted, hc.number, hr], hstep.trans hc.stepId.symm, fun p hp => hpayload p ?_⟩, hc.count⟩
    rw [← hc.payload, hp]
  rows := he.rows ▸ h.rows
  messages := hnodup
  same row hrow m' hm' heq := by
    obtain ⟨m, hm, hc⟩ := hlive m' hm'
    rw [hc.number]
    exact h.same row (he.rows ▸ hrow) m hm (heq.trans hc.stepId)
  removing := hremoving

theorem Inv.memory_subset (h : s.Inv cfg) (he : Extends s s') (hlive : ∀ m ∈ s'.live, m ∈ s.live)
    (hnodup : (s'.live.map PendingMessage.stepId).Nodup)
    (hremoving : ∀ m, s'.phase = .removing m → s'.Done m.number) : s'.Inv cfg :=
  h.memory he (fun m hm => ⟨m, hlive m hm, rfl, rfl, rfl, he.counted (h.carries m (hlive m hm)).count⟩) hnodup hremoving

theorem Inv.memory_perm (h : s.Inv cfg) (he : Extends s s') (hperm : s'.live.Perm s.live)
    (hremoving : ∀ m, s'.phase = .removing m → s'.Done m.number) : s'.Inv cfg :=
  h.memory_subset he (fun _ hm => hperm.mem_iff.mp hm) ((hperm.map _).nodup_iff.mpr h.messages) hremoving

theorem Inv.drop (h : s.Inv cfg) (mode : Mode) : ({ s with phase := .idle, mode } : ResumeManager).Inv cfg := by
  have hsub : Sublist s.pending s.live := sublist_append_right _ _
  exact h.memory_subset (extends_memory s _ _ _) (fun _ hm => hsub.subset hm) (h.messages.sublist (hsub.map _))
    fun _ hm => nomatch hm

/-! ## Changes in the table -/

theorem Inv.remove (h : s.Inv cfg) (hm : m ∈ s.live) (hd : s.Done m.number) : (s.removeMessage m.stepId).Inv cfg where
  accounted :=
    { kept := fun number hn => by
        rcases h.accounted.kept number hn with howner | hdone
        · obtain ⟨row, hrow, rfl⟩ := mem_map.mp howner
          by_cases hstep : row.payload.stepId = m.stepId
          · exact .inr (h.same row hrow m hm hstep ▸ hd)
          · exact .inl (mem_map_of_mem (mem_filter.mpr ⟨hrow, decide_eq_true hstep⟩))
        · exact .inr hdone
      own := fun row hrow => h.accounted.own row (mem_of_mem_filter hrow) }
  carries m hm := ⟨(h.carries m hm).result, (h.carries m hm).count⟩
  rows := h.rows.sublist (filter_sublist.map _)
  messages := h.messages
  same row hrow := h.same row (mem_of_mem_filter hrow)
  removing := h.removing

theorem Inv.update (h : s.Inv cfg) (hm : m ∈ s.live) : (s.updateRetryCount cfg m).Inv cfg := by
  unfold updateRetryCount
  split
  · next p hp =>
    have hstep := stepId_of_buildPayload? cfg hp
    -- Neither the owners of the rows nor their steps change.
    have howner (row : Row) : (if row.payload.stepId = m.stepId then { row with payload := p, retryCount := m.retryCount }
        else row).owner = row.owner := by
      split <;> rfl
    have hsteps (row : Row) : (if row.payload.stepId = m.stepId then { row with payload := p, retryCount := m.retryCount }
        else row).payload.stepId = row.payload.stepId := by
      split
      · next heq => exact hstep.trans heq.symm
      · rfl
    refine ⟨⟨fun number hn => ?_, fun row' hrow' => ?_⟩, fun m hm => ⟨(h.carries m hm).result, (h.carries m hm).count⟩,
      ?_, h.messages, fun row' hrow' => ?_, h.removing⟩
    · rw [map_map]
      refine (h.accounted.kept number hn).imp_left fun hmem => ?_
      obtain ⟨row, hrow, rfl⟩ := mem_map.mp hmem
      exact mem_map.mpr ⟨row, hrow, howner row⟩
    · obtain ⟨row, hrow, rfl⟩ := mem_map.mp hrow'
      rw [howner]
      split
      · next heq =>
        obtain ⟨r, hr, -, hpayload⟩ := (h.carries m hm).result
        rw [h.same row hrow m hm heq]
        exact ⟨⟨r, hr, hpayload p hp⟩, (h.carries m hm).count⟩
      · exact h.accounted.own row hrow
    · rw [map_map]
      simpa only [Function.comp_def, hsteps] using h.rows
    · obtain ⟨row, hrow, rfl⟩ := mem_map.mp hrow'
      rw [howner, hsteps]
      exact h.same row hrow
  · exact h

theorem mem_loadPendingMessages : m ∈ s.loadPendingMessages ↔ ∃ row ∈ s.rows, reload row = m := by
  simp only [loadPendingMessages, mem_map, mem_insertionSort]

theorem buildPayload?_reload (row : Row) : buildPayload? cfg (reload row) = none := rfl

theorem live_of_idle (h : s.phase = .idle) : s.live = s.pending := by
  simp [live, held, h]

theorem Inv.load (h : s.Inv cfg) (keep : PendingMessage → Bool) (he : Extends s s')
    (hlive : s'.live = s.loadPendingMessages.filter keep) (hphase : s'.phase = .idle) : s'.Inv cfg where
  accounted := he.accounted h.accounted
  carries m hm := by
    rw [hlive] at hm
    obtain ⟨row, hrow, rfl⟩ := mem_loadPendingMessages.mp (mem_of_mem_filter hm)
    obtain ⟨⟨r, hr, hpayload⟩, hcount⟩ := h.accounted.own row hrow
    have hstep := stepId_of_buildPayload? cfg hpayload
    exact ⟨⟨r, he.submitted ▸ hr, hstep.symm, fun p hp => nomatch hp⟩, he.counted hcount⟩
  rows := he.rows ▸ h.rows
  messages := by
    rw [hlive]
    refine Nodup.sublist (filter_sublist.map _) ?_
    rw [loadPendingMessages, map_map]
    exact ((perm_insertionSort _ s.rows).map _).nodup_iff.mpr h.rows
  same row hrow m hm heq := by
    rw [hlive] at hm
    obtain ⟨row', hrow', rfl⟩ := mem_loadPendingMessages.mp (mem_of_mem_filter hm)
    rw [inj_on_of_nodup_map h.rows (he.rows ▸ hrow) hrow' heq]
    rfl
  removing m hm := by
    rw [hphase] at hm
    cases hm

variable {r : Submission}

theorem getElem?_submitted {number : Nat} (h : s.submitted[number]? = some r) (r' : Submission) :
    (s.submitted ++ [r'])[number]? = some r := by
  rw [getElem?_append_left (List.getElem?_eq_some_iff.mp h).1, h]

theorem Inv.persist (h : s.Inv cfg) (hm : m ∈ s.live)
    (hfresh : m.stepId ∉ s.rows.map (·.payload.stepId)) (now : Nat) : (s.persist cfg m now).Inv cfg := by
  unfold ResumeManager.persist
  split
  · next p hp =>
    have hstep := stepId_of_buildPayload? cfg hp
    refine ⟨⟨fun number hn => ?_, fun row hrow => ?_⟩, fun m hm => ⟨(h.carries m hm).result, (h.carries m hm).count⟩, ?_,
      h.messages, fun row hrow m' hm' heq => ?_, h.removing⟩
    · rw [map_append]
      rcases mem_append.mp hn with hn | hn
      · exact (h.accounted.kept number hn).imp_left fun howner => mem_append_left _ howner
      · exact .inl (mem_append_right _ hn)
    · rcases mem_append.mp hrow with hrow | hrow
      · exact h.accounted.own row hrow
      · obtain rfl := mem_singleton.mp hrow
        obtain ⟨r, hr, -, hpayload⟩ := (h.carries m hm).result
        exact ⟨⟨r, hr, hpayload p hp⟩, (h.carries m hm).count⟩
    · rw [map_append, nodup_append']
      refine ⟨h.rows, nodup_singleton _, ?_⟩
      rw [map_singleton, disjoint_singleton, hstep]
      exact hfresh
    · rcases mem_append.mp hrow with hrow | hrow
      · exact h.same row hrow m' hm' heq
      · obtain rfl := mem_singleton.mp hrow
        rw [inj_on_of_nodup_map h.messages hm' hm (heq.symm.trans hstep)]
  · exact h

def enqueue (s : ResumeManager) (r : Submission) : ResumeManager :=
  { s with
    pending := s.pending ++ [message s.submitted.length r]
    submitted := s.submitted ++ [r]
    counted := s.counted ++ [(s.submitted.length, 0)] }

open ResumeManager

theorem step_submit (r : Submission) (now : Nat) :
    s.step cfg (.submit r now) = (s.enqueue r).persist cfg (message s.submitted.length r) now := by
  simp only [step, persist]
  split <;> rfl

theorem live_enqueue (r : Submission) : (s.enqueue r).live = s.live ++ [message s.submitted.length r] := by
  rw [live, live, append_assoc]
  rfl

theorem Inv.enqueue (h : s.Inv cfg) (hrows : r.stepId ∉ s.rows.map (·.payload.stepId))
    (hlive : r.stepId ∉ s.live.map PendingMessage.stepId) : (s.enqueue r).Inv cfg where
  accounted :=
    { kept := h.accounted.kept
      own := fun row hrow => by
        obtain ⟨⟨r', hr', hpayload⟩, hcount⟩ := h.accounted.own row hrow
        exact ⟨⟨r', getElem?_submitted hr' r, hpayload⟩, mem_append_left _ hcount⟩ }
  carries m hm := by
    rw [live_enqueue] at hm
    rcases mem_append.mp hm with hm | hm
    · obtain ⟨⟨r', hr', hrest⟩, hcount⟩ := h.carries m hm
      exact ⟨⟨r', getElem?_submitted hr' r, hrest⟩, mem_append_left _ hcount⟩
    · obtain rfl := mem_singleton.mp hm
      exact ⟨⟨r, getElem?_concat_length, rfl, fun p hp => hp⟩, mem_append_right _ mem_cons_self⟩
  rows := h.rows
  messages := by
    rw [live_enqueue, map_append, nodup_append']
    refine ⟨h.messages, nodup_singleton _, ?_⟩
    rw [map_singleton, disjoint_singleton]
    exact hlive
  same row hrow m hm heq := by
    rw [live_enqueue] at hm
    rcases mem_append.mp hm with hm | hm
    · exact h.same row hrow m hm heq
    · obtain rfl := mem_singleton.mp hm
      exact absurd (mem_map.mpr ⟨row, hrow, heq⟩) hrows
  removing := h.removing

theorem Inv.submit (h : s.Inv cfg) {now : Nat} (hfresh : s.Fresh (.submit r now)) :
    (s.step cfg (.submit r now)).Inv cfg := by
  rw [step_submit]
  have hmem : message s.submitted.length r ∈ (s.enqueue r).live := by
    rw [live_enqueue]
    exact mem_append_right _ mem_cons_self
  exact (h.enqueue hfresh.1 hfresh.2).persist hmem hfresh.1 now

/-! ## Every move -/

theorem live_of_held (h : s.held = some m) : s.live = m :: s.pending := by
  simp [live, h]

theorem mem_live_of_held (h : s.held = some m) : m ∈ s.live :=
  live_of_held h ▸ mem_cons_self

theorem Inv.refuse (h : s.Inv cfg) (hphase : s.phase = .attempting m) : (s.refuse cfg m).Inv cfg := by
  have hheld : s.held = some m := by simp [held, hphase]
  have hlive := live_of_held hheld
  unfold ResumeManager.refuse
  split
  · split
    · refine h.memory_perm ⟨rfl, rfl, rfl, Subset.refl _, Subset.refl _, subset_append_left _ _⟩
        (by rw [hlive]; exact Perm.refl _) fun m' hm' => ?_
      cases hm'
      exact .inr (mem_append_right _ mem_cons_self)
    · refine h.memory ⟨rfl, rfl, rfl, subset_append_left _ _, Subset.refl _, Subset.refl _⟩
        (fun m' hm' => ?_) (by have := h.messages; rw [hlive] at this; exact this) fun m' hm' => nomatch hm'
      rcases mem_cons.mp hm' with rfl | hm'
      · exact ⟨m, mem_live_of_held hheld, rfl, rfl, rfl, mem_append_right _ mem_cons_self⟩
      · have hmem : m' ∈ s.live := hlive ▸ mem_cons_of_mem _ hm'
        exact ⟨m', hmem, rfl, rfl, rfl, mem_append_left _ (h.carries m' hmem).count⟩
  · exact h.drop _

theorem Inv.finish (h : s.Inv cfg) : (s.finish cfg).Inv cfg := by
  unfold ResumeManager.finish
  split
  · next m hphase =>
    split
    · exact h.memory_perm ⟨rfl, rfl, rfl, Subset.refl _, subset_append_left _ _, Subset.refl _⟩
        (Perm.refl _) fun m' hm' => absurd (hphase.symm.trans hm') (fun he => nomatch he)
    · exact h
  · next m hphase => exact h.remove (mem_live_of_held (by simp [held, hphase])) (h.removing m hphase)
  · next m hphase => exact h.update (mem_live_of_held (by simp [held, hphase]))
  · exact h

theorem Inv.take (h : s.Inv cfg) : (s.step cfg .take).Inv cfg := by
  dsimp only [step]
  split
  · exact h
  · next m rest hphase hpending _ =>
    have hlive : s.live = m :: rest := (live_of_idle hphase).trans hpending
    exact h.memory_perm (extends_memory s _ _ _) (by rw [hlive]; exact Perm.refl _) fun _ hm => nomatch hm
  · next hphase _ _ =>
    exact h.memory_perm (extends_memory s _ _ _) (Perm.refl _)
      fun _ hm => absurd (hphase.symm.trans hm) (fun he => nomatch he)
  · exact h

theorem Inv.attempted (h : s.Inv cfg) (ok : Bool) : (s.step cfg (.attempted ok)).Inv cfg := by
  dsimp only [step]
  split
  · next m hphase =>
    split
    · split
      · have hlive : s.live = m :: s.pending := live_of_held (by simp [held, hphase])
        refine h.memory_perm ⟨rfl, rfl, rfl, Subset.refl _, subset_append_left _ _, Subset.refl _⟩
          (by rw [hlive]; exact Perm.refl _) fun m' hm' => ?_
        cases hm'
        exact .inl (mem_map.mpr ⟨_, mem_append_right _ mem_cons_self, rfl⟩)
      · exact h.refuse hphase
    · exact h.refuse hphase
  · exact h

theorem held_updateRetryCount (cfg : Config) (s : ResumeManager) (m : PendingMessage) :
    (s.updateRetryCount cfg m).held = s.held := by
  unfold updateRetryCount
  split <;> rfl

theorem Inv.updated (h : s.Inv cfg) : (s.step cfg .updated).Inv cfg := by
  dsimp only [step]
  split
  · next m hphase =>
    have hheld : s.held = some m := by simp [held, hphase]
    have hlive := live_of_held ((held_updateRetryCount cfg s m).trans hheld)
    exact (h.update (mem_live_of_held hheld)).memory_perm (extends_memory _ _ _ _)
      (by rw [hlive]; exact Perm.refl _) fun _ hm => nomatch hm
  · exact h

theorem Inv.requeued (h : s.Inv cfg) : (s.step cfg .requeued).Inv cfg := by
  dsimp only [step]
  split
  · next m hphase =>
    have hlive : s.live = m :: s.pending := live_of_held (by simp [held, hphase])
    exact h.memory_perm (extends_memory s _ _ _) (by rw [hlive]; exact perm_append_singleton m s.pending)
      fun _ hm => nomatch hm
  · exact h

theorem Inv.retryPending (h : s.Inv cfg) (hfresh : s.Fresh .retryPending) : (s.step cfg .retryPending).Inv cfg := by
  obtain ⟨hheld, hpending⟩ := append_eq_nil_iff.mp (length_eq_zero_iff.mp hfresh)
  have hphase : s.phase = .idle := by
    unfold held at hheld
    split at hheld
    · assumption
    all_goals cases hheld
  refine h.load (fun m => (m.retryCount : Int) < cfg.maxRetries) (extends_memory s _ _ _) ?_ hphase
  have hphase' : (s.step cfg .retryPending).phase = .idle := hphase
  rw [live_of_idle hphase']
  exact congrArg (· ++ _) hpending

theorem Inv.step (h : s.Inv cfg) (m : Move) (hfresh : s.Fresh m) : (s.step cfg m).Inv cfg := by
  cases m with
  | submit r now => exact h.submit hfresh
  | take => exact h.take
  | attempted ok => exact h.attempted ok
  | removed =>
    dsimp only [ResumeManager.step]
    split
    · next m hphase =>
      exact (h.remove (mem_live_of_held (by simp [held, hphase])) (h.removing m hphase)).drop _
    · exact h
  | updated => exact h.updated
  | requeued => exact h.requeued
  | retryPending => exact h.retryPending hfresh
  | stop done =>
    dsimp only [ResumeManager.step]
    split
    · split
      · exact h.finish.drop _
      · exact h.drop _
    · exact h
  | restart =>
    refine h.load (fun _ => true) (extends_memory s _ _ _) ?_ rfl
    rw [live_of_idle rfl]
    exact (filter_eq_self.mpr fun _ _ => rfl).symm

theorem inv_new : new.Inv cfg where
  accounted := ⟨fun _ h => absurd h not_mem_nil, fun _ h => absurd h not_mem_nil⟩
  carries _ h := absurd h not_mem_nil
  rows := nodup_nil
  messages := nodup_nil
  same _ h := absurd h not_mem_nil
  removing _ h := nomatch h

theorem accounted_of_fresh (cfg : Config) (moves : List Move) (h : Runs.Meets (step cfg) Fresh new moves) :
    (Runs.run (step cfg) new moves).Accounted cfg :=
  (@Runs.run_invariant _ _ _ _ _ _ (Inv cfg) (fun _ m hinv hfresh => hinv.step m hfresh) inv_new h).accounted

def defaultConfig : Config := { reprFloat := fun _ => "" }

def resultOf (stepId : String) : Submission := { stepId, status := .passed, outputs := .dict [] }

theorem accounted_two_steps :
    (Runs.run (step defaultConfig) new [.submit (resultOf "a") 0, .submit (resultOf "b") 1, .take, .attempted true,
      .removed]).Accounted defaultConfig :=
  accounted_of_fresh defaultConfig _ (by decide)

/-- A step that is repeated: with the row of the first result that of the second goes, too. -/
theorem not_accounted_repeated_step :
    ¬ (Runs.run (step defaultConfig) new [.submit (resultOf "a") 0, .submit (resultOf "a") 1, .take, .attempted true,
      .removed]).Accounted defaultConfig := by
  intro h
  have hkept := h.kept 1 (by decide)
  revert hkept
  unfold Done
  decide

end ResumeManager

end AteStudio.Resume
