import AteStudio.Checkpoint.Index

/-!
# One id, one checkpoint

An id stays with its run and step.
-/

namespace AteStudio.Checkpoint.Index

open Runs List Option

/-! ## The maps -/

structure Sound (uuids : Uuids) (s : State) : Prop where
  pending : ∀ runId e, s.pending.get? runId = some e → ∃ x, s.entries[e]? = some x ∧ x.runId = runId ∧ x.ended = false
  byId : ∀ c key, s.byId.get? c = some key ↔ s.byKey.get? key = some c
  minted : ∀ c key, s.byKey.get? key = some c → ∃ n < s.minted, uuids.hex n = c
  handed : ∀ c e, (c, e) ∈ s.handed → ∃ x, s.entries[e]? = some x ∧ s.byKey.get? x.key = some c
  first : ∀ c key, s.byKey.get? key = some c → ∃ e, firstFor s c = some e
  events : ∀ c e, (∃ ev ∈ s.events, ev.checkpointId = c ∧ ev.entry = e) ↔ firstFor s c = some e
  distinct : (s.events.map (·.checkpointId)).Nodup

section Facts

variable {uuids : Uuids} {s : State} {e : Nat} {x : Entry}

theorem mem_of_firstFor {c : String} (h : firstFor s c = some e) : (c, e) ∈ s.handed := by
  obtain ⟨⟨c', e'⟩, hfind, rfl⟩ := map_eq_some_iff.mp h
  obtain rfl : c' = c := by simpa using find?_some hfind
  exact mem_of_find?_eq_some hfind

theorem firstFor_append {c : String} {new : String × Nat} (s : State) :
    firstFor { s with handed := s.handed ++ [new] } c = (firstFor s c).or (if new.1 = c then some new.2 else none) := by
  simp only [firstFor, find?_append, find?_singleton]
  cases s.handed.find? (·.1 = c) with
  | none => by_cases h : new.1 = c <;> simp [h]
  | some _ => simp

theorem Sound.entries {s' : State} (h : Sound uuids s)
    (hkeys : ∀ (e : Nat) (x : Entry), s.entries[e]? = some x → ∃ x', s'.entries[e]? = some x' ∧ x'.key = x.key)
    (hpending : ∀ runId e, s'.pending.get? runId = some e →
      ∃ x, s'.entries[e]? = some x ∧ x.runId = runId ∧ x.ended = false)
    (hmaps : s'.byId = s.byId ∧ s'.byKey = s.byKey ∧ s'.minted = s.minted ∧ s'.events = s.events ∧ s'.handed = s.handed) :
    Sound uuids s' := by
  obtain ⟨hbyId, hbyKey, hminted, hevents, hhanded⟩ := hmaps
  have hfirst : ∀ c, firstFor s' c = firstFor s c := fun c => by rw [firstFor, hhanded, firstFor]
  refine ⟨hpending, ?_, ?_, fun c e hmem => ?_, ?_, ?_, ?_⟩
  · rw [hbyId, hbyKey]
    exact h.byId
  · rw [hbyKey, hminted]
    exact h.minted
  · rw [hhanded] at hmem
    obtain ⟨x, hx, hkey⟩ := h.handed c e hmem
    obtain ⟨x', hx', hsame⟩ := hkeys e x hx
    exact ⟨x', hx', by rw [hbyKey, hsame, hkey]⟩
  · simp only [hbyKey, hfirst]
    exact h.first
  · simp only [hevents, hfirst]
    exact h.events
  · rw [hevents]
    exact h.distinct

theorem pendingOf_ok {runId : String} (h : pendingOf s runId = .ok (e, x)) :
    s.pending.get? runId = some e ∧ s.entries[e]? = some x := by
  unfold pendingOf at h
  split at h
  · cases h
  · split at h
    · cases h
    · split at h
      · cases h
      · next e' hpending =>
        split at h
        · cases h
        · next x' hx' =>
          obtain ⟨rfl, rfl⟩ := Prod.mk.inj (Except.ok.inj h)
          exact ⟨hpending, hx'⟩

theorem handed_step (m : Move) :
    (step uuids s m).handed =
      s.handed ++ (polled? s m).toList.map fun found =>
        ((s.byKey.get? found.2.key).getD (uuids.hex s.minted), found.1) := by
  have hsame : s.handed = s.handed ++ [] := (append_nil _).symm
  cases m with
  | poll runId =>
    rw [step, polled?]
    cases pendingOf s runId with
    | error refusal => exact hsame
    | ok found =>
      cases hkey : s.byKey.get? found.2.key <;> simp [observePending, hkey, Except.toOption]
  | answer runId stepId =>
    rw [step]
    cases target s runId stepId <;> exact hsame
  | ack c' =>
    rw [step]
    cases ackTarget s c' <;> exact hsame
  | timeout e' =>
    rw [step]
    split
    · exact hsame
    · split <;> exact hsame
  | leave e' =>
    rw [step]
    split
    · exact hsame
    · split <;> exact hsame
  | _ => exact hsame

theorem firstFor_step (m : Move) {c : String} (hc : firstFor s c = some e) :
    firstFor (step uuids s m) c = some e := by
  obtain ⟨found, hfind, rfl⟩ := map_eq_some_iff.mp hc
  rw [firstFor, handed_step, find?_append, hfind]
  rfl

section

variable (h : Sound uuids s)

include h

theorem sound_pend (runId stepId : String) : Sound uuids (step uuids s (.pend runId stepId)) := by
  refine h.entries (fun e x hx => ⟨x, ?_, rfl⟩) (fun run e hget => ?_) ⟨rfl, rfl, rfl, rfl, rfl⟩
  · rw [step, getElem?_append_left (List.getElem?_eq_some_iff.mp hx).1, hx]
  · rw [step, Dict.get?_set] at hget
    split at hget
    · next hrun =>
      obtain rfl := some.inj hget
      exact ⟨_, getElem?_concat_length, hrun.symm, rfl⟩
    · obtain ⟨x, hx, hkept⟩ := h.pending run e hget
      exact ⟨x, by rw [step, getElem?_append_left (List.getElem?_eq_some_iff.mp hx).1, hx], hkept⟩

theorem sound_resolve (target : Except Refusal Nat) : Sound uuids (resolve s target) := by
  cases target with
  | error refusal => exact h
  | ok e =>
    have hentries : ∀ (e' : Nat) (x : Entry), s.entries[e']? = some x →
        ∃ x', (s.entries.modify e fun x => { x with resolved := true })[e']? = some x' ∧ x'.key = x.key ∧
          x'.ended = x.ended := by
      intro e' x hx
      rw [getElem?_modify, hx]
      by_cases he : e = e'
      · exact ⟨{ x with resolved := true }, by simp [he], rfl, rfl⟩
      · exact ⟨x, by simp [he], rfl, rfl⟩
    refine h.entries (fun e' x hx => ?_) (fun run e' hget => ?_) ⟨rfl, rfl, rfl, rfl, rfl⟩
    · obtain ⟨x', hx', hkey, -⟩ := hentries e' x hx
      exact ⟨x', hx', hkey⟩
    · obtain ⟨x, hx, hrun, hover⟩ := h.pending run e' hget
      obtain ⟨x', hx', hkey, hover'⟩ := hentries e' x hx
      exact ⟨x', hx', (congrArg Prod.fst hkey).trans hrun, hover'.trans hover⟩

theorem sound_finish (hx : s.entries[e]? = some x) : Sound uuids (finish s e x) := by
  have hlt := (List.getElem?_eq_some_iff.mp hx).1
  refine h.entries (fun e' x' hx' => ?_) (fun run e' hget => ?_) ⟨rfl, rfl, rfl, rfl, rfl⟩
  · rw [finish, getElem?_set]
    by_cases he : e = e'
    · subst he
      obtain rfl := some.inj (hx.symm.trans hx')
      exact ⟨{ x with ended := true }, by simp [hlt], rfl⟩
    · exact ⟨x', by simp [he, hx'], rfl⟩
  · -- The entry that ended is not pending any more.
    have howner (hget : s.pending.get? run = some e) : x.runId = run := by
      obtain ⟨y, hy, hyrun, -⟩ := h.pending run e hget
      obtain rfl := some.inj (hx.symm.trans hy)
      exact hyrun
    have hother : e' ≠ e ∧ s.pending.get? run = some e' := by
      simp only [finish] at hget
      split at hget
      · next hcurrent =>
        rw [Dict.get?_erase] at hget
        split at hget
        · cases hget
        · next hrun => exact ⟨fun he => hrun (howner (he ▸ hget)).symm, hget⟩
      · next hcurrent => exact ⟨fun he => hcurrent (by rw [howner (he ▸ hget), hget, he]), hget⟩
    obtain ⟨y, hy, hkept⟩ := h.pending run e' hother.2
    exact ⟨y, by rw [finish, getElem?_set_ne (Ne.symm hother.1), hy], hkept⟩

theorem firstFor_new : firstFor s (uuids.hex s.minted) = none := by
  by_contra hsome
  obtain ⟨e, he⟩ := ne_none_iff_exists'.mp hsome
  obtain ⟨x, -, hkey⟩ := h.handed _ e (mem_of_firstFor he)
  obtain ⟨n, hn, hhex⟩ := h.minted _ _ hkey
  exact absurd (uuids.injective hhex) (by omega)

theorem firstFor_observePending (c : String) : firstFor (observePending uuids s e x) c =
      if s.byKey.get? x.key = none ∧ c = uuids.hex s.minted then some e else firstFor s c := by
  unfold observePending
  cases hkey : s.byKey.get? x.key with
  | some c₀ =>
    obtain ⟨e₀, he₀⟩ := h.first c₀ x.key hkey
    rw [firstFor_append]
    by_cases hc : c₀ = c
    · subst hc
      simp [he₀]
    · simp [hc]
  | none =>
    have hnew := firstFor_new h
    simp only [firstFor, find?_append, find?_singleton] at hnew ⊢
    by_cases hc : c = uuids.hex s.minted
    · subst hc
      rw [map_eq_none_iff] at hnew
      simp [hnew]
    · simp [hc, Ne.symm hc]

theorem sound_again {c₀ : String} (hx : s.entries[e]? = some x)
    (hkey : s.byKey.get? x.key = some c₀) : Sound uuids { s with handed := s.handed ++ [(c₀, e)] } := by
  have hfirst : ∀ c, firstFor { s with handed := s.handed ++ [(c₀, e)] } c = firstFor s c := by
    intro c
    have hobserve := firstFor_observePending h (e := e) (x := x) c
    simpa [observePending, hkey] using hobserve
  refine ⟨h.pending, h.byId, h.minted, fun c e' hmem => ?_, ?_, ?_, h.distinct⟩
  · rcases mem_append.mp hmem with hold | hnew
    · exact h.handed c e' hold
    · obtain ⟨rfl, rfl⟩ := Prod.mk.inj (mem_singleton.mp hnew)
      exact ⟨x, hx, hkey⟩
  · simp only [hfirst]
    exact h.first
  · simp only [hfirst]
    exact h.events

theorem sound_mint (hx : s.entries[e]? = some x) (hkey : s.byKey.get? x.key = none) :
    Sound uuids (observePending uuids s e x) := by
  have hfirst : ∀ c, firstFor (observePending uuids s e x) c =
      if c = uuids.hex s.minted then some e else firstFor s c := by
    intro c
    rw [firstFor_observePending h]
    simp only [hkey, true_and]
  have hnew := firstFor_new h
  have hunused : ∀ key, s.byKey.get? key ≠ some (uuids.hex s.minted) := by
    intro key hget
    obtain ⟨e', he'⟩ := h.first _ key hget
    rw [hnew] at he'
    cases he'
  have hobserve : observePending uuids s e x =
      { s with
        byId := s.byId.set (uuids.hex s.minted) x.key
        byKey := s.byKey.set x.key (uuids.hex s.minted)
        minted := s.minted + 1
        events := s.events ++ [⟨uuids.hex s.minted, e⟩]
        handed := s.handed ++ [(uuids.hex s.minted, e)] } := by
    rw [observePending, hkey]
  rw [hobserve] at hfirst ⊢
  refine ⟨h.pending, fun c key => ?_, fun c key hget => ?_, fun c e' hmem => ?_, fun c key hget => ?_, fun c e' => ?_, ?_⟩
  · rw [Dict.get?_set, Dict.get?_set]
    by_cases hc : c = uuids.hex s.minted
    · by_cases hk : key = x.key
      · simp [hc, hk]
      · simp [hc, hk, hunused key, Ne.symm hk]
    · by_cases hk : key = x.key
      · rw [if_neg hc, h.byId]
        simp [hk, hkey, Ne.symm hc]
      · rw [if_neg hc, if_neg hk, h.byId]
  · rw [Dict.get?_set] at hget
    split at hget
    · exact ⟨s.minted, Nat.lt_succ_self _, some.inj hget⟩
    · obtain ⟨n, hn, hhex⟩ := h.minted c key hget
      exact ⟨n, Nat.lt_succ_of_lt hn, hhex⟩
  · rcases mem_append.mp hmem with hold | hlast
    · obtain ⟨x', hx', hkey'⟩ := h.handed c e' hold
      refine ⟨x', hx', ?_⟩
      rw [Dict.get?_set, if_neg fun hk => ?_, hkey']
      rw [hk, hkey] at hkey'
      cases hkey'
    · obtain ⟨rfl, rfl⟩ := Prod.mk.inj (mem_singleton.mp hlast)
      exact ⟨x, hx, Dict.get?_set_self _ _ _⟩
  · rw [hfirst]
    split
    · exact ⟨e, rfl⟩
    · next hc =>
      rw [Dict.get?_set] at hget
      split at hget
      · exact absurd (some.inj hget).symm hc
      · exact h.first c key hget
  · rw [hfirst]
    simp only [mem_append, mem_singleton]
    by_cases hc : c = uuids.hex s.minted
    · rw [if_pos hc]
      constructor
      · rintro ⟨ev, hev | rfl, hid, rfl⟩
        · have hold := (h.events c ev.entry).mp ⟨ev, hev, hid, rfl⟩
          rw [hc, hnew] at hold
          cases hold
        · rfl
      · intro heq
        exact ⟨⟨uuids.hex s.minted, e⟩, .inr rfl, hc.symm, some.inj heq⟩
    · rw [if_neg hc, ← h.events]
      constructor
      · rintro ⟨ev, hev | rfl, hid, hentry⟩
        · exact ⟨ev, hev, hid, hentry⟩
        · exact absurd hid.symm hc
      · rintro ⟨ev, hev, hid, hentry⟩
        exact ⟨ev, .inl hev, hid, hentry⟩
  · rw [map_append, nodup_append]
    refine ⟨h.distinct, by simp, fun c hc c' hc' heq => ?_⟩
    obtain ⟨ev, hev, rfl⟩ := mem_map.mp hc
    have hold := (h.events ev.checkpointId ev.entry).mp ⟨ev, hev, rfl, rfl⟩
    rw [heq, mem_singleton.mp hc', hnew] at hold
    cases hold

theorem sound_step (m : Move) : Sound uuids (step uuids s m) := by
  cases m with
  | create runId => exact h.entries (fun e x hx => ⟨x, hx, rfl⟩) h.pending ⟨rfl, rfl, rfl, rfl, rfl⟩
  | register runId => exact h.entries (fun e x hx => ⟨x, hx, rfl⟩) h.pending ⟨rfl, rfl, rfl, rfl, rfl⟩
  | pend runId stepId => exact sound_pend h runId stepId
  | poll runId =>
    rw [step]
    split
    · exact h
    · next e x hp =>
      obtain ⟨-, hx⟩ := pendingOf_ok hp
      cases hkey : s.byKey.get? x.key with
      | none => exact sound_mint h hx hkey
      | some c =>
        rw [observePending, hkey]
        exact sound_again h hx hkey
  | answer runId stepId => exact sound_resolve h _
  | ack c => exact sound_resolve h _
  | timeout e =>
    rw [step]
    split
    · exact h
    · next x hx =>
      split
      · exact h
      · exact sound_finish h hx
  | leave e =>
    rw [step]
    split
    · exact h
    · next x hx =>
      split
      · exact sound_finish h hx
      · exact h

/-! ## Events -/

/-- Every id that was handed out was handed out for one checkpoint. -/
def Steady (s : State) : Prop := ∀ c e, (c, e) ∈ s.handed → firstFor s c = some e

theorem handed_unique {c c' : String} (hc : (c, e) ∈ s.handed) (hc' : (c', e) ∈ s.handed) :
    c = c' := by
  obtain ⟨x, hx, hkey⟩ := h.handed c e hc
  obtain ⟨x', hx', hkey'⟩ := h.handed c' e hc'
  obtain rfl := some.inj (hx.symm.trans hx')
  exact some.inj (hkey.symm.trans hkey')

theorem oneEvent_iff : OneEvent s ↔ Steady s := by
  have hevent : ∀ ev ∈ s.events, firstFor s ev.checkpointId = some ev.entry := fun ev hev =>
    (h.events _ _).mp ⟨ev, hev, rfl, rfl⟩
  constructor
  · intro hone c e hmem
    have hpos : 0 < s.events.countP (·.entry = e) := by
      rw [hone c e hmem]
      exact Nat.one_pos
    obtain ⟨ev, hev, hentry⟩ := countP_pos_iff.mp hpos
    obtain rfl : ev.entry = e := by simpa using hentry
    rw [handed_unique h hmem (mem_of_firstFor (hevent ev hev))]
    exact hevent ev hev
  · intro hsteady c e hmem
    obtain ⟨ev, hev, hid, hentry⟩ := (h.events c e).mpr (hsteady c e hmem)
    have hpos : 0 < s.events.countP (·.entry = e) := countP_pos_iff.mpr ⟨ev, hev, by simp [hentry]⟩
    have hle : s.events.countP (·.entry = e) ≤ (s.events.map (·.checkpointId)).count c := by
      rw [List.count, countP_map]
      refine countP_mono_left fun ev' hev' hentry' => ?_
      obtain rfl : ev'.entry = e := by simpa using hentry'
      simp [handed_unique h hmem (mem_of_firstFor (hevent ev' hev'))]
    have hnodup := nodup_iff_count_le_one.mp h.distinct c
    omega

theorem steady_of_step {m : Move} (hsteady : Steady (step uuids s m)) : Steady s := by
  intro c e hmem
  obtain ⟨x, -, hkey⟩ := h.handed c e hmem
  obtain ⟨e', he'⟩ := h.first c x.key hkey
  have hlater := hsteady c e (handed_step m ▸ mem_append_left _ hmem)
  rw [firstFor_step m he'] at hlater
  rw [he', some.inj hlater]

theorem pollFresh_iff (m : Move) (hsteady : Steady s) : PollFresh s m ↔ Steady (step uuids s m) := by
  have hhanded := @handed_step uuids s m
  cases hp : polled? s m with
  | none =>
    rw [hp, toList_none, map_nil, append_nil] at hhanded
    refine iff_of_true (fun e x hx => ?_) fun c e hmem => ?_
    · rw [hp] at hx
      cases hx
    · rw [hhanded] at hmem
      exact firstFor_step m (hsteady c e hmem)
  | some found =>
    obtain ⟨e, x⟩ := found
    rw [hp, toList_some, map_singleton] at hhanded
    have hfirst : ∀ c, firstFor (step uuids s m) c =
        (firstFor s c).or (if (s.byKey.get? x.key).getD (uuids.hex s.minted) = c then some e else none) := by
      intro c
      rw [firstFor, hhanded]
      exact firstFor_append s
    have hsteady' : Steady (step uuids s m) ↔
        firstFor (step uuids s m) ((s.byKey.get? x.key).getD (uuids.hex s.minted)) = some e := by
      constructor
      · intro h'
        exact h' _ e (by rw [hhanded]; simp)
      · intro hlast c e' hmem
        rw [hhanded] at hmem
        rcases mem_append.mp hmem with hold | hnew
        · exact firstFor_step m (hsteady c e' hold)
        · obtain ⟨rfl, rfl⟩ := Prod.mk.inj (mem_singleton.mp hnew)
          exact hlast
    rw [hsteady', hfirst, if_pos rfl]
    cases hkey : s.byKey.get? x.key with
    | none =>
      rw [getD_none, firstFor_new h]
      refine iff_of_true (fun e' x' hx' c e'' hc _ => ?_) rfl
      obtain ⟨rfl, rfl⟩ := Prod.mk.inj (some.inj (hp.symm.trans hx'))
      rw [hkey] at hc
      cases hc
    | some c =>
      obtain ⟨e₀, he₀⟩ := h.first c x.key hkey
      rw [getD_some, he₀, some_or, some_inj]
      constructor
      · exact fun hfresh => hfresh e x hp c e₀ hkey he₀
      · rintro rfl e' x' hx' c' e'' hc' he''
        obtain ⟨rfl, rfl⟩ := Prod.mk.inj (some.inj (hp.symm.trans hx'))
        obtain rfl := some.inj (hkey.symm.trans hc')
        exact some.inj (he''.symm.trans he₀)

/-! ## Acknowledgements -/

theorem ackTarget_ok {c : String} (hok : ackTarget s c = .ok e) :
    ∃ x, s.entries[e]? = some x ∧ x.ended = false ∧ s.byKey.get? x.key = some c := by
  unfold ackTarget at hok
  split at hok
  · cases hok
  · next runId stepId hid =>
    unfold target at hok
    split at hok
    · cases hok
    · next e' x hp =>
      split at hok
      · next hstep =>
        obtain rfl := Except.ok.inj hok
        obtain ⟨hpending, hx⟩ := pendingOf_ok hp
        obtain ⟨y, hy, hrun, hover⟩ := h.pending runId e' hpending
        obtain rfl := some.inj (hx.symm.trans hy)
        refine ⟨x, hx, hover, (h.byId c x.key).mp ?_⟩
        rw [hid, Entry.key, hrun, hstep]
      · cases hok

theorem ackFresh_iff (m : Move) : AckFresh s m ↔ AckNamesOne s m := by
  cases m with
  | ack c =>
    constructor
    · intro hfresh
      have hfirst : ∀ e, ackTarget s c = .ok e → firstFor s c = some e := by
        intro e hok
        obtain ⟨x, hx, -, hkey⟩ := ackTarget_ok h hok
        obtain ⟨e', he'⟩ := h.first c x.key hkey
        rw [he', (hfresh e x hok hx).1 c e' hkey he']
      refine ⟨hfirst, fun e x he hx hended e' hok => ?_⟩
      obtain rfl : e' = e := some.inj ((hfirst e' hok).symm.trans he)
      obtain ⟨y, hy, hover, -⟩ := ackTarget_ok h hok
      obtain rfl := some.inj (hx.symm.trans hy)
      rcases hended with hresolved | hover'
      · rw [(hfresh e' x hok hx).2] at hresolved
        cases hresolved
      · rw [hover] at hover'
        cases hover'
    · rintro ⟨hfirst, hrefused⟩ e x hok hx
      refine ⟨fun c' e' hkey he' => ?_, ?_⟩
      · obtain ⟨y, hy, -, hkey'⟩ := ackTarget_ok h hok
        obtain rfl := some.inj (hx.symm.trans hy)
        obtain rfl := some.inj (hkey'.symm.trans hkey)
        exact some.inj (he'.symm.trans (hfirst e hok))
      · by_contra hresolved
        exact hrefused e x (hfirst e hok) hx (.inl (by simpa using hresolved)) e hok
  | _ => exact Iff.rfl

end

end Facts

/-! ## Histories -/

variable (uuids : Uuids) (moves : List Move)

theorem sound_start : Sound uuids {} where
  pending runId e h := by simp at h
  byId c key := by simp
  minted c key h := by simp at h
  handed c e h := by simp at h
  first c key h := by simp at h
  events c e := by simp [firstFor]
  distinct := nodup_nil

theorem sound_run : Sound uuids (run (step uuids) {} moves) :=
  run_always (fun s m (h : Sound uuids s) => sound_step h m) (sound_start uuids) moves

theorem steady_of_run {uuids : Uuids} {s : State} (h : Sound uuids s) {moves : List Move}
    (hsteady : Steady (run (step uuids) s moves)) : Steady s := by
  induction moves generalizing s with
  | nil => exact hsteady
  | cons m moves ih => exact steady_of_step h (ih (sound_step h m) hsteady)

theorem meets_pollFresh_iff :
    Meets (step uuids) PollFresh {} moves ↔ Steady (run (step uuids) {} moves) := by
  have hstart : Steady {} := fun c e hmem => by simp at hmem
  rw [meets_iff_always (fun s m (h : Sound uuids s) => sound_step h m) (fun s m h hs => pollFresh_iff h m hs)
    (sound_start uuids) hstart]
  refine ⟨fun h => h moves prefix_rfl, fun h before hbefore => ?_⟩
  obtain ⟨after, rfl⟩ := hbefore
  rw [run, foldl_append] at h
  exact steady_of_run (sound_run uuids before) h

theorem meets_ackFresh_iff :
    Meets (step uuids) AckFresh {} moves ↔ Meets (step uuids) AckNamesOne {} moves :=
  ⟨meets_of_invariant (fun s m (h : Sound uuids s) _ => sound_step h m) (fun _ m h => (ackFresh_iff h m).mp)
      (sound_start uuids),
    meets_of_invariant (fun s m (h : Sound uuids s) _ => sound_step h m) (fun _ m h => (ackFresh_iff h m).mpr)
      (sound_start uuids)⟩

theorem idsNameOne_iff :
    IdsNameOne uuids moves ↔ Meets (step uuids) Fresh {} moves := by
  have hparts : IdsNameOne uuids moves ↔
      OneEvent (run (step uuids) {} moves) ∧ Meets (step uuids) AckNamesOne {} moves :=
    ⟨fun h => ⟨h.events, h.acks⟩, fun h => ⟨h.2, h.1⟩⟩
  rw [hparts, oneEvent_iff (sound_run uuids moves), ← meets_pollFresh_iff, ← meets_ackFresh_iff, ← meets_and]
  rfl

/-- What an acknowledgement reaches is open, and of the run and step of every checkpoint its id was handed out for. -/
def AcksOwn (s : State) : Prop :=
  ∀ c e, ackTarget s c = .ok e → ∃ x, s.entries[e]? = some x ∧ x.ended = false ∧
    ∀ e', (c, e') ∈ s.handed → ∃ x', s.entries[e']? = some x' ∧ x'.key = x.key

theorem acksOwn_run : AcksOwn (run (step uuids) {} moves) := by
  have hsound := sound_run uuids moves
  intro c e hack
  obtain ⟨x, hx, hended, hkey⟩ := ackTarget_ok hsound hack
  refine ⟨x, hx, hended, fun e' hhanded => ?_⟩
  obtain ⟨x', hx', hkey'⟩ := hsound.handed c e' hhanded
  rw [← hsound.byId] at hkey hkey'
  exact ⟨x', hx', some.inj (hkey'.symm.trans hkey)⟩

def unaryUuids : Uuids where
  hex n := .ofList (List.replicate n '0')
  injective n m h := by simpa using congrArg (fun s => s.toList.length) h

/-- The id of the first checkpoint acknowledges the second. -/
def retryMoves : List Move :=
  [.create "run", .register "run", .pend "run" "step", .poll "run", .answer "run" "step", .leave 0, .pend "run" "step",
    .ack (unaryUuids.hex 0)]

theorem not_idsNameOne_retryMoves : ¬ IdsNameOne unaryUuids retryMoves := by
  rintro ⟨⟨-, -, -, -, -, -, -, hack, -⟩, -⟩
  have hfirst : some 0 = some 1 := hack.1 1 rfl
  simp at hfirst

end AteStudio.Checkpoint.Index
