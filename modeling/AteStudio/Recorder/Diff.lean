import AteStudio.Recorder.Recording

/-!
# Comparing two recordings

Of several events with one key only the last is compared, and an event without a step has the key of one whose step is
the empty text.
-/

namespace AteStudio.Recorder

open List
open Forall₂ (exists_left exists_right)

variable {τ δ : Type}

namespace RecordedEvent

def key (e : RecordedEvent τ δ) : String × String := (e.stepId.getD "", e.eventType.value)

def withData (e : RecordedEvent τ δ) (data : δ) : RecordedEvent τ δ := { e with data }

@[simp] theorem key_withData (e : RecordedEvent τ δ) (data : δ) : (e.withData data).key = e.key := rfl

end RecordedEvent

def sortKeys (keys : List (String × String)) : List (String × String) :=
  keys.insertionSort fun a b => a.1 < b.1 ∨ a.1 = b.1 ∧ a.2 ≤ b.2

structure Diff (τ δ : Type) where
  added : List (RecordedEvent τ δ)
  removed : List (RecordedEvent τ δ)
  changed : List ((String × String) × RecordedEvent τ δ × RecordedEvent τ δ)
  originalCount : Nat
  replayedCount : Nat

section ComputeDiff

variable [LinearOrder τ]

def sortEvents (es : List (RecordedEvent τ δ)) : List (RecordedEvent τ δ) :=
  es.insertionSort fun a b => a.timestamp ≤ b.timestamp

def eventMap (es : List (RecordedEvent τ δ)) : Dict (String × String) (RecordedEvent τ δ) :=
  (sortEvents es).foldl (fun m e => m.set e.key e) ∅

variable [BEq δ]

def computeDiff (original replayed : List (RecordedEvent τ δ)) : Diff τ δ :=
  let originalMap := eventMap original
  let replayedMap := eventMap replayed
  { added := (sortKeys (replayedMap.keys.diff originalMap.keys)).filterMap replayedMap.get?
    removed := (sortKeys (originalMap.keys.diff replayedMap.keys)).filterMap originalMap.get?
    changed := (sortKeys (originalMap.keys ∩ replayedMap.keys)).filterMap fun k => do
      let o ← originalMap.get? k
      let r ← replayedMap.get? k
      if o.data != r.data then some (k, o, r) else none
    originalCount := (sortEvents original).length
    replayedCount := (sortEvents replayed).length }

end ComputeDiff

def Diff.none (d : Diff τ δ) : Prop := d.added = [] ∧ d.removed = [] ∧ d.changed = []

section Agree

variable [BEq δ]

def Agree (o r : RecordedEvent τ δ) : Prop :=
  o.stepId = r.stepId ∧ o.eventType = r.eventType ∧ (o.data == r.data) = true

theorem Agree.key {o r : RecordedEvent τ δ} (h : Agree o r) : o.key = r.key := by
  rw [RecordedEvent.key, RecordedEvent.key, h.1, h.2.1]

def SameEvents (original replayed : List (RecordedEvent τ δ)) : Prop :=
  ∃ es, es.Perm replayed ∧ List.Forall₂ Agree original es

end Agree

theorem eventType_eq_of_key {o r : RecordedEvent τ δ} (h : o.key = r.key) : o.eventType = r.eventType := by
  have hvalue : o.eventType.value = r.eventType.value := congrArg Prod.snd h
  have hof := congrArg RecordedEventType.ofValue? hvalue
  rwa [RecordedEventType.ofValue?_value, RecordedEventType.ofValue?_value, Option.some.injEq] at hof

/-! ## Other payloads -/

def SameShape (es es' : List (RecordedEvent τ δ)) : Prop := List.Forall₂ (fun e e' => ∃ d, e' = e.withData d) es es'

variable {es : List (RecordedEvent τ δ)} {es' : List (RecordedEvent τ δ)}

open RecordedEvent

theorem SameShape.keys (h : SameShape es es') : es'.map key = es.map key := by
  induction h with
  | nil => rfl
  | cons hd _ ih =>
    obtain ⟨d, rfl⟩ := hd
    rw [map_cons, map_cons, ih, key_withData]

theorem SameShape.origin (h : SameShape es es') {e' : RecordedEvent τ δ}
    (he : e' ∈ es') : ∃ e ∈ es, e.key = e'.key ∧ e.stepId = e'.stepId := by
  obtain ⟨e, hmem, d, rfl⟩ := exists_left h he
  exact ⟨e, hmem, rfl, rfl⟩

def refill (payload : Nat → δ) (es : List (RecordedEvent τ δ)) : List (RecordedEvent τ δ) :=
  es.zipIdx.map fun p => p.1.withData (payload p.2)

theorem sameShape_refill (payload : Nat → δ) (es : List (RecordedEvent τ δ)) : SameShape es (refill payload es) := by
  rw [SameShape, refill, List.forall₂_map_right_iff]
  nth_rewrite 1 [← zipIdx_map_fst 0 es]
  rw [List.forall₂_map_left_iff, List.forall₂_same]
  exact fun p _ => ⟨_, rfl⟩

variable {e : RecordedEvent τ δ}

theorem data_of_mem_refill_const {y : δ} (h : e ∈ refill (fun _ => y) es) : e.data = y := by
  obtain ⟨p, _, rfl⟩ := mem_map.mp h
  rfl

/-- The keys differ, or no two events of a list share one and events with one key have one step. -/
def Comparable (original replayed : List (RecordedEvent τ δ)) : Prop :=
  (∃ k, ¬ (k ∈ original.map RecordedEvent.key ↔ k ∈ replayed.map RecordedEvent.key)) ∨
    ((original.map RecordedEvent.key).Nodup ∧ (replayed.map RecordedEvent.key).Nodup ∧
      ∀ o ∈ original, ∀ r ∈ replayed, o.key = r.key → o.stepId = r.stepId)

theorem Comparable.of_sameShape {original replayed original' replayed' : List (RecordedEvent τ δ)}
    (h : Comparable original replayed) (ho : SameShape original original') (hr : SameShape replayed replayed') :
    Comparable original' replayed' := by
  rw [Comparable, ho.keys, hr.keys]
  refine h.imp_right fun ⟨hdo, hdr, hstep⟩ => ⟨hdo, hdr, fun o' ho' r' hr' hkey => ?_⟩
  obtain ⟨o, hmo, hko, hso⟩ := ho.origin ho'
  obtain ⟨r, hmr, hkr, hsr⟩ := hr.origin hr'
  rw [← hso, ← hsr]
  exact hstep o hmo r hmr (by rw [hko, hkr, hkey])

/-! ## The last event of a key -/

theorem get?_foldl_set (es : List (RecordedEvent τ δ)) (m : Dict (String × String) (RecordedEvent τ δ))
    (k : String × String) :
    (es.foldl (fun m e => m.set e.key e) m).get? k = ((es.filter (·.key = k)).getLast?).or (m.get? k) := by
  induction es generalizing m with
  | nil => rfl
  | cons e es ih =>
    rw [foldl_cons, ih, Dict.get?_set, filter_cons]
    by_cases h : e.key = k
    · rw [if_pos h.symm]
      simp only [h, decide_true, if_true]
      rw [getLast?_cons]
      cases (es.filter (·.key = k)).getLast? <;> rfl
    · rw [if_neg fun he => h he.symm]
      simp only [h, decide_false, Bool.false_eq_true, if_false]

variable [LinearOrder τ]

theorem get?_eventMap (es : List (RecordedEvent τ δ)) (k : String × String) :
    (eventMap es).get? k = ((sortEvents es).filter (·.key = k)).getLast? := by
  rw [eventMap, get?_foldl_set]
  simp

theorem mem_sortEvents : e ∈ sortEvents es ↔ e ∈ es :=
  mem_insertionSort _

variable {k : String × String}

theorem eventMap_sound (h : (eventMap es).get? k = some e) : e ∈ es ∧ e.key = k := by
  rw [get?_eventMap] at h
  have hmem := mem_filter.mp (mem_of_getLast? h)
  exact ⟨mem_sortEvents.mp hmem.1, of_decide_eq_true hmem.2⟩

theorem mem_keys_eventMap : k ∈ (eventMap es).keys ↔ k ∈ es.map key := by
  rw [Dict.mem_keys_iff, mem_map]
  constructor
  · rintro ⟨e, he⟩
    exact ⟨e, eventMap_sound he⟩
  · rintro ⟨e, he, hk⟩
    rw [get?_eventMap]
    have hmem : e ∈ (sortEvents es).filter (·.key = k) :=
      mem_filter.mpr ⟨mem_sortEvents.mpr he, decide_eq_true hk⟩
    exact ⟨_, getLast?_eq_some_getLast (ne_nil_of_mem hmem)⟩

theorem eventMap_complete (hd : (es.map key).Nodup) (he : e ∈ es) : (eventMap es).get? e.key = some e := by
  obtain ⟨e', he'⟩ := ((eventMap es).mem_keys_iff e.key).mp (mem_keys_eventMap.mpr (mem_map_of_mem he))
  obtain ⟨hmem, hkey⟩ := eventMap_sound he'
  rw [he', inj_on_of_nodup_map hd hmem he hkey]

/-! ## What the report can miss -/

def lastPlace (es : List (RecordedEvent τ δ)) (k : String × String) : Option (RecordedEvent τ δ × Nat) :=
  ((es.zipIdx.insertionSort fun a b => a.1.timestamp ≤ b.1.timestamp).filter (·.1.key = k)).getLast?

theorem lastPlace_sound {p : RecordedEvent τ δ × Nat} (h : lastPlace es k = some p) : p ∈ es.zipIdx ∧ p.1.key = k := by
  have hmem := mem_filter.mp (mem_of_getLast? h)
  exact ⟨(mem_insertionSort _).mp hmem.1, of_decide_eq_true hmem.2⟩

theorem get?_eventMap_refill (payload : Nat → δ) (es : List (RecordedEvent τ δ)) (k : String × String) :
    (eventMap (refill payload es)).get? k = (lastPlace es k).map fun p => p.1.withData (payload p.2) := by
  have hsort : sortEvents (refill payload es) =
      (es.zipIdx.insertionSort fun a b => a.1.timestamp ≤ b.1.timestamp).map fun p => p.1.withData (payload p.2) := by
    rw [sortEvents, refill]
    exact (map_insertionSort (fun a b : RecordedEvent τ δ × Nat => a.1.timestamp ≤ b.1.timestamp)
      (fun a b : RecordedEvent τ δ => a.timestamp ≤ b.timestamp) (fun p => p.1.withData (payload p.2)) _
      fun _ _ _ _ => Iff.rfl).symm
  rw [get?_eventMap, hsort, filter_map, getLast?_map]
  rfl

theorem exists_hidden (h : ¬ (es.map key).Nodup) (x y : δ) :
    ∃ payload : Nat → δ, (∀ k e, (eventMap (refill payload es)).get? k = some e → e.data = y) ∧
      ∃ e ∈ refill payload es, e.data = x := by
  have hplaces : (es.zipIdx.map Prod.snd).Nodup := by
    rw [zipIdx_map_snd]
    exact nodup_range'
  obtain ⟨p, hp, hlast⟩ : ∃ p ∈ es.zipIdx, lastPlace es p.1.key ≠ some p := by
    by_contra hall
    push Not at hall
    apply h
    rw [← zipIdx_map_fst 0 es, map_map]
    refine List.Nodup.map_on (fun p hp q hq hpq => ?_) (hplaces.of_map _)
    have hkey : p.1.key = q.1.key := hpq
    exact Option.some.inj ((hall p hp).symm.trans (hkey ▸ hall q hq))
  refine ⟨fun i => if i = p.2 then x else y, fun k e he => ?_, p.1.withData x, mem_map.mpr ⟨p, hp, by simp⟩, rfl⟩
  rw [get?_eventMap_refill] at he
  obtain ⟨q, hq, rfl⟩ := Option.map_eq_some_iff.mp he
  obtain ⟨hmem, hkey⟩ := lastPlace_sound hq
  have hne : q.2 ≠ p.2 := by
    intro hidx
    obtain rfl : q = p := inj_on_of_nodup_map hplaces hmem hp hidx
    exact hlast (hkey ▸ hq)
  exact if_neg hne

section Compare

variable [BEq δ]

theorem mem_sortKeys {keys : List (String × String)} {k : String × String} : k ∈ sortKeys keys ↔ k ∈ keys :=
  mem_insertionSort _

variable {original replayed : List (RecordedEvent τ δ)}

theorem noDifference_iff :
    (computeDiff original replayed).none ↔
      (∀ k, k ∈ original.map key ↔ k ∈ replayed.map key) ∧
      ∀ k o r, (eventMap original).get? k = some o → (eventMap replayed).get? k = some r →
        (o.data == r.data) = true := by
  have hmissing (m m' : Dict (String × String) (RecordedEvent τ δ)) :
      (sortKeys (m.keys.diff m'.keys)).filterMap m.get? = [] ↔ ∀ k ∈ m.keys, k ∈ m'.keys := by
    rw [filterMap_eq_nil_iff]
    constructor
    · intro h k hk
      by_contra hnot
      have hnone := h k (mem_sortKeys.mpr (m.nodup.mem_sdiff_iff.mpr ⟨hk, hnot⟩))
      exact (m.get?_eq_none_iff k).mp hnone hk
    · intro h k hk
      have hmem := m.nodup.mem_sdiff_iff.mp (mem_sortKeys.mp hk)
      exact absurd (h k hmem.1) hmem.2
  have hchanged : (computeDiff original replayed).changed = [] ↔
      ∀ k o r, (eventMap original).get? k = some o → (eventMap replayed).get? k = some r →
        (o.data == r.data) = true := by
    rw [computeDiff, filterMap_eq_nil_iff]
    constructor
    · intro h k o r ho hr
      have hk : k ∈ sortKeys ((eventMap original).keys ∩ (eventMap replayed).keys) :=
        mem_sortKeys.mpr (mem_inter_iff.mpr ⟨(Dict.mem_keys_iff _ k).mpr ⟨o, ho⟩,
          (Dict.mem_keys_iff _ k).mpr ⟨r, hr⟩⟩)
      simpa [ho, hr, bne] using h k hk
    · intro h k _
      cases ho : (eventMap original).get? k with
      | none => rfl
      | some o =>
        cases hr : (eventMap replayed).get? k with
        | none => rfl
        | some r => simp [bne, h k o r ho hr]
  have hkeys : (computeDiff original replayed).added = [] ∧ (computeDiff original replayed).removed = [] ↔
      ∀ k, k ∈ original.map key ↔ k ∈ replayed.map key := by
    rw [computeDiff, hmissing, hmissing]
    simp only [mem_keys_eventMap]
    exact ⟨fun h k => ⟨h.2 k, h.1 k⟩, fun h => ⟨fun k => (h k).mpr, fun k => (h k).mp⟩⟩
  rw [Diff.none, ← and_assoc, hkeys, hchanged]

theorem sameEvents_of_noDifference (hc : Comparable original replayed)
    (h : (computeDiff original replayed).none) : SameEvents original replayed := by
  obtain ⟨hkeys, hdata⟩ := noDifference_iff.mp h
  rcases hc with ⟨k, hk⟩ | ⟨hdo, hdr, hstep⟩
  · exact absurd (hkeys k) hk
  have hpartner : ∀ o ∈ original, ∃ r, (r ∈ replayed ∧ r.key = o.key) ∧ Agree o r := by
    intro o ho
    obtain ⟨r, hr, hkey⟩ := mem_map.mp ((hkeys o.key).mp (mem_map_of_mem ho))
    have hro := hkey ▸ eventMap_complete hdr hr
    exact ⟨r, ⟨hr, hkey⟩, hstep o ho r hr hkey.symm, eventType_eq_of_key hkey.symm,
      hdata _ o r (eventMap_complete hdo ho) hro⟩
  obtain ⟨es, hes⟩ := exists_forall₂ hpartner
  refine ⟨es, ?_, hes.imp fun _ _ h => h.2⟩
  have hmap : es.map key = original.map key := by
    rw [← List.forall₂_eq_eq_eq, List.forall₂_map_left_iff, List.forall₂_map_right_iff]
    exact (hes.imp fun _ _ h => h.1.2).flip
  have hnodup : es.Nodup := (hmap ▸ hdo).of_map _
  rw [perm_ext_iff_of_nodup hnodup (hdr.of_map _)]
  intro r
  constructor
  · intro hr
    obtain ⟨o, _, ⟨hmem, _⟩, _⟩ := exists_left hes hr
    exact hmem
  · intro hr
    have hk : r.key ∈ es.map key := by
      rw [hmap]
      exact (hkeys r.key).mpr (mem_map_of_mem hr)
    obtain ⟨r', hr', hkey⟩ := mem_map.mp hk
    obtain ⟨o, _, ⟨hmem, _⟩, _⟩ := exists_left hes hr'
    rwa [← inj_on_of_nodup_map hdr hmem hr hkey]

section Sound

variable {x y : δ} {original replayed : List (RecordedEvent τ δ)} (hy : (y == y) = true)
  (hkeys : ∀ k, k ∈ original.map RecordedEvent.key ↔ k ∈ replayed.map RecordedEvent.key)
  (h : ∀ original' replayed', SameShape original original' → SameShape replayed replayed' →
    (computeDiff original' replayed').none → SameEvents original' replayed')

omit [BEq δ] in
theorem eventMap_refill_const (es : List (RecordedEvent τ δ)) (k : String × String) (e : RecordedEvent τ δ)
    (he : (eventMap (refill (fun _ => y) es)).get? k = some e) : e.data = y :=
  data_of_mem_refill_const (eventMap_sound he).1

include hy hkeys h

theorem sameEvents_refill {payload payload' : Nat → δ}
    (ho : ∀ k e, (eventMap (refill payload original)).get? k = some e → e.data = y)
    (hr : ∀ k e, (eventMap (refill payload' replayed)).get? k = some e → e.data = y) :
    SameEvents (refill payload original) (refill payload' replayed) := by
  refine h _ _ (sameShape_refill _ _) (sameShape_refill _ _) (noDifference_iff.mpr ?_)
  rw [(sameShape_refill _ _).keys, (sameShape_refill _ _).keys]
  refine ⟨hkeys, fun k o r hget hget' => ?_⟩
  rw [ho k o hget, hr k r hget']
  exact hy

theorem nodup_original_of_sound (hxy : (x == y) = false) : (original.map key).Nodup := by
  by_contra hdo
  obtain ⟨payload, hlast, e, he, hx⟩ := exists_hidden hdo x y
  obtain ⟨es, hperm, hagree⟩ := sameEvents_refill hy hkeys h hlast (eventMap_refill_const replayed)
  obtain ⟨r, hr, -, -, hdata⟩ := exists_right hagree he
  rw [data_of_mem_refill_const (hperm.mem_iff.mp hr), hx, hxy] at hdata
  cases hdata

theorem nodup_replayed_of_sound (hyx : (y == x) = false) : (replayed.map key).Nodup := by
  by_contra hdr
  obtain ⟨payload, hlast, e, he, hx⟩ := exists_hidden hdr x y
  obtain ⟨es, hperm, hagree⟩ := sameEvents_refill hy hkeys h (eventMap_refill_const original) hlast
  obtain ⟨o, ho, -, -, hdata⟩ := exists_left hagree (hperm.mem_iff.mpr he)
  rw [data_of_mem_refill_const ho, hx, hyx] at hdata
  cases hdata

theorem stepId_eq_of_sound (hdr : (replayed.map key).Nodup) :
    ∀ o ∈ original, ∀ r ∈ replayed, o.key = r.key → o.stepId = r.stepId := by
  intro o ho r hr hkey
  obtain ⟨es, hperm, hagree⟩ :=
    sameEvents_refill hy hkeys h (eventMap_refill_const original) (eventMap_refill_const replayed)
  obtain ⟨o', ho', d, rfl⟩ := exists_right (sameShape_refill (fun _ => y) original) ho
  obtain ⟨r', hr', ha⟩ := exists_right hagree ho'
  obtain ⟨r'', hmem, hkey', hstep'⟩ := (sameShape_refill (fun _ => y) replayed).origin (hperm.mem_iff.mp hr')
  have hsame : r'' = r := inj_on_of_nodup_map hdr hmem hr (by rw [hkey', ← ha.key, ← hkey]; rfl)
  rw [← hsame, hstep', ← ha.1]
  rfl

end Sound

/-- No difference means equal lists, whatever the payloads, exactly for comparable lists. -/
theorem computeDiff_sound_iff {x y : δ} (hy : (y == y) = true) (hxy : (x == y) = false) (hyx : (y == x) = false)
    (original replayed : List (RecordedEvent τ δ)) :
    (∀ original' replayed', SameShape original original' → SameShape replayed replayed' →
      (computeDiff original' replayed').none → SameEvents original' replayed') ↔ Comparable original replayed := by
  constructor
  · intro h
    unfold Comparable
    by_contra hnot
    push Not at hnot
    obtain ⟨hkeys, hnot⟩ := hnot
    have hdr := nodup_replayed_of_sound hy hkeys h hyx
    obtain ⟨o, ho, r, hr, hkey, hstep⟩ := hnot (nodup_original_of_sound hy hkeys h hxy) hdr
    exact hstep (stepId_eq_of_sound hy hkeys h hdr o ho r hr hkey)
  · intro h original' replayed' ho hr hnone
    exact sameEvents_of_noDifference (h.of_sameShape ho hr) hnone

/-- Python's `==` on payloads. -/
instance : BEq (Dict String PyVal) := ⟨fun a b => a.toPy.equals b.toPy⟩

def measured (time : Nat) (v : Int) : RecordedEvent Nat (Dict String PyVal) :=
  ⟨time, .measurementResult, "run", some "s", (∅ : Dict String PyVal).set "value" (.int v), by decide⟩

def started (time : Nat) : RecordedEvent Nat (Dict String PyVal) := ⟨time, .stepTransition, "run", some "s", ∅, by decide⟩

/-- A step that measures once, replayed with its events in another order. -/
theorem computeDiff_sound_measured :
    Comparable [started 0, measured 1 5] [measured 0 5, started 0] ∧
      ∀ original' replayed', SameShape [started 0, measured 1 5] original' →
        SameShape [measured 0 5, started 0] replayed' →
          (computeDiff original' replayed').none → SameEvents original' replayed' := by
  have hdecided : Comparable [started 0, measured 1 5] [measured 0 5, started 0] := .inr (by decide)
  exact ⟨hdecided, (computeDiff_sound_iff (x := (∅ : Dict String PyVal).set "value" (.int 1)) (y := ∅) rfl rfl rfl
    _ _).mpr hdecided⟩

/-- A retried measurement whose first value is another in the replay. -/
theorem computeDiff_retried :
    (computeDiff [measured 0 1, measured 1 2] [measured 0 3, measured 1 2]).none ∧
      ¬ SameEvents [measured 0 1, measured 1 2] [measured 0 3, measured 1 2] := by
  refine ⟨⟨rfl, rfl, rfl⟩, ?_⟩
  rintro ⟨es, hperm, hagree⟩
  obtain ⟨r, hr, -, -, hdata⟩ := exists_right hagree List.mem_cons_self
  rcases List.mem_pair.mp (hperm.mem_iff.mp hr) with rfl | rfl <;> exact absurd hdata (by decide)

end Compare

end AteStudio.Recorder
