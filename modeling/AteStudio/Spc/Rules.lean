import Mathlib

/-! # Western Electric rules (`ate_cloud/services/spc_math.py`) -/

namespace AteStudio.Spc

open List

inductive Rule where
  | we1
  | we2
  | we3
  | we4
deriving DecidableEq

def Rule.name : Rule → String
  | .we1 => "WE1_beyond_3sigma"
  | .we2 => "WE2_2of3_beyond_2sigma"
  | .we3 => "WE3_4of5_beyond_1sigma"
  | .we4 => "WE4_8_consecutive_one_side"

def sameSide (values : List ℚ) (center : ℚ) : Bool :=
  values ≠ [] ∧ ((∀ v ∈ values, center < v) ∨ ∀ v ∈ values, v < center)

section Rules

variable (values : List ℚ) (mu sigma : ℚ)

def beyond (window : List ℚ) (k : ℚ) : List ℚ := window.filter fun v => k * sigma < |v - mu|

/-- With fewer than `width` samples the last `need` are looked at. -/
def zoneRule (k : ℚ) (need width : Nat) : Bool :=
  need ≤ values.length ∧
    let window := if width ≤ values.length then values.rtake width else values.rtake need
    need ≤ (beyond mu sigma window k).length ∧ sameSide (beyond mu sigma window k) mu

def oneSideRule : Bool :=
  8 ≤ values.length ∧ ((∀ v ∈ values.rtake 8, mu < v) ∨ ∀ v ∈ values.rtake 8, v < mu)

def westernElectricRules : List Rule :=
  match values.getLast? with
  | none => []
  | some last =>
    if sigma ≤ 0 then []
    else
      (if 3 * sigma < |last - mu| then [.we1] else []) ++
      (if zoneRule values mu sigma 2 2 3 then [.we2] else []) ++
      (if zoneRule values mu sigma 1 4 5 then [.we3] else []) ++
      (if oneSideRule values mu then [.we4] else [])

end Rules

/-! ## Sides -/

inductive Side where
  | upper
  | lower
deriving DecidableEq

def Side.opposite : Side → Side
  | .upper => .lower
  | .lower => .upper

section Sides

variable (mu sigma k : ℚ)

def Beyond : Side → ℚ → Prop
  | .upper, v => mu + k * sigma < v
  | .lower, v => v < mu - k * sigma

instance : ∀ side v, Decidable (Beyond mu sigma k side v)
  | .upper, v => inferInstanceAs (Decidable (mu + k * sigma < v))
  | .lower, v => inferInstanceAs (Decidable (v < mu - k * sigma))

def countBeyond (side : Side) (window : List ℚ) : Nat := window.countP fun v => Beyond mu sigma k side v

/-- The last sample lies beyond on some side, with `need` of the last `width`. -/
def Completed (need width : Nat) (values : List ℚ) : Prop :=
  ∃ side, (∃ last ∈ values.getLast?, Beyond mu sigma k side last) ∧
    need ≤ countBeyond mu sigma k side (values.rtake width)

/-- The last of `need` samples is beyond exactly when none is on the other side. -/
def Unmixed (need width : Nat) (values : List ℚ) : Prop :=
  ∀ side, need ≤ countBeyond mu sigma k side (values.rtake width) →
    ((∃ last ∈ values.getLast?, Beyond mu sigma k side last) ↔
      ∀ v ∈ values.rtake width, ¬ Beyond mu sigma k side.opposite v)

end Sides

variable {mu sigma k : ℚ}

theorem lt_abs_iff (side : Side) (v : ℚ) :
    k * sigma < |v - mu| ↔ Beyond mu sigma k side v ∨ Beyond mu sigma k side.opposite v := by
  cases side <;> simp only [Beyond, Side.opposite, lt_abs] <;> constructor <;> rintro (h | h)
  all_goals first | (left; linarith) | (right; linarith)

theorem not_beyond_both (hk : 0 ≤ k * sigma) {side : Side} {v : ℚ} (h : Beyond mu sigma k side v) :
    ¬ Beyond mu sigma k side.opposite v := by
  cases side <;> simp only [Beyond, Side.opposite] at * <;> linarith [hk]

theorem countBeyond_add_le (hk : 0 ≤ k * sigma) (side : Side) (window : List ℚ) :
    countBeyond mu sigma k side window + countBeyond mu sigma k side.opposite window ≤ window.length := by
  induction window with
  | nil => simp [countBeyond]
  | cons v window ih =>
    have hv := @not_beyond_both mu sigma k hk side v
    simp only [countBeyond, countP_cons, length_cons, decide_eq_true_eq] at ih ⊢
    split <;> split <;> first | omega | (exfalso; exact hv ‹_› ‹_›)

theorem need_one_side (hk : 0 ≤ k * sigma) {need : Nat} (hneed : 2 ≤ need) {window : List ℚ}
    (hwindow : window.length ≤ need + 1) {side side' : Side} (h : need ≤ countBeyond mu sigma k side window)
    (h' : need ≤ countBeyond mu sigma k side' window) : side' = side := by
  have hadd : countBeyond mu sigma k side window + _ ≤ _ := countBeyond_add_le hk side window
  cases side <;> cases side' <;> simp only [Side.opposite] at hadd <;> first | rfl | omega

/-! ## The zone rules -/

theorem sameSide_beyond_iff (hk : 0 ≤ k * sigma) (window : List ℚ) :
    sameSide (beyond mu sigma window k) mu = true ↔
      beyond mu sigma window k ≠ [] ∧ ∃ side : Side, ∀ v ∈ window, ¬ Beyond mu sigma k side.opposite v := by
  have hup : (∀ v ∈ beyond mu sigma window k, mu < v) ↔ ∀ v ∈ window, ¬ Beyond mu sigma k .lower v := by
    simp only [beyond, mem_filter, decide_eq_true_eq, lt_abs_iff .upper, Side.opposite]
    refine forall_congr' fun v => ⟨fun h hv hlow => ?_, fun h ⟨hv, hside⟩ => ?_⟩
    · have := h ⟨hv, Or.inr hlow⟩
      simp only [Beyond] at hlow
      linarith
    · have := hside.resolve_right (h hv)
      simp only [Beyond] at this
      linarith
  have hlow : (∀ v ∈ beyond mu sigma window k, v < mu) ↔ ∀ v ∈ window, ¬ Beyond mu sigma k .upper v := by
    simp only [beyond, mem_filter, decide_eq_true_eq, lt_abs_iff .lower, Side.opposite]
    refine forall_congr' fun v => ⟨fun h hv hup => ?_, fun h ⟨hv, hside⟩ => ?_⟩
    · have := h ⟨hv, Or.inr hup⟩
      simp only [Beyond] at hup
      linarith
    · have := hside.resolve_right (h hv)
      simp only [Beyond] at this
      linarith
  simp only [sameSide, decide_eq_true_eq, hup, hlow]
  refine and_congr_right fun _ => ⟨?_, ?_⟩
  · rintro (h | h)
    · exact ⟨.upper, h⟩
    · exact ⟨.lower, h⟩
  · rintro ⟨side | side, h⟩
    · exact Or.inl h
    · exact Or.inr h

theorem length_beyond {side : Side} {window : List ℚ} (h : ∀ v ∈ window, ¬ Beyond mu sigma k side.opposite v) :
    (beyond mu sigma window k).length = countBeyond mu sigma k side window := by
  rw [beyond, countBeyond, ← countP_eq_length_filter]
  refine countP_congr fun v hv => ?_
  simp only [decide_eq_true_eq, lt_abs_iff side, or_iff_left (h v hv)]

theorem rtake_of_length_le {α : Type} {l : List α} {n : Nat} (h : l.length ≤ n) : l.rtake n = l := by
  rw [List.rtake, Nat.sub_eq_zero_of_le h, drop_zero]

/-- Reported when enough samples are on one side and none on the other. -/
theorem zoneRule_iff (hk : 0 ≤ k * sigma) {need : Nat} (hneed : 2 ≤ need) (values : List ℚ) :
    zoneRule values mu sigma k need (need + 1) = true ↔
      ∃ side, need ≤ countBeyond mu sigma k side (values.rtake (need + 1)) ∧
        ∀ v ∈ values.rtake (need + 1), ¬ Beyond mu sigma k side.opposite v := by
  have hwindow (h : need ≤ values.length) :
      (if need + 1 ≤ values.length then values.rtake (need + 1) else values.rtake need) = values.rtake (need + 1) := by
    split
    · rfl
    · rw [rtake_of_length_le (by omega), rtake_of_length_le (by omega)]
  rw [zoneRule, decide_eq_true_eq]
  constructor
  · rintro ⟨hlen, hcount, hsame⟩
    rw [hwindow hlen] at hcount hsame
    obtain ⟨-, side, hside⟩ := (sameSide_beyond_iff hk _).mp hsame
    exact ⟨side, length_beyond hside ▸ hcount, hside⟩
  · rintro ⟨side, hcount, hside⟩
    have hle := (countP_le_length (l := values.rtake (need + 1))).trans' hcount
    have hlen : need ≤ values.length := hle.trans (by simp [List.rtake])
    rw [← length_beyond hside] at hcount
    refine ⟨hlen, ?_⟩
    rw [hwindow hlen]
    refine ⟨hcount, (sameSide_beyond_iff hk _).mpr ⟨?_, side, hside⟩⟩
    exact ne_nil_of_length_pos (by omega)

theorem zoneRule_completed_iff (hk : 0 ≤ k * sigma) {need : Nat} (hneed : 2 ≤ need) (values : List ℚ) :
    (zoneRule values mu sigma k need (need + 1) = true ↔ Completed mu sigma k need (need + 1) values) ↔
      Unmixed mu sigma k need (need + 1) values := by
  have hlen : (values.rtake (need + 1)).length ≤ need + 1 := by
    simp only [List.rtake, length_drop]
    omega
  rw [zoneRule_iff hk hneed]
  constructor
  · intro h side hcount
    constructor
    · intro hlast
      obtain ⟨side', hcount', hnone⟩ := h.mpr ⟨side, hlast, hcount⟩
      exact need_one_side hk hneed hlen hcount hcount' ▸ hnone
    · intro hnone
      obtain ⟨side', hlast, hcount'⟩ := h.mp ⟨side, hcount, hnone⟩
      exact need_one_side hk hneed hlen hcount hcount' ▸ hlast
  · intro h
    constructor
    · rintro ⟨side, hcount, hnone⟩
      exact ⟨side, (h side hcount).mpr hnone, hcount⟩
    · rintro ⟨side, hlast, hcount⟩
      exact ⟨side, hcount, (h side hcount).mp hlast⟩

/-! ## What is reported -/

theorem mem_westernElectricRules (hsigma : 0 < sigma) (values : List ℚ) (rule : Rule) :
    rule ∈ westernElectricRules values mu sigma ↔
      match rule with
      | .we1 => ∃ last ∈ values.getLast?, 3 * sigma < |last - mu|
      | .we2 => zoneRule values mu sigma 2 2 3 = true
      | .we3 => zoneRule values mu sigma 1 4 5 = true
      | .we4 => oneSideRule values mu = true := by
  unfold westernElectricRules
  cases hlast : values.getLast? with
  | none =>
    rw [getLast?_eq_none_iff] at hlast
    subst hlast
    cases rule <;> simp [zoneRule, oneSideRule]
  | some last =>
    simp only [if_neg (not_le.mpr hsigma)]
    cases rule <;> grind

/-- The zone rules are reported exactly when their pattern is completed by the last sample. -/
def ZonesReported (values : List ℚ) (mu sigma : ℚ) : Prop :=
  (.we2 ∈ westernElectricRules values mu sigma ↔ Completed mu sigma 2 2 3 values) ∧
    (.we3 ∈ westernElectricRules values mu sigma ↔ Completed mu sigma 1 4 5 values)

theorem zonesReported_iff (values : List ℚ) (mu sigma : ℚ) (hsigma : 0 < sigma) :
    ZonesReported values mu sigma ↔ Unmixed mu sigma 2 2 3 values ∧ Unmixed mu sigma 1 4 5 values := by
  have h2 : 0 ≤ 2 * sigma := by linarith
  have h1 : 0 ≤ 1 * sigma := by linarith
  simp only [ZonesReported, mem_westernElectricRules hsigma]
  exact and_congr (zoneRule_completed_iff h2 (by decide) values) (zoneRule_completed_iff h1 (by decide) values)

theorem zonesReported_twoHigh : ZonesReported [0, 3, 5 / 2] 0 1 := by
  refine (zonesReported_iff _ 0 1 (by decide)).mpr ⟨?_, ?_⟩ <;> intro side <;> cases side <;> decide +kernel

/-- The last sample is back at the centre, and WE2 is reported for the two samples before it. -/
theorem not_zonesReported_recovered :
    .we2 ∈ westernElectricRules [3, 3, 0] 0 1 ∧ ¬ Completed 0 1 2 2 3 [3, 3, 0] ∧ ¬ ZonesReported [3, 3, 0] 0 1 := by
  have hreported : .we2 ∈ westernElectricRules [3, 3, 0] 0 1 := by decide +kernel
  have hnot : ¬ Completed 0 1 2 2 3 [3, 3, 0] := by
    rintro ⟨side, hlast, -⟩
    revert hlast
    cases side <;> decide +kernel
  exact ⟨hreported, hnot, fun h => hnot (h.1.mp hreported)⟩

end AteStudio.Spc
