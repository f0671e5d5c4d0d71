import AteStudio.Lib.Dict
import AteStudio.Lib.Except
import AteStudio.Lib.Splits
import AteStudio.Spc.Rules

/-! # The SPC processor (`ate_cloud/services/spc.py`, `spc_math.py`) -/

namespace AteStudio.Spc

open List

open AteStudio.Splits (AtEach atEach_append atEach_nil atEach_singleton)

/-! ## Statistics -/

def mean (values : List ℚ) : ℚ := values.sum / values.length

def chunk (values : List ℚ) (size : Nat) : List (List ℚ) :=
  (List.range ((values.length + size - 1) / size)).map fun i => (values.drop (i * size)).take size

def subgroupRanges (subgroups : List (List ℚ)) : List ℚ :=
  (subgroups.filter (· ≠ [])).map fun sg => sg.foldl max (sg.headD 0) - sg.foldl min (sg.headD 0)

def d2 : Nat → Option ℚ
  | 2 => some (1128 / 1000)
  | 3 => some (1693 / 1000)
  | 4 => some (2059 / 1000)
  | 5 => some (2326 / 1000)
  | 6 => some (2534 / 1000)
  | 7 => some (2704 / 1000)
  | _ => none

def cp (usl lsl sigmaWithin : ℚ) : ℚ := (usl - lsl) / (6 * sigmaWithin)

/-- `cpk` with the sigma within subgroups, and `ppk` with the overall one. -/
def capability (usl lsl mu sigma : ℚ) : ℚ := min ((usl - mu) / (3 * sigma)) ((mu - lsl) / (3 * sigma))

/-- `_within_sigma`: the mean range of the complete subgroups, over `d2`. -/
def withinSigma (subgroupSize : Nat) (values : List ℚ) : Except String ℚ :=
  if values.length < subgroupSize then .ok 0
  else if subgroupSize < 1 then .error "size must be >= 1"
  else
    let chunks := chunk values subgroupSize
    let subs := if (chunks.getLastD []).length < subgroupSize then chunks.dropLast else chunks
    if subs = [] then .ok 0
    else
      match d2 subgroupSize with
      | none => .ok 0
      | some d => .ok (mean (subgroupRanges subs) / d)

/-! ## Measurements -/

structure Measurement where
  productRef : String
  name : String
  value : Option ℚ
  timestamp : ℤ
  limitsMin : Option ℚ := none
  limitsMax : Option ℚ := none

abbrev StreamKey := String × String

abbrev Limits := Option ℚ × Option ℚ

def Measurement.key (m : Measurement) : StreamKey := (m.productRef, m.name)

structure Alert where
  productType : String
  measurementName : String
  rule : String
  severity : String
  message : String
  value : ℚ
  sampleCount : Nat

structure Processor where
  windowSize : Nat := 100
  subgroupSize : Nat := 5
  windows : Dict StreamKey (List ℚ) := ∅
  limits : Dict StreamKey Limits := ∅
  timestamps : Dict StreamKey (List ℤ) := ∅
  alerts : List Alert := []

def appendBounded {α : Type} (size : Nat) (queue : List α) (a : α) : List α := (queue ++ [a]).rtake size

/-- Where the lower limit was missing, the pair is taken over whole. -/
def cacheLimits (cached : Option Limits) (m : Measurement) : Limits :=
  match cached with
  | none => (m.limitsMin, m.limitsMax)
  | some (lsl, usl) =>
    if lsl = none ∧ m.limitsMin ≠ none then (m.limitsMin, m.limitsMax)
    else if usl = none ∧ m.limitsMax ≠ none then (lsl, m.limitsMax)
    else (lsl, usl)

namespace Processor

def limitsOf (p : Processor) (key : StreamKey) : Limits := p.limits.getD key (none, none)

def ingest (p : Processor) (m : Measurement) (value : ℚ) : Processor :=
  { p with
    windows := p.windows.set m.key (appendBounded p.windowSize (p.windows.getD m.key []) value)
    timestamps := p.timestamps.set m.key (appendBounded p.windowSize (p.timestamps.getD m.key []) m.timestamp)
    limits := p.limits.set m.key (cacheLimits (p.limits.get? m.key) m) }

def raise (p : Processor) (alert : Alert) : Processor := { p with alerts := appendBounded 200 p.alerts alert }

section Process

/- `math.sqrt`, and the format `.3f` -/
variable (sqrt : ℚ → ℚ) (fixed3 : ℚ → String)

def populationStddev (values : List ℚ) (mu : ℚ) : ℚ :=
  sqrt ((values.map fun v => (v - mu) ^ 2).sum / values.length)

def checkPpk (key : StreamKey) (mu sigmaOverall : ℚ) (limits : Limits) (values : List ℚ) (value : ℚ) : Option Alert :=
  match limits with
  | (some lsl, some usl) =>
    if sigmaOverall ≤ 0 then none
    else
      let ppk := capability usl lsl mu sigmaOverall
      if 1 ≤ ppk then none
      else some
        { productType := key.1
          measurementName := key.2
          rule := "Ppk_below_1.00"
          severity := "critical"
          message := "Ppk=" ++ fixed3 ppk ++ " below threshold 1.00"
          value
          sampleCount := values.length }
  | _ => none

def ruleAlert (key : StreamKey) (values : List ℚ) (value : ℚ) (rule : Rule) : Alert where
  productType := key.1
  measurementName := key.2
  rule := rule.name
  severity := "warning"
  message := "Western Electric rule violated: " ++ rule.name
  value
  sampleCount := values.length

/-- Whatever the answer is, the measurement has been taken in before. -/
def processMeasurement (p : Processor) (m : Measurement) : Processor × Except String (Option Alert) :=
  match m.value with
  | none => (p, .ok none)
  | some value =>
    let p := p.ingest m value
    let values := p.windows.getD m.key []
    if values.length < 2 then (p, .ok none)
    else
      let mu := mean values
      let sigmaOverall := populationStddev sqrt values mu
      match withinSigma p.subgroupSize values with
      | .error e => (p, .error e)
      | .ok sigmaWithin =>
        let ppkAlert := checkPpk fixed3 m.key mu sigmaOverall (p.limitsOf m.key) values value
        let weAlerts := if 0 < sigmaWithin
          then (westernElectricRules values mu sigmaWithin).map (ruleAlert m.key values value) else []
        ((ppkAlert.toList ++ weAlerts).foldl raise p, .ok (ppkAlert <|> weAlerts.head?))

def processAll (p : Processor) (ms : List Measurement) : Processor :=
  ms.foldl (fun p m => (p.processMeasurement sqrt fixed3 m).1) p

structure Statistics where
  productType : String
  measurementName : String
  sampleCount : Nat
  mean : Option ℚ := none
  stdDevWithin : Option ℚ := none
  stdDevOverall : Option ℚ := none
  cp : Option ℚ := none
  cpk : Option ℚ := none
  ppk : Option ℚ := none
  usl : Option ℚ := none
  lsl : Option ℚ := none
  lastUpdated : Option ℤ := none

def getStatistics (p : Processor) (key : StreamKey) : Except String Statistics :=
  match p.windows.getD key [] with
  | [] => .ok { productType := key.1, measurementName := key.2, sampleCount := 0 }
  | v :: vs => do
    let values := v :: vs
    let mu := mean values
    let sigmaOverall := populationStddev sqrt values mu
    let sigmaWithin ← withinSigma p.subgroupSize values
    let (lsl, usl) := p.limitsOf key
    let both := usl.bind fun u => lsl.map fun l => (u, l)
    let within := both.filter fun _ => 0 < sigmaWithin
    return {
      productType := key.1
      measurementName := key.2
      sampleCount := values.length
      mean := some mu
      stdDevWithin := if 0 < sigmaWithin then some sigmaWithin else none
      stdDevOverall := if 0 < sigmaOverall then some sigmaOverall else none
      cp := within.map fun (u, l) => Spc.cp u l sigmaWithin
      cpk := within.map fun (u, l) => capability u l mu sigmaWithin
      ppk := (both.filter fun _ => 0 < sigmaOverall).map fun (u, l) => capability u l mu sigmaOverall
      usl
      lsl
      lastUpdated := (p.timestamps.getD key []).getLast? }

/-! ## The limits in use -/

variable {sqrt : ℚ → ℚ} {fixed3 : ℚ → String}

@[simp] theorem limits_foldl_raise (p : Processor) (alerts : List Alert) : (alerts.foldl raise p).limits = p.limits := by
  induction alerts generalizing p with
  | nil => rfl
  | cons alert alerts ih => rw [foldl_cons, ih, raise]

theorem limits_processMeasurement (p : Processor) (m : Measurement) :
    (p.processMeasurement sqrt fixed3 m).1.limits =
      if m.value = none then p.limits else p.limits.set m.key (cacheLimits (p.limits.get? m.key) m) := by
  unfold processMeasurement
  cases m.value with
  | none => rfl
  | some value =>
    simp only [reduceCtorEq, if_false]
    split
    · rfl
    · split
      · rfl
      · rw [limits_foldl_raise, ingest]

theorem getStatistics_limits {p : Processor} {key : StreamKey} {stats : Statistics}
    (h : getStatistics sqrt p key = .ok stats) (hwindow : p.windows.getD key [] ≠ []) :
    (stats.lsl, stats.usl) = p.limitsOf key := by
  unfold getStatistics at h
  split at h
  · contradiction
  · obtain ⟨sigmaWithin, -, hstats⟩ := bind_eq_ok.mp h
    cases hstats
    rfl

end Process

end Processor

def firstLimits (ms : List Measurement) : Limits := (ms.findSome? (·.limitsMin), ms.findSome? (·.limitsMax))

theorem firstLimits_concat (ms : List Measurement) (m : Measurement) :
    firstLimits (ms ++ [m]) = ((firstLimits ms).1.or m.limitsMin, (firstLimits ms).2.or m.limitsMax) := by
  simp [firstLimits, findSome?_append]

theorem cacheLimits_getD (cached : Option Limits) (m : Measurement) :
    cacheLimits cached m = cacheLimits (some (cached.getD (none, none))) m := by
  cases cached with
  | none => cases hl : m.limitsMin <;> cases hu : m.limitsMax <;> simp [cacheLimits, hl, hu]
  | some limits => rfl

section Sticky

variable (sqrt : ℚ → ℚ) (fixed3 : ℚ → String) (windowSize subgroupSize : Nat) (key : StreamKey)
  (before ms : List Measurement) (m : Measurement)

def processed : Processor :=
  Processor.processAll sqrt fixed3 { windowSize, subgroupSize } ms

def stream : List Measurement := ms.filter (·.key = key)

/-- At every point the limits in use are the first ones seen, for each side separately. -/
def LimitsSticky : Prop :=
  ∀ before, before <+: ms →
    (processed sqrt fixed3 windowSize subgroupSize before).limitsOf key = firstLimits (stream key before)

/-- Only values bring new limits, and the first lower one brings a known upper one again. -/
def LimitsKept : Prop :=
  if m.value = none then
    (m.limitsMin ≠ none → (firstLimits before).1 ≠ none) ∧ (m.limitsMax ≠ none → (firstLimits before).2 ≠ none)
  else
    m.limitsMin ≠ none → (firstLimits before).1 = none → (firstLimits before).2 ≠ none →
      m.limitsMax = (firstLimits before).2

variable {sqrt fixed3 windowSize subgroupSize}

theorem processed_concat :
    processed sqrt fixed3 windowSize subgroupSize (ms ++ [m]) =
      ((processed sqrt fixed3 windowSize subgroupSize ms).processMeasurement sqrt fixed3 m).1 := by
  simp [processed, Processor.processAll]

theorem limitsOf_concat :
    (processed sqrt fixed3 windowSize subgroupSize (ms ++ [m])).limitsOf key =
      if m.value = none ∨ m.key ≠ key then (processed sqrt fixed3 windowSize subgroupSize ms).limitsOf key
      else cacheLimits (some ((processed sqrt fixed3 windowSize subgroupSize ms).limitsOf key)) m := by
  rw [processed_concat]
  unfold Processor.limitsOf Dict.getD
  rw [Processor.limits_processMeasurement, ← cacheLimits_getD]
  by_cases hvalue : m.value = none
  · simp [hvalue]
  · by_cases hkey : m.key = key
    · subst hkey
      simp [hvalue, Dict.get?_set_self]
    · simp [hvalue, hkey, Dict.get?_set_of_ne _ _ (Ne.symm hkey)]

theorem limitsKept_iff :
    (if m.value = none then firstLimits before else cacheLimits (some (firstLimits before)) m) =
      firstLimits (before ++ [m]) ↔ LimitsKept before m := by
  rw [firstLimits_concat, LimitsKept]
  obtain ⟨lsl, usl⟩ := firstLimits before
  split
  · cases lsl <;> cases usl <;> cases m.limitsMin <;> cases m.limitsMax <;> simp
  · cases lsl <;> cases usl <;> cases hmin : m.limitsMin <;> cases hmax : m.limitsMax <;> simp [cacheLimits, hmin, hmax]

theorem limitsSticky_concat :
    LimitsSticky sqrt fixed3 windowSize subgroupSize key (ms ++ [m]) ↔
      LimitsSticky sqrt fixed3 windowSize subgroupSize key ms ∧
        (processed sqrt fixed3 windowSize subgroupSize (ms ++ [m])).limitsOf key =
          firstLimits (stream key (ms ++ [m])) := by
  constructor
  · exact fun h => ⟨fun before hbefore => h before (hbefore.trans (prefix_append ..)), h _ (prefix_refl _)⟩
  · rintro ⟨hms, hlast⟩ before hbefore
    rcases prefix_concat_iff.mp hbefore with rfl | hbefore
    · exact hlast
    · exact hms before hbefore

theorem limitsSticky_iff (sqrt : ℚ → ℚ) (fixed3 : ℚ → String) (windowSize subgroupSize : Nat) (key : StreamKey)
    (ms : List Measurement) :
    LimitsSticky sqrt fixed3 windowSize subgroupSize key ms ↔ AtEach LimitsKept (stream key ms) := by
  -- the measurements of the other streams change nothing on either side
  induction ms using List.reverseRecOn with
  | nil =>
    refine iff_of_true (fun before hbefore => ?_) atEach_nil
    rw [List.prefix_nil.mp hbefore]
    rfl
  | append_singleton ms m ih =>
    rw [limitsSticky_concat, ih]
    by_cases hkey : m.key = key
    · have hstream : stream key (ms ++ [m]) = stream key ms ++ [m] := by simp [stream, hkey]
      rw [hstream, atEach_append, atEach_singleton, List.append_nil]
      refine and_congr_right fun hkept => ?_
      have hlimits := ih.mpr hkept ms (List.prefix_refl _)
      rw [limitsOf_concat, ← limitsKept_iff, hlimits]
      simp only [hkey, ne_eq, not_true, or_false]
    · have hstream : stream key (ms ++ [m]) = stream key ms := by simp [stream, hkey]
      rw [hstream]
      refine and_iff_left_of_imp fun hkept => ?_
      rw [limitsOf_concat, if_pos (Or.inr hkey)]
      exact ih.mpr hkept ms (List.prefix_refl _)

def reading (lsl usl : Option ℚ) : Measurement :=
  { productRef := "board", name := "voltage_3v3", value := some 3, timestamp := 0, limitsMin := lsl, limitsMax := usl }

/-- The upper limit comes first, the lower one alone after it, and the upper one is lost. -/
theorem not_limitsSticky_lowerLater :
    (processed (fun v => v) (fun _ => "") 100 5 [reading none (some 5), reading (some 1) none]).limitsOf
        ("board", "voltage_3v3") = (some 1, none) ∧
      ¬ LimitsSticky (fun v => v) (fun _ => "") 100 5 ("board", "voltage_3v3")
        [reading none (some 5), reading (some 1) none] := by
  have hlost : (processed (fun v => v) (fun _ => "") 100 5 [reading none (some 5), reading (some 1) none]).limitsOf
      ("board", "voltage_3v3") = (some 1, none) := by decide +kernel
  refine ⟨hlost, fun h => ?_⟩
  have hfirst := h _ (List.prefix_refl _)
  rw [hlost] at hfirst
  revert hfirst
  decide +kernel

end Sticky

end AteStudio.Spc
