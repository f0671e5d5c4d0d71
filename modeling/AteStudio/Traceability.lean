import AteStudio.Lib.Except

/-!
# The trace of a serial number (`ate_cloud/services/test_trace_service.py`)

Measurements whose execution is not one of the device get a step of their own.
-/

namespace AteStudio.Traceability

open List

structure Execution where
  id : String
  sequenceId : Option String := none
  status : String
  dutSerial : Option String
  stationId : Option String := none
  instrumentIds : Option (List String) := none
  startedAt : Option ℤ
  completedAt : Option ℤ := none
  createdAt : ℤ
deriving DecidableEq

structure Measurement where
  measurementId : String
  executionRef : Option String
  dutSerial : String
  timestamp : ℤ
  name : String
  value : Option ℚ := none
  unit : Option String := none
  limitsMin : Option ℚ := none
  limitsMax : Option ℚ := none
  outcome : String
deriving DecidableEq

/-- The driver gives back all times with a zone, or all without. -/
structure Database where
  executions : List Execution
  measurements : List Measurement
  aware : Bool
  execution_ids : (executions.map (·.id)).Nodup
  measurement_ids : (measurements.map (·.measurementId)).Nodup

structure TraceMeasurement where
  measurementId : String
  name : String
  value : Option ℚ
  unit : Option String
  limitsMin : Option ℚ
  limitsMax : Option ℚ
  outcome : String
  timestamp : ℤ
deriving DecidableEq

structure TraceStep where
  executionId : String
  sequenceId : Option String
  stationId : Option String
  status : String
  startedAt : Option ℤ
  completedAt : Option ℤ
  instruments : List String
  measurements : List TraceMeasurement
deriving DecidableEq

/-! ## Queries -/

/-- `NULLS LAST`, and `started_at or datetime.max` -/
def startsBefore : Option ℤ → Option ℤ → Bool
  | _, none => true
  | none, some _ => false
  | some a, some b => a ≤ b

def queriedBefore (a b : Execution) : Bool :=
  if a.startedAt = b.startedAt then a.createdAt ≤ b.createdAt else startsBefore a.startedAt b.startedAt

namespace Database

variable (db : Database) (serial : String)

def executionsOf : List Execution :=
  (db.executions.filter (·.dutSerial = some serial)).insertionSort fun a b => queriedBefore a b

def measurementsOf : List Measurement :=
  (db.measurements.filter (·.dutSerial = serial)).insertionSort fun a b => a.timestamp ≤ b.timestamp

end Database

/-! ## Steps -/

def Measurement.traced (m : Measurement) : TraceMeasurement where
  measurementId := m.measurementId
  name := m.name
  value := m.value
  unit := m.unit
  limitsMin := m.limitsMin
  limitsMax := m.limitsMax
  outcome := m.outcome
  timestamp := m.timestamp

def measurementsWith (ref : String) (measurements : List Measurement) : List TraceMeasurement :=
  (measurements.filter (·.executionRef = some ref)).map (·.traced)

def stepFromExecution (execution : Execution) (measurements : List Measurement) : TraceStep where
  executionId := execution.id
  sequenceId := execution.sequenceId
  stationId := execution.stationId
  status := execution.status
  startedAt := execution.startedAt
  completedAt := execution.completedAt
  instruments := execution.instrumentIds.getD []
  measurements := measurementsWith execution.id measurements

def syntheticStepForRef (ref : String) (measurements : List Measurement) : TraceStep where
  executionId := ref
  sequenceId := none
  stationId := none
  status := "UNKNOWN"
  startedAt := ((measurementsWith ref measurements).map (·.timestamp)).min?
  completedAt := none
  instruments := []
  measurements := measurementsWith ref measurements

inductive Failure where
  | typeError
deriving DecidableEq

/-- The stand-in for a missing start has no zone and cannot be compared with one that has. -/
def sortSteps (aware : Bool) (steps : List TraceStep) : Except Failure (List TraceStep) :=
  if aware ∧ (∃ s ∈ steps, s.startedAt = none) ∧ ∃ s ∈ steps, s.startedAt ≠ none then .error .typeError
  else .ok (steps.insertionSort fun a b => startsBefore a.startedAt b.startedAt)

namespace Database

variable (db : Database) (serial : String)

def orphanRefs : List String :=
  (((db.measurementsOf serial).filterMap (·.executionRef)).filter (· ∉ (db.executionsOf serial).map (·.id))).dedup

def executionSteps : List TraceStep :=
  (db.executionsOf serial).map fun e => stepFromExecution e (db.measurementsOf serial)

def orphanSteps : List TraceStep :=
  (db.orphanRefs serial).map fun ref => syntheticStepForRef ref (db.measurementsOf serial)

end Database

def buildTrace (db : Database) (serial : String) : Except Failure (List TraceStep) :=
  if db.orphanRefs serial = [] then .ok (db.executionSteps serial)
  else do
    let orphanSteps ← sortSteps db.aware (db.orphanSteps serial)
    sortSteps db.aware (db.executionSteps serial ++ orphanSteps)

/-! ## Completeness -/

/-- Every measurement and every execution of the device is in one step, and no others. -/
structure Complete (db : Database) (serial : String) (steps : List TraceStep) : Prop where
  measured : ∀ m ∈ db.measurements, m.dutSerial = serial → steps.countP (fun s => m.traced ∈ s.measurements) = 1
  executed : ∀ e ∈ db.executions, e.dutSerial = some serial → steps.countP (fun s => s.executionId = e.id) = 1
  own : ∀ s ∈ steps, ∀ t ∈ s.measurements, ∃ m ∈ db.measurements, m.dutSerial = serial ∧ m.traced = t

def HasUnstarted (db : Database) (serial : String) : Prop :=
  ∃ e ∈ db.executions, e.dutSerial = some serial ∧ e.startedAt = none

def HasOrphan (db : Database) (serial : String) : Prop :=
  ∃ m ∈ db.measurements, m.dutSerial = serial ∧
    ∃ ref, m.executionRef = some ref ∧ ∀ e ∈ db.executions, e.dutSerial = some serial → e.id ≠ ref

variable {db : Database} {serial : String}

/-! ## Rows -/

theorem mem_executionsOf {e : Execution} : e ∈ db.executionsOf serial ↔ e ∈ db.executions ∧ e.dutSerial = some serial := by
  simp [Database.executionsOf]

variable {m : Measurement}

theorem mem_measurementsOf : m ∈ db.measurementsOf serial ↔ m ∈ db.measurements ∧ m.dutSerial = serial := by
  simp [Database.measurementsOf]

theorem executionsOf_ids_nodup : ((db.executionsOf serial).map (·.id)).Nodup := by
  have hperm := (perm_insertionSort (fun a b => queriedBefore a b = true)
    (db.executions.filter (·.dutSerial = some serial))).map (·.id)
  exact hperm.nodup_iff.mpr ((filter_sublist.map _).nodup db.execution_ids)

theorem traced_inj {m' : Measurement} (hm : m ∈ db.measurements) (hm' : m' ∈ db.measurements)
    (h : m.traced = m'.traced) : m = m' :=
  inj_on_of_nodup_map db.measurement_ids hm hm' (congrArg TraceMeasurement.measurementId h)

theorem traced_mem_iff (hm : m ∈ db.measurementsOf serial) (ref : String) :
    m.traced ∈ measurementsWith ref (db.measurementsOf serial) ↔ m.executionRef = some ref := by
  simp only [measurementsWith, mem_map, mem_filter, decide_eq_true_eq]
  constructor
  · rintro ⟨m', ⟨hm', href⟩, htraced⟩
    rwa [← traced_inj (mem_measurementsOf.mp hm').1 (mem_measurementsOf.mp hm).1 htraced]
  · exact fun href => ⟨m, ⟨hm, href⟩, rfl⟩

/-! ## Orphans -/

theorem mem_orphanRefs {ref : String} :
    ref ∈ db.orphanRefs serial ↔
      (∃ m ∈ db.measurementsOf serial, m.executionRef = some ref) ∧ ref ∉ (db.executionsOf serial).map (·.id) := by
  simp [Database.orphanRefs]

theorem orphanRefs_nodup : (db.orphanRefs serial).Nodup :=
  nodup_dedup _

theorem orphanRefs_ne_nil_iff : db.orphanRefs serial ≠ [] ↔ HasOrphan db serial := by
  constructor
  · intro h
    obtain ⟨ref, href⟩ := exists_mem_of_ne_nil _ h
    obtain ⟨⟨m, hm, hmref⟩, hnone⟩ := mem_orphanRefs.mp href
    obtain ⟨hmem, hserial⟩ := mem_measurementsOf.mp hm
    refine ⟨m, hmem, hserial, ref, hmref, fun e he hdut heq => hnone ?_⟩
    exact mem_map.mpr ⟨e, mem_executionsOf.mpr ⟨he, hdut⟩, heq⟩
  · rintro ⟨m, hm, hserial, ref, href, hnone⟩
    refine ne_nil_of_mem (mem_orphanRefs.mpr ⟨⟨m, mem_measurementsOf.mpr ⟨hm, hserial⟩, href⟩, fun hid => ?_⟩)
    obtain ⟨e, he, heq⟩ := mem_map.mp hid
    exact hnone e (mem_executionsOf.mp he).1 (mem_executionsOf.mp he).2 heq

theorem orphanSteps_started : ∀ s ∈ db.orphanSteps serial, s.startedAt ≠ none := by
  intro s hs
  obtain ⟨ref, href, rfl⟩ := mem_map.mp hs
  obtain ⟨m, hm, hmref⟩ := (mem_orphanRefs.mp href).1
  intro hnone
  rw [syntheticStepForRef, min?_eq_none_iff, map_eq_nil_iff] at hnone
  have hmem := (traced_mem_iff hm ref).mpr hmref
  rw [hnone] at hmem
  cases hmem

/-! ## The order of the steps -/

variable {steps : List TraceStep}

theorem sortSteps_perm {aware : Bool} {sorted : List TraceStep} (h : sortSteps aware steps = .ok sorted) :
    sorted.Perm steps := by
  unfold sortSteps at h
  split at h
  · cases h
  · cases h
    exact perm_insertionSort _ _

theorem exists_sortSteps_iff (aware : Bool) (steps : List TraceStep) :
    (∃ sorted, sortSteps aware steps = .ok sorted) ↔
      ¬ (aware = true ∧ (∃ s ∈ steps, s.startedAt = none) ∧ ∃ s ∈ steps, s.startedAt ≠ none) := by
  unfold sortSteps
  split
  · next h => exact iff_of_false (by simp) (not_not.mpr h)
  · next h => exact iff_of_true ⟨_, rfl⟩ h

theorem buildTrace_perm (h : buildTrace db serial = .ok steps) :
    steps.Perm (db.executionSteps serial ++ db.orphanSteps serial) := by
  unfold buildTrace at h
  split at h
  · next hrefs =>
    cases h
    simp [Database.orphanSteps, hrefs]
  · obtain ⟨orphanSteps, horphans, hsteps⟩ := bind_eq_ok.mp h
    exact (sortSteps_perm hsteps).trans ((sortSteps_perm horphans).append_left _)

theorem exists_buildTrace_iff :
    (∃ steps, buildTrace db serial = .ok steps) ↔ ¬ (db.aware = true ∧ HasOrphan db serial ∧ HasUnstarted db serial) := by
  unfold buildTrace
  split
  · next hrefs => exact iff_of_true ⟨_, rfl⟩ fun h => orphanRefs_ne_nil_iff.mpr h.2.1 hrefs
  · next hrefs =>
    have hstarted := @orphanSteps_started db serial
    obtain ⟨orphanSteps, horphans⟩ := (exists_sortSteps_iff db.aware (db.orphanSteps serial)).mpr
      fun ⟨_, ⟨s, hs, hnone⟩, _⟩ => hstarted s hs hnone
    have hperm := sortSteps_perm horphans
    have hbind : ∀ steps, (do
        let orphanSteps ← sortSteps db.aware (db.orphanSteps serial)
        sortSteps db.aware (db.executionSteps serial ++ orphanSteps)) = .ok steps ↔
          sortSteps db.aware (db.executionSteps serial ++ orphanSteps) = .ok steps := by
      intro steps
      rw [horphans]
      rfl
    simp only [hbind, exists_sortSteps_iff]
    -- one of the steps made for a reference has a start, so the sort fails at a step that has none
    obtain ⟨ref, href⟩ := exists_mem_of_ne_nil _ hrefs
    have hsome : ∃ s ∈ db.executionSteps serial ++ orphanSteps, s.startedAt ≠ none := by
      have hs : syntheticStepForRef ref (db.measurementsOf serial) ∈ db.orphanSteps serial := mem_map_of_mem href
      exact ⟨_, mem_append_right _ (hperm.mem_iff.mpr hs), hstarted _ hs⟩
    have hnone : (∃ s ∈ db.executionSteps serial ++ orphanSteps, s.startedAt = none) ↔ HasUnstarted db serial := by
      constructor
      · rintro ⟨s, hs, hnone⟩
        rcases mem_append.mp hs with hs | hs
        · obtain ⟨e, he, rfl⟩ := mem_map.mp hs
          exact ⟨e, (mem_executionsOf.mp he).1, (mem_executionsOf.mp he).2, hnone⟩
        · exact absurd hnone (hstarted s (hperm.mem_iff.mp hs))
      · rintro ⟨e, he, hdut, hnone⟩
        exact ⟨_, mem_append_left _ (mem_map_of_mem (mem_executionsOf.mpr ⟨he, hdut⟩)), hnone⟩
    rw [hnone, iff_true_intro hsome, iff_true_intro (orphanRefs_ne_nil_iff.mp hrefs)]
    simp only [and_true, true_and]

/-! ## Where a row is found -/

theorem countP_ref {names : List String} (h : names.Nodup) (ref : String) :
    names.countP (fun name => some ref = some name) = if ref ∈ names then 1 else 0 := by
  rw [← h.count, List.count]
  refine countP_congr fun name _ => ?_
  rw [decide_eq_true_iff, Option.some_inj, beq_iff_eq, eq_comm]

section

variable (hsteps : steps.Perm (db.executionSteps serial ++ db.orphanSteps serial))

include hsteps

theorem countP_traced (hm : m ∈ db.measurementsOf serial) :
    steps.countP (fun s => m.traced ∈ s.measurements) = if m.executionRef = none then 0 else 1 := by
  rw [hsteps.countP_eq, countP_append, Database.executionSteps, Database.orphanSteps, countP_map, countP_map]
  have hexecution : (db.executionsOf serial).countP
      ((fun s => decide (m.traced ∈ s.measurements)) ∘ fun e => stepFromExecution e (db.measurementsOf serial)) =
        ((db.executionsOf serial).map (·.id)).countP (fun id => m.executionRef = some id) := by
    rw [countP_map]
    exact countP_congr fun e _ => by simp [stepFromExecution, traced_mem_iff hm]
  have horphan : (db.orphanRefs serial).countP
      ((fun s => decide (m.traced ∈ s.measurements)) ∘ fun ref => syntheticStepForRef ref (db.measurementsOf serial)) =
        (db.orphanRefs serial).countP (fun ref => m.executionRef = some ref) :=
    countP_congr fun ref _ => by simp [syntheticStepForRef, traced_mem_iff hm]
  rw [hexecution, horphan]
  cases href : m.executionRef with
  | none => simp
  | some ref =>
    have hiff : ref ∈ db.orphanRefs serial ↔ ref ∉ (db.executionsOf serial).map (·.id) := by
      rw [mem_orphanRefs]
      exact and_iff_right ⟨m, hm, href⟩
    rw [countP_ref executionsOf_ids_nodup, countP_ref orphanRefs_nodup, if_congr hiff rfl rfl]
    split <;> simp_all

theorem countP_executionId {e : Execution}
    (he : e ∈ db.executionsOf serial) : steps.countP (fun s => s.executionId = e.id) = 1 := by
  have hid : e.id ∈ (db.executionsOf serial).map (·.id) := mem_map_of_mem he
  have hexecution : (db.executionSteps serial).countP (fun s => s.executionId = e.id) = 1 := by
    rw [← count_eq_one_of_mem executionsOf_ids_nodup hid, List.count, countP_map, Database.executionSteps, countP_map]
    exact countP_congr fun e' _ => by simp [stepFromExecution]
  have horphan : (db.orphanSteps serial).countP (fun s => s.executionId = e.id) = 0 := by
    refine countP_eq_zero.mpr fun s hs => ?_
    obtain ⟨ref, href, rfl⟩ := mem_map.mp hs
    rw [decide_eq_true_iff]
    rintro rfl
    exact (mem_orphanRefs.mp href).2 hid
  rw [hsteps.countP_eq, countP_append, hexecution, horphan]

theorem measurement_of_mem {s : TraceStep} (hs : s ∈ steps)
    {t : TraceMeasurement} (ht : t ∈ s.measurements) : ∃ m ∈ db.measurements, m.dutSerial = serial ∧ m.traced = t := by
  have hwith : ∃ ref, s.measurements = measurementsWith ref (db.measurementsOf serial) := by
    rcases mem_append.mp (hsteps.mem_iff.mp hs) with hs | hs
    · obtain ⟨e, -, rfl⟩ := mem_map.mp hs
      exact ⟨e.id, rfl⟩
    · obtain ⟨ref, -, rfl⟩ := mem_map.mp hs
      exact ⟨ref, rfl⟩
  obtain ⟨ref, href⟩ := hwith
  rw [href] at ht
  obtain ⟨m, hm, rfl⟩ := mem_map.mp ht
  obtain ⟨hmem, hserial⟩ := mem_measurementsOf.mp (mem_filter.mp hm).1
  exact ⟨m, hmem, hserial, rfl⟩

end

/-! ## The report -/

theorem complete_iff_of_ok (h : buildTrace db serial = .ok steps) :
    Complete db serial steps ↔ ∀ m ∈ db.measurements, m.dutSerial = serial → m.executionRef ≠ none := by
  have hperm := buildTrace_perm h
  constructor
  · intro hcomplete m hm hserial hnone
    have hone := hcomplete.measured m hm hserial
    rw [countP_traced hperm (mem_measurementsOf.mpr ⟨hm, hserial⟩), if_pos hnone] at hone
    exact absurd hone (by decide)
  · intro href
    refine ⟨fun m hm hserial => ?_, fun e he hserial => ?_, fun s hs t ht => measurement_of_mem hperm hs ht⟩
    · rw [countP_traced hperm (mem_measurementsOf.mpr ⟨hm, hserial⟩), if_neg (href m hm hserial)]
    · exact countP_executionId hperm (mem_executionsOf.mpr ⟨he, hserial⟩)

theorem traceComplete_iff (db : Database) (serial : String) :
    (∃ steps, buildTrace db serial = .ok steps ∧ Complete db serial steps) ↔
      (∀ m ∈ db.measurements, m.dutSerial = serial → m.executionRef ≠ none) ∧
        ¬ (db.aware = true ∧ HasOrphan db serial ∧ HasUnstarted db serial) := by
  rw [← exists_buildTrace_iff]
  constructor
  · rintro ⟨steps, h, hcomplete⟩
    exact ⟨(complete_iff_of_ok h).mp hcomplete, steps, h⟩
  · rintro ⟨href, steps, h⟩
    exact ⟨steps, h, (complete_iff_of_ok h).mpr href⟩

def bench : Database where
  executions := []
  measurements :=
    [{ measurementId := "m1", executionRef := none, dutSerial := "SN-1", timestamp := 0, name := "vout", outcome := "PASS" }]
  aware := true
  execution_ids := by decide
  measurement_ids := by decide

/-- The trace of the device is empty, as that of a device nobody has measured. -/
theorem not_traceComplete_bench :
    buildTrace bench "SN-1" = .ok [] ∧ ¬ ∃ steps, buildTrace bench "SN-1" = .ok steps ∧ Complete bench "SN-1" steps := by
  have hempty : buildTrace bench "SN-1" = .ok [] := by decide +kernel
  refine ⟨hempty, ?_⟩
  rintro ⟨steps, h, hcomplete⟩
  have href := (complete_iff_of_ok h).mp hcomplete
  simp [bench] at href

end AteStudio.Traceability
