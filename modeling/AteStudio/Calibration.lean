import AteStudio.Lib.Runs

/-!
# Calibration of the instruments (`ate_cloud/services/calibration_manager.py`, `api/v1/executions.py`)

An execution is refused when the record it finds for one of its instruments is expired.
-/

namespace AteStudio.Calibration

open List

/-! ## Times -/

/-- A `datetime`: what the clock shows in microseconds, and for an aware one its offset from UTC. -/
structure DateTime where
  clock : ℤ
  offset : Option ℤ := none
deriving DecidableEq

def day : ℤ := 86400000000

namespace DateTime

/-- `_normalize`: a naive time is taken as UTC. -/
def instant (t : DateTime) : ℤ := t.clock - t.offset.getD 0

def addDays (t : DateTime) (n : Nat) : DateTime := { t with clock := t.clock + n * day }

end DateTime

inductive Database where
  | sqlite
  | postgresql
deriving DecidableEq

/-- SQLite keeps the clock and drops the offset. -/
def Database.column : Database → DateTime → DateTime
  | .sqlite, t => ⟨t.clock, none⟩
  | .postgresql, t => ⟨t.instant, some 0⟩

/-! ## The manager -/

inductive Status where
  | valid
  | expiring
  | expired
deriving DecidableEq

def computeStatus (nextDue : DateTime) (now : ℤ) : Status :=
  if nextDue.instant ≤ now then .expired
  else if nextDue.instant - 7 * day ≤ now then .expiring
  else .valid

structure Record where
  id : Nat
  instrumentId : String
  lastCalibration : DateTime
  intervalDays : Nat
  nextDue : DateTime
  status : Status
  notes : Option String
deriving DecidableEq

structure CalibrationCreate where
  instrumentId : String
  lastCalibration : DateTime
  intervalDays : Nat
  notes : Option String := none

structure CalibrationUpdate where
  instrumentId : Option String := none
  lastCalibration : Option DateTime := none
  intervalDays : Option Nat := none
  notes : Option String := none

structure Table where
  rows : List Record := []
  created : Nat := 0
deriving DecidableEq

def latest : List Record → Option Record
  | [] => none
  | r :: rows =>
    match latest rows with
    | none => some r
    | some best => if best.nextDue.instant ≤ r.nextDue.instant then some r else some best

namespace Table

variable (db : Database) (table : Table) (now : ℤ) (instrumentId : String)

def rowsOf : List Record :=
  table.rows.filter (·.instrumentId = instrumentId)

def fetchLatest : Option Record := latest (table.rowsOf instrumentId)

def commit (record : Record) : Table :=
  { table with rows := table.rows.map fun r => if r.id = record.id then record else r }

def recorded (id : Nat) (instrumentId : String) (now : ℤ) (data : CalibrationCreate) : Record :=
  let nextDue := data.lastCalibration.addDays data.intervalDays
  { id
    instrumentId
    lastCalibration := db.column data.lastCalibration
    intervalDays := data.intervalDays
    nextDue := db.column nextDue
    status := computeStatus nextDue now
    notes := data.notes }

def recordCalibration (data : CalibrationCreate) : Table :=
  match table.fetchLatest data.instrumentId with
  | some existing => table.commit (recorded db existing.id existing.instrumentId now data)
  | none =>
    { rows := table.rows ++ [recorded db table.created data.instrumentId now data]
      created := table.created + 1 }

/-- The due date is computed again when a part of it is given. -/
def patched (existing : Record) (now : ℤ) (data : CalibrationUpdate) : Record :=
  let lastCalibration := data.lastCalibration.getD existing.lastCalibration
  let intervalDays := data.intervalDays.getD existing.intervalDays
  let nextDue :=
    if data.lastCalibration.isSome ∨ data.intervalDays.isSome then lastCalibration.addDays intervalDays
    else existing.nextDue
  { id := existing.id
    instrumentId := data.instrumentId.getD existing.instrumentId
    lastCalibration := db.column lastCalibration
    intervalDays
    nextDue := db.column nextDue
    status := computeStatus nextDue now
    notes := data.notes <|> existing.notes }

def updateCalibration (data : CalibrationUpdate) : Table :=
  match table.fetchLatest instrumentId with
  | none => table
  | some existing => table.commit (patched db existing now data)

def deleteCalibration : Table :=
  { table with rows := table.rows.filter (·.instrumentId ≠ instrumentId) }

def isExpired : Bool :=
  match table.fetchLatest instrumentId with
  | none => false
  | some record => computeStatus record.nextDue now = .expired

/-- The gate of `create_execution`, with the detail of its 409. -/
def calibrationGate (instrumentIds : List String) : Except String Unit :=
  let expired := instrumentIds.filter (table.isExpired now)
  if expired = [] then .ok ()
  else .error ("Calibration expired for instrument(s): " ++ ", ".intercalate expired ++
    ". Blocking execution until recalibrated.")

end Table

/-! ## The calibration in force -/

structure Written where
  done : ℤ
  intervalDays : Nat

def Written.due (c : Written) : ℤ := c.done + c.intervalDays * day

abbrev Current := String → Option Written

inductive Op where
  | record (now : ℤ) (data : CalibrationCreate)
  | update (now : ℤ) (instrumentId : String) (data : CalibrationUpdate)
  | delete (instrumentId : String)

namespace Current

def record (current : Current) (data : CalibrationCreate) : Current := fun k =>
  if k = data.instrumentId then some ⟨data.lastCalibration.instant, data.intervalDays⟩ else current k

def update (current : Current) (instrumentId : String) (data : CalibrationUpdate) : Current :=
  match current instrumentId with
  | none => current
  | some c => fun k =>
    if k = data.instrumentId.getD instrumentId then
      some ⟨(data.lastCalibration.map (·.instant)).getD c.done, data.intervalDays.getD c.intervalDays⟩
    else if k = instrumentId then none
    else current k

def delete (current : Current) (instrumentId : String) : Current := fun k =>
  if k = instrumentId then none else current k

end Current

structure World where
  table : Table := {}
  current : Current := fun _ => none

def World.step (db : Database) (w : World) : Op → World
  | .record now data => ⟨w.table.recordCalibration db now data, w.current.record data⟩
  | .update now i data => ⟨w.table.updateCalibration db now i data, w.current.update i data⟩
  | .delete i => ⟨w.table.deleteCalibration i, w.current.delete i⟩

/-- One record for each instrument at most, and the gate goes by the latest calibration written. -/
structure GateCurrent (w : World) : Prop where
  single : ∀ i, (w.table.rowsOf i).length ≤ 1
  expired : ∀ i now, w.table.isExpired now i = true ↔ ∃ c, w.current i = some c ∧ c.due ≤ now
  gate : ∀ ids now, w.table.calibrationGate now ids = .ok () ↔ ∀ i ∈ ids, ∀ c, w.current i = some c → now < c.due

def Database.Keeps (db : Database) (t : DateTime) : Prop := (db.column t).instant = t.instant

/-- Times are kept by the database, and no record is moved to an instrument that has one. -/
def Sound (db : Database) (w : World) : Op → Prop
  | .record _ data => db.Keeps data.lastCalibration
  | .update _ i data => w.table.rowsOf i ≠ [] →
    (∀ t, data.lastCalibration = some t → db.Keeps t) ∧
      ∀ j, data.instrumentId = some j → j ≠ i → w.table.rowsOf j = []
  | .delete _ => True

/-! ## Times that are kept -/

variable (db : Database)

theorem column_addDays (t : DateTime) (n : Nat) :
    (db.column (t.addDays n)).instant = (db.column t).instant + n * day := by
  cases db <;> simp only [Database.column, DateTime.addDays, DateTime.instant, Option.getD_none, Option.getD_some] <;> ring

@[simp] theorem column_column (t : DateTime) : db.column (db.column t) = db.column t := by
  cases db <;> simp [Database.column, DateTime.instant]

/-! ## The rows of an instrument -/

namespace Table

variable {table : Table}

theorem rowsOf_append (pre post : List Record) (r : Record) (created : Nat) (i : String) :
    rowsOf ⟨pre ++ r :: post, created⟩ i =
      pre.filter (·.instrumentId = i) ++ (if r.instrumentId = i then [r] else []) ++
        post.filter (·.instrumentId = i) := by
  simp only [rowsOf, filter_append, filter_cons, decide_eq_true_eq, append_assoc]
  split <;> simp

variable {r : Record}

theorem commit_eq (hids : (table.rows.map (·.id)).Nodup) {r' : Record} (hr : r ∈ table.rows) (hid : r'.id = r.id) :
    ∃ pre post, table = ⟨pre ++ r :: post, table.created⟩ ∧ table.commit r' = ⟨pre ++ r' :: post, table.created⟩ := by
  obtain ⟨rows, created⟩ := table
  obtain ⟨pre, post, rfl⟩ := append_of_mem hr
  refine ⟨pre, post, rfl, ?_⟩
  rw [map_append, map_cons, nodup_middle, nodup_cons, mem_append] at hids
  have hother (rows : List Record) (h : r.id ∉ rows.map (·.id)) :
      rows.map (fun x => if x.id = r'.id then r' else x) = rows := by
    refine (map_congr_left fun x hx => if_neg fun heq => h ?_).trans (map_id _)
    exact mem_map.mpr ⟨x, hx, heq.trans hid⟩
  simp only [commit, map_append, map_cons, if_pos hid.symm]
  rw [hother pre fun h => hids.1 (Or.inl h), hother post fun h => hids.1 (Or.inr h)]

theorem rowsOf_commit (hids : (table.rows.map (·.id)).Nodup) {i : String} {r' : Record} (h : table.rowsOf i = [r])
    (hid : r'.id = r.id) :
    r' ∈ (table.commit r').rowsOf r'.instrumentId ∧
      ((table.commit r').rowsOf r'.instrumentId).length =
        (if r'.instrumentId = i then 1 else (table.rowsOf r'.instrumentId).length + 1) ∧
      ∀ k, k ≠ r'.instrumentId → (table.commit r').rowsOf k = if k = i then [] else table.rowsOf k := by
  have hr : r ∈ table.rowsOf i := h ▸ mem_singleton_self r
  obtain ⟨hmem, hinstr⟩ := mem_filter.mp hr
  rw [decide_eq_true_eq] at hinstr
  subst hinstr
  obtain ⟨pre, post, htable, hcommit⟩ := commit_eq hids hmem hid
  rw [htable, rowsOf_append, if_pos rfl] at h
  have hnil : pre.filter (·.instrumentId = r.instrumentId) = [] ∧ post.filter (·.instrumentId = r.instrumentId) = [] := by
    have hlen := congrArg List.length h
    simp only [length_append, length_singleton] at hlen
    exact ⟨eq_nil_of_length_eq_zero (by omega), eq_nil_of_length_eq_zero (by omega)⟩
  rw [hcommit, htable]
  simp only [rowsOf_append]
  refine ⟨by simp, ?_, fun k hk => ?_⟩
  · by_cases heq : r'.instrumentId = r.instrumentId
    · simp [heq, hnil]
    · simp only [if_neg heq, if_neg (Ne.symm heq), if_true, length_append, length_singleton, length_nil]
      omega
  · rw [if_neg (Ne.symm hk)]
    by_cases heq : k = r.instrumentId
    · simp [heq, hnil]
    · simp [heq, Ne.symm heq]

theorem recordCalibration_new (now : ℤ) (data : CalibrationCreate) (h : table.rowsOf data.instrumentId = []) :
    table.recordCalibration db now data =
      ⟨table.rows ++ [recorded db table.created data.instrumentId now data], table.created + 1⟩ := by
  unfold recordCalibration fetchLatest
  rw [h]
  rfl

theorem recordCalibration_again (now : ℤ) (data : CalibrationCreate) (h : table.rowsOf data.instrumentId = [r]) :
    table.recordCalibration db now data = table.commit (recorded db r.id r.instrumentId now data) := by
  unfold recordCalibration fetchLatest
  rw [h]
  rfl

theorem isExpired_nil {i : String} (h : table.rowsOf i = []) (now : ℤ) : table.isExpired now i = false := by
  unfold isExpired fetchLatest
  rw [h]
  rfl

theorem isExpired_singleton {i : String} (h : table.rowsOf i = [r]) (now : ℤ) :
    table.isExpired now i = true ↔ r.nextDue.instant ≤ now := by
  unfold isExpired fetchLatest
  rw [h]
  simp only [latest, computeStatus]
  split
  · next hdue => exact iff_of_true rfl hdue
  · next hdue => split <;> exact iff_of_false (by decide) hdue

theorem calibrationGate_eq_ok_iff (now : ℤ) (ids : List String) :
    table.calibrationGate now ids = .ok () ↔ ∀ i ∈ ids, table.isExpired now i = false := by
  unfold calibrationGate
  simp only
  split
  · next h => simpa [filter_eq_nil_iff] using h
  · next h => simpa [filter_eq_nil_iff] using h

end Table

/-! ## Table and calibrations -/

def Agrees : List Record → Option Written → Prop
  | [], none => True
  | [r], some c =>
    r.lastCalibration.instant = c.done ∧ r.intervalDays = c.intervalDays ∧ r.nextDue.instant = c.due
  | _, _ => False

theorem Agrees.cases {rows : List Record} {o : Option Written} (h : Agrees rows o) :
    rows = [] ∧ o = none ∨ ∃ r c, rows = [r] ∧ o = some c ∧ Agrees [r] (some c) := by
  match rows, o with
  | [], none => exact Or.inl ⟨rfl, rfl⟩
  | [r], some c => exact Or.inr ⟨r, c, rfl, rfl, h⟩
  | [], some _ => cases h
  | [_], none => cases h
  | _ :: _ :: _, none => cases h
  | _ :: _ :: _, some _ => cases h

structure Linked (db : Database) (w : World) : Prop where
  ids : (w.table.rows.map (·.id)).Nodup
  fresh : ∀ r ∈ w.table.rows, r.id < w.table.created
  stored : ∀ r ∈ w.table.rows, db.column r.lastCalibration = r.lastCalibration ∧ db.column r.nextDue = r.nextDue
  agrees : ∀ i, Agrees (w.table.rowsOf i) (w.current i)

variable {db : Database} {w : World}

theorem linked_empty : Linked db {} := ⟨nodup_nil, by simp, by simp, fun _ => trivial⟩

open Table

theorem Linked.gateCurrent (h : Linked db w) : GateCurrent w := by
  have hexpired : ∀ i now, w.table.isExpired now i = true ↔ ∃ c, w.current i = some c ∧ c.due ≤ now := by
    intro i now
    rcases (h.agrees i).cases with ⟨hrows, hcurrent⟩ | ⟨r, c, hrows, hcurrent, -, -, hdue⟩
    · simp [isExpired_nil hrows, hcurrent]
    · simp [isExpired_singleton hrows, hcurrent, hdue]
  refine ⟨fun i => ?_, hexpired, fun ids now => ?_⟩
  · rcases (h.agrees i).cases with ⟨hrows, -⟩ | ⟨r, c, hrows, -⟩ <;> simp [hrows]
  · rw [calibrationGate_eq_ok_iff]
    refine forall₂_congr fun i _ => ?_
    rw [← Bool.not_eq_true, hexpired]
    simp

variable {i : String} {r : Record}

theorem GateCurrent.due_eq (h : GateCurrent w) {c : Written} (hr : r ∈ w.table.rowsOf i)
    (hcurrent : w.current i = some c) : r.nextDue.instant = c.due := by
  have hrows : w.table.rowsOf i = [r] := by
    obtain ⟨x, hx⟩ := length_eq_one_iff.mp (le_antisymm (h.single i) (length_pos_of_mem hr))
    rw [hx] at hr ⊢
    rw [mem_singleton.mp hr]
  have hiff : ∀ now, r.nextDue.instant ≤ now ↔ c.due ≤ now := by
    intro now
    rw [← isExpired_singleton hrows, h.expired, hcurrent]
    simp
  exact le_antisymm ((hiff _).mpr le_rfl) ((hiff _).mp le_rfl)

theorem Linked.commit (h : Linked db w) {r' : Record} {c : Written} {current : Current}
    (hrows : w.table.rowsOf i = [r]) (hid : r'.id = r.id)
    (hfree : r'.instrumentId = i ∨ w.table.rowsOf r'.instrumentId = [])
    (hstored : db.column r'.lastCalibration = r'.lastCalibration ∧ db.column r'.nextDue = r'.nextDue)
    (hagrees : Agrees [r'] (some c)) (hcurrent : current r'.instrumentId = some c)
    (hother : ∀ k, k ≠ r'.instrumentId → current k = if k = i then none else w.current k) :
    Linked db ⟨w.table.commit r', current⟩ := by
  obtain ⟨hmem, hlen, hrest⟩ := rowsOf_commit h.ids hrows hid
  have hr : r ∈ w.table.rows := mem_of_mem_filter (hrows ▸ mem_singleton_self r)
  obtain ⟨pre, post, htable, hcommit⟩ := commit_eq h.ids hr hid
  have hids := h.ids
  have hfresh := h.fresh
  have holdStored := h.stored
  rw [htable] at hids hfresh holdStored
  refine ⟨?_, ?_, ?_, fun k => ?_⟩
  · simpa [hcommit, hid] using hids
  · simp only [hcommit, mem_append, mem_cons] at hfresh ⊢
    rintro x (hx | rfl | hx)
    · exact hfresh x (Or.inl hx)
    · exact hid ▸ hfresh r (Or.inr (Or.inl rfl))
    · exact hfresh x (Or.inr (Or.inr hx))
  · simp only [hcommit, mem_append, mem_cons] at holdStored ⊢
    rintro x (hx | rfl | hx)
    · exact holdStored x (Or.inl hx)
    · exact hstored
    · exact holdStored x (Or.inr (Or.inr hx))
  · change Agrees ((w.table.commit r').rowsOf k) (current k)
    by_cases hk : k = r'.instrumentId
    · subst hk
      have hone : ((w.table.commit r').rowsOf r'.instrumentId).length = 1 := by
        rw [hlen]
        split
        · rfl
        · next hne => rw [hfree.resolve_left hne, length_nil]
      obtain ⟨x, hx⟩ := length_eq_one_iff.mp hone
      rw [hx, mem_singleton] at hmem
      rw [hx, hcurrent, ← hmem]
      exact hagrees
    · rw [hrest k hk, hother k hk]
      split
      · trivial
      · exact h.agrees k

theorem instrumentId_of_rowsOf (hrows : w.table.rowsOf i = [r]) : r.instrumentId = i := by
  have hr : r ∈ w.table.rowsOf i := hrows ▸ mem_singleton_self r
  simpa using (mem_filter.mp hr).2

theorem Linked.record (h : Linked db w) (now : ℤ) (data : CalibrationCreate) (hkeeps : db.Keeps data.lastCalibration) :
    Linked db (w.step db (.record now data)) := by
  have hagrees (id : Nat) (i : String) : Agrees [recorded db id i now data]
      (some ⟨data.lastCalibration.instant, data.intervalDays⟩) := by
    refine ⟨hkeeps, rfl, ?_⟩
    rw [recorded, column_addDays, hkeeps, Written.due]
  rcases (h.agrees data.instrumentId).cases with ⟨hrows, -⟩ | ⟨r, c, hrows, -, -⟩
  · have hrowsOf (k : String) :
        (w.table.recordCalibration db now data).rowsOf k = w.table.rowsOf k ++
          if data.instrumentId = k then [recorded db w.table.created data.instrumentId now data] else [] := by
      rw [recordCalibration_new db now data hrows, rowsOf_append, filter_nil, append_nil]
      rfl
    refine ⟨?_, ?_, ?_, fun k => ?_⟩
    · simp only [World.step, recordCalibration_new db now data hrows, map_append, map_cons, map_nil]
      refine nodup_append.mpr ⟨h.ids, nodup_singleton _, ?_⟩
      rintro a ha b hb rfl
      obtain ⟨x, hx, rfl⟩ := mem_map.mp ha
      exact absurd (mem_singleton.mp hb) (h.fresh x hx).ne
    · simp only [World.step, recordCalibration_new db now data hrows, mem_append, mem_singleton]
      rintro x (hx | rfl)
      · exact (h.fresh x hx).trans (Nat.lt_succ_self _)
      · exact Nat.lt_succ_self _
    · simp only [World.step, recordCalibration_new db now data hrows, mem_append, mem_singleton]
      rintro x (hx | rfl)
      · exact h.stored x hx
      · exact ⟨column_column _ _, column_column _ _⟩
    · change Agrees ((w.table.recordCalibration db now data).rowsOf k) (w.current.record data k)
      rw [hrowsOf, Current.record]
      by_cases hk : k = data.instrumentId
      · subst hk
        rw [hrows, if_pos rfl, if_pos rfl]
        exact hagrees _ _
      · rw [if_neg (Ne.symm hk), if_neg hk, append_nil]
        exact h.agrees k
  · have hinstr := instrumentId_of_rowsOf hrows
    simp only [World.step, recordCalibration_again db now data hrows]
    refine h.commit hrows rfl (Or.inl hinstr) ⟨column_column _ _, column_column _ _⟩ (hagrees _ _) (if_pos hinstr) ?_
    intro k hk
    have hk : k ≠ data.instrumentId := hinstr ▸ hk
    rw [Current.record, if_neg hk, if_neg hk]

theorem agrees_patched {c : Written} (h : Agrees [r] (some c))
    (hstored : db.column r.lastCalibration = r.lastCalibration ∧ db.column r.nextDue = r.nextDue) (now : ℤ)
    {data : CalibrationUpdate} (hkeeps : ∀ t, data.lastCalibration = some t → db.Keeps t) :
    Agrees [patched db r now data]
      (some ⟨(data.lastCalibration.map (·.instant)).getD c.done, data.intervalDays.getD c.intervalDays⟩) := by
  obtain ⟨hdone, hinterval, hdue⟩ := h
  have hlast : (db.column (data.lastCalibration.getD r.lastCalibration)).instant =
      (data.lastCalibration.map (·.instant)).getD c.done := by
    cases ht : data.lastCalibration with
    | none => simp only [Option.getD_none, Option.map_none, hstored.1, hdone]
    | some t => exact hkeeps t ht
  refine ⟨hlast, by rw [patched, hinterval], ?_⟩
  simp only [patched, Written.due]
  split
  · rw [column_addDays, hlast, hinterval]
  · next hnone =>
    simp only [not_or, Bool.not_eq_true, Option.isSome_eq_false_iff, Option.isNone_iff_eq_none] at hnone
    simp only [hnone.1, hnone.2, Option.getD_none, Option.map_none, hstored.2, hdue, Written.due]

theorem Linked.update (h : Linked db w) (now : ℤ) (i : String) (data : CalibrationUpdate)
    (hsound : Sound db w (.update now i data)) : Linked db (w.step db (.update now i data)) := by
  rcases (h.agrees i).cases with ⟨hrows, hcurrent⟩ | ⟨r, c, hrows, hcurrent, hagrees⟩
  · have hstep : w.step db (.update now i data) = w := by
      simp [World.step, updateCalibration, fetchLatest, hrows, latest, Current.update, hcurrent]
    rwa [hstep]
  · obtain ⟨hkeeps, hfree⟩ := hsound (by simp [hrows])
    have hr : r ∈ w.table.rows := mem_of_mem_filter (hrows ▸ mem_singleton_self r)
    have hinstr := instrumentId_of_rowsOf hrows
    have hname : (patched db r now data).instrumentId = data.instrumentId.getD i := by
      rw [patched, hinstr]
    simp only [World.step, updateCalibration, fetchLatest, hrows, latest, Current.update, hcurrent]
    refine h.commit hrows rfl ?_ ⟨column_column _ _, column_column _ _⟩
      (c := ⟨(data.lastCalibration.map (·.instant)).getD c.done, data.intervalDays.getD c.intervalDays⟩) ?_ ?_ ?_
    · rw [hname]
      cases hj : data.instrumentId with
      | none => exact Or.inl rfl
      | some j => exact or_iff_not_imp_left.mpr (hfree j hj)
    · exact agrees_patched hagrees (h.stored r hr) now hkeeps
    · exact if_pos hname
    · intro k hk
      rw [hname] at hk
      rw [if_neg hk]

theorem Linked.delete (h : Linked db w) (i : String) : Linked db (w.step db (.delete i)) := by
  have hsub : (w.table.deleteCalibration i).rows ⊆ w.table.rows := filter_sublist.subset
  refine ⟨(filter_sublist.map _).nodup h.ids, fun r hr => h.fresh r (hsub hr), fun r hr => h.stored r (hsub hr), ?_⟩
  intro k
  change Agrees ((w.table.deleteCalibration i).rowsOf k) (w.current.delete i k)
  unfold deleteCalibration rowsOf Current.delete
  rw [filter_filter]
  by_cases hk : k = i
  · rw [if_pos hk, filter_eq_nil_iff.mpr (by simp [hk])]
    trivial
  · rw [if_neg hk, filter_congr fun r _ => (by grind : _ = decide (r.instrumentId = k))]
    exact h.agrees k

theorem Linked.step (h : Linked db w) {op : Op} (hsound : Sound db w op) : Linked db (w.step db op) := by
  cases op with
  | record now data => exact h.record now data hsound
  | update now i data => exact h.update now i data hsound
  | delete i => exact h.delete i

/-! ## What an operation needs -/

theorem keeps_of_due_eq {t : DateTime} {n : Nat} (h : (db.column (t.addDays n)).instant = Written.due ⟨t.instant, n⟩) :
    db.Keeps t := by
  rw [column_addDays, Written.due] at h
  exact add_right_cancel h

theorem Linked.sound_record (h : Linked db w) {now : ℤ} {data : CalibrationCreate}
    (hstep : GateCurrent (w.step db (.record now data))) : db.Keeps data.lastCalibration := by
  have hrow : ∃ id i, recorded db id i now data ∈
      (w.table.recordCalibration db now data).rowsOf data.instrumentId := by
    rcases (h.agrees data.instrumentId).cases with ⟨hrows, -⟩ | ⟨r, c, hrows, -, -⟩
    · refine ⟨w.table.created, data.instrumentId, ?_⟩
      simp [recordCalibration_new db now data hrows, rowsOf, recorded]
    · refine ⟨r.id, r.instrumentId, ?_⟩
      rw [recordCalibration_again db now data hrows, ← instrumentId_of_rowsOf hrows]
      exact (rowsOf_commit h.ids hrows (show (recorded db r.id r.instrumentId now data).id = r.id from rfl)).1
  obtain ⟨id, i, hr⟩ := hrow
  exact keeps_of_due_eq (hstep.due_eq hr (if_pos rfl))

theorem Linked.sound_update (h : Linked db w) {now : ℤ} {data : CalibrationUpdate}
    (hstep : GateCurrent (w.step db (.update now i data))) : Sound db w (.update now i data) := by
  intro hsome
  rcases (h.agrees i).cases with ⟨hrows, -⟩ | ⟨r, c, hrows, hcurrent, hagrees⟩
  · exact absurd hrows hsome
  · have hname : (patched db r now data).instrumentId = data.instrumentId.getD i := by
      rw [patched, instrumentId_of_rowsOf hrows]
    obtain ⟨hmem, hlen, -⟩ := rowsOf_commit h.ids hrows (show (patched db r now data).id = r.id from rfl)
    have htable : (w.step db (.update now i data)).table = w.table.commit (patched db r now data) := by
      simp only [World.step, updateCalibration, fetchLatest, hrows, latest]
    rw [← htable, hname] at hmem hlen
    constructor
    · intro t ht
      have hwritten : (w.step db (.update now i data)).current (data.instrumentId.getD i) =
          some ⟨t.instant, data.intervalDays.getD c.intervalDays⟩ := by
        simp only [World.step, Current.update, hcurrent, if_pos, ht, Option.map_some, Option.getD_some]
      have hdue := hstep.due_eq hmem hwritten
      rw [patched, ht, Option.isSome_some, if_pos (Or.inl rfl), hagrees.2.1] at hdue
      exact keeps_of_due_eq hdue
    · intro j hj hne
      have hsingle := hstep.single j
      rw [hj, Option.getD_some, if_neg hne] at hlen
      exact eq_nil_of_length_eq_zero (by omega)

theorem Linked.sound (h : Linked db w) {op : Op} (hstep : GateCurrent (w.step db op)) : Sound db w op := by
  cases op with
  | record now data => exact h.sound_record hstep
  | update now i data => exact h.sound_update hstep
  | delete i => trivial

theorem gateCurrent_iff (db : Database) (ops : List Op) :
    (∀ before, before <+: ops → GateCurrent (Runs.run (World.step db) {} before)) ↔
      Runs.Meets (World.step db) (Sound db) {} ops :=
  (Runs.meets_iff_run_kept (fun _ _ h => h.step) (fun _ h => h.gateCurrent) (fun _ _ h => h.sound) linked_empty).symm

def movedOps : List Op :=
  [.record 0 { instrumentId := "scope", lastCalibration := ⟨0, none⟩, intervalDays := 365 },
    .record 0 { instrumentId := "meter", lastCalibration := ⟨0, none⟩, intervalDays := 1 },
    .update 0 "meter" { instrumentId := some "scope" }]

/-- Ten days later the execution is let through because of the older record. -/
theorem not_gateCurrent_movedOps :
    (Runs.run (World.step .sqlite) {} movedOps).table.calibrationGate (10 * day) ["scope"] = .ok () ∧
      ((Runs.run (World.step .sqlite) {} movedOps).current "scope").map Written.due = some day ∧
      ¬ ∀ before, before <+: movedOps → GateCurrent (Runs.run (World.step .sqlite) {} before) := by
  refine ⟨by decide +kernel, by decide +kernel, fun h => ?_⟩
  have hsingle := (h movedOps (List.prefix_refl _)).single "scope"
  revert hsingle
  decide +kernel

end AteStudio.Calibration
