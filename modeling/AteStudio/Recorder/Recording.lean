import AteStudio.Lib.Except
import AteStudio.Lib.JsonCut
import AteStudio.Lib.Lines
import AteStudio.Value

/-!
# Recording files (`recorder/types.py`, `recorder/replay_executor.py`)

In JSON the separators U+0085, U+2028 and U+2029 stand as they are, and `str.splitlines` ends a line at each of them.
-/

namespace AteStudio.Recorder

open List Option Json Lines

open Json (Obj Text FloatFormat)
open Lines (OneLine)

inductive RecordedEventType where
  | stepTransition
  | measurementResult
  | operatorInteraction
  | schedulerDecision
  | natsMessage
deriving DecidableEq, Repr

namespace RecordedEventType

def value : RecordedEventType → String
  | stepTransition => "step_transition"
  | measurementResult => "measurement_result"
  | operatorInteraction => "operator_interaction"
  | schedulerDecision => "scheduler_decision"
  | natsMessage => "nats_message"

def ofValue? : String → Option RecordedEventType
  | "step_transition" => some stepTransition
  | "measurement_result" => some measurementResult
  | "operator_interaction" => some operatorInteraction
  | "scheduler_decision" => some schedulerDecision
  | "nats_message" => some natsMessage
  | _ => none

@[simp] theorem ofValue?_value (t : RecordedEventType) : ofValue? t.value = some t := by
  cases t <;> rfl

end RecordedEventType

structure RecordedEvent (τ δ : Type) where
  timestamp : τ
  eventType : RecordedEventType
  sessionId : String
  stepId : Option String
  data : δ
  sessionId_ne : sessionId ≠ ""

def strings : Obj → List String
  | .str s => [s]
  | .list xs => stringsAll xs
  | .tuple xs => stringsAll xs
  | .dict kvs => stringsEntries kvs
  | _ => []
where
  stringsAll : List Obj → List String
    | [] => []
    | x :: xs => strings x ++ stringsAll xs
  stringsEntries : List (Obj × Obj) → List String
    | [] => []
    | (k, v) :: kvs => strings k ++ (strings v ++ stringsEntries kvs)

def RecordedEvent.strings {τ : Type} (e : RecordedEvent τ (Dict String Obj)) : List String :=
  e.sessionId :: (e.stepId.toList ++ Recorder.strings (Json.ofDict e.data))

/-- What pydantic makes of the values that are not JSON already. -/
structure Pydantic (τ : Type) where
  floats : FloatFormat
  -- A datetime is written in ISO 8601. A number is read as one, too.
  writeTime : τ → String
  readTime? : Text → Option τ
  readTime_writeTime : ∀ t, readTime? (.str (writeTime t)) = some t
  writeTime_ascii : ∀ t, ∀ c ∈ (writeTime t).toList, c.toNat < 127
  -- `datetime.now(UTC)`, for an event without a timestamp
  now : τ
  -- The texts of keys that are no strings and of instances of other classes, unless they are refused.
  keyText? : Obj → Option String
  other? : String → Option Text
  within : Text → Bool

inductive RecordingError where
  | serialization
  | validation
deriving DecidableEq, Repr

namespace Pydantic

variable {τ : Type} (P : Pydantic τ)

def dump? : Obj → Option Text
  | .none => some .null
  | .bool b => some (.bool b)
  | .int i => some (.int i)
  | .float q => some (.float q)
  | .str s => some (.str s)
  | .list xs => (dumpAll? xs).map .array
  | .tuple xs => (dumpAll? xs).map .array
  | .dict kvs => (dumpEntries? kvs).map .object
  | .object cls => P.other? cls
where
  dumpAll? : List Obj → Option (List Text)
    | [] => some []
    | x :: xs => do
      let t ← dump? x
      let ts ← dumpAll? xs
      return t :: ts
  dumpEntries? : List (Obj × Obj) → Option (List (String × Text))
    | [] => some []
    | (k, v) :: kvs => do
      let key ← k.str?.or (P.keyText? k)
      let t ← dump? v
      let ts ← dumpEntries? kvs
      return (key, t) :: ts

def modelDump? (e : RecordedEvent τ (Dict String Obj)) : Option Text :=
  (P.dump? (Json.ofDict e.data)).map fun data => .object [
    ("timestamp", .str (P.writeTime e.timestamp)),
    ("event_type", .str e.eventType.value),
    ("session_id", .str e.sessionId),
    ("step_id", e.stepId.elim .null .str),
    ("data", data)]

def modelValidate? : Text → Option (RecordedEvent τ (Dict String Obj))
  | .object kvs => do
    let fields := Dict.ofList kvs
    let timestamp ← (fields.get? "timestamp").elim (some P.now) P.readTime?
    let eventType ← (fields.get? "event_type").bind fun
      | .str s => RecordedEventType.ofValue? s
      | _ => none
    let stepId ← (fields.get? "step_id").elim (some none) fun
      | .null => some none
      | .str s => some (some s)
      | _ => none
    let data ← (fields.get? "data").elim (some ∅) fun
      | .object kvs => some (Dict.ofList (Json.loads.loadsEntries kvs))
      | _ => none
    match fields.get? "session_id" with
    | some (.str s) => if h : s ≠ "" then some ⟨timestamp, eventType, s, stepId, data, h⟩ else none
    | _ => none
  | _ => none

def toJsonl (e : RecordedEvent τ (Dict String Obj)) : Except RecordingError (List Char) :=
  match P.modelDump? e with
  | some t => .ok (Json.write P.floats t)
  | none => .error .serialization

def strip (cs : List Char) : List Char := Lines.strip isPySpace cs

def fromJsonl (line : List Char) : Except RecordingError (RecordedEvent τ (Dict String Obj)) :=
  match (Json.parse? P.floats (strip line)).bind fun t => if P.within t then P.modelValidate? t else none with
  | some e => .ok e
  | none => .error .validation

def eventsToJsonl (es : List (RecordedEvent τ (Dict String Obj))) : Except RecordingError (List Char) :=
  (es.mapM P.toJsonl).map Lines.joinLines

def eventsFromJsonl (text : List Char) : Except RecordingError (List (RecordedEvent τ (Dict String Obj))) :=
  ((Lines.splitLines (strip text)).filter fun line => strip line ≠ []).mapM P.fromJsonl

/-! ## One event -/

open dump? (dumpAll? dumpEntries?)
open strings (stringsAll stringsEntries)
open Json.Obj.plain (plainAll plainValues)
open Json.loads (loadsAll loadsEntries)

mutual

theorem dump?_plain : ∀ v : Obj, v.plain = true →
    ∃ t, P.dump? v = some t ∧ loads t = v ∧ t.strings = strings v
  | .none, _ => ⟨.null, rfl, rfl, rfl⟩
  | .bool b, _ => ⟨.bool b, rfl, rfl, rfl⟩
  | .int i, _ => ⟨.int i, rfl, rfl, rfl⟩
  | .float q, _ => ⟨.float q, rfl, rfl, rfl⟩
  | .str s, _ => ⟨.str s, rfl, rfl, rfl⟩
  | .list xs, h => by
    obtain ⟨ts, hdump, hloads, hstrings⟩ := dumpAll?_plain xs h
    exact ⟨.array ts, by rw [dump?, hdump]; rfl, by rw [loads, hloads], hstrings⟩
  | .dict kvs, h => by
    rw [Obj.plain, Bool.and_eq_true, decide_eq_true_iff] at h
    obtain ⟨ts, hdump, hloads, hstrings⟩ := dumpEntries?_plain kvs h.1
    obtain ⟨heq, hkeys⟩ := strEntries_eq h.1
    have hnodup : ((strEntries kvs).map Prod.fst).Nodup := List.Nodup.of_map _ (hkeys ▸ h.2)
    refine ⟨.object ts, by rw [dump?, hdump]; rfl, ?_, hstrings⟩
    rw [loads, hloads, ofDict, Dict.ofList_entries hnodup, heq]
  | .tuple _, h => by cases h
  | .object _, h => by cases h

theorem dumpAll?_plain : ∀ xs : List Obj, plainAll xs = true →
    ∃ ts, dumpAll? P xs = some ts ∧ loadsAll ts = xs ∧ Text.strings.stringsAll ts = stringsAll xs
  | [], _ => ⟨[], rfl, rfl, rfl⟩
  | x :: xs, h => by
    rw [plainAll, Bool.and_eq_true] at h
    obtain ⟨t, hdump, hloads, hstrings⟩ := dump?_plain x h.1
    obtain ⟨ts, hdump', hloads', hstrings'⟩ := dumpAll?_plain xs h.2
    exact ⟨t :: ts, by simp [dumpAll?, hdump, hdump'], by rw [loadsAll, hloads, hloads'],
      by rw [Text.strings.stringsAll, stringsAll, hstrings, hstrings']⟩

theorem dumpEntries?_plain : ∀ kvs : List (Obj × Obj), plainValues kvs = true →
    ∃ ts, dumpEntries? P kvs = some ts ∧ loadsEntries ts = strEntries kvs ∧
      Text.strings.stringsEntries ts = stringsEntries kvs
  | [], _ => ⟨[], rfl, rfl, rfl⟩
  | (k, v) :: kvs, h => by
    simp only [plainValues, Bool.and_eq_true] at h
    obtain ⟨t, hdump, hloads, hstrings⟩ := dump?_plain v h.1.2
    obtain ⟨ts, hdump', hloads', hstrings'⟩ := dumpEntries?_plain kvs h.2
    cases k with
    | str s =>
      exact ⟨(s, t) :: ts, by simp [dumpEntries?, Obj.str?, hdump, hdump'],
        by rw [loadsEntries, strEntries, hloads, hloads']; rfl,
        by rw [Text.strings.stringsEntries, stringsEntries, hstrings, hstrings']; rfl⟩
    | _ => cases h.1.1

end

/-- The line boundaries that JSON does not escape. -/
def isSeparator (c : Char) : Bool :=
  let n := c.toNat
  n == 133 || n == 8232 || n == 8233

def Whole (s : String) : Prop := ∀ c ∈ s.toList, isSeparator c = false

instance (s : String) : Decidable (Whole s) :=
  decidable_of_iff ((s.toList.all fun c => !isSeparator c) = true) (by simp [Whole])

def Unbroken (ss : List String) : Prop := ∀ s ∈ ss, Whole s

variable {c : Char}

theorem isBoundary_of_isSeparator (h : isSeparator c = true) : isBoundary c = true ∧ 127 < c.toNat := by
  simp only [isSeparator, Bool.or_eq_true, beq_iff_eq] at h
  simp only [isBoundary, Bool.or_eq_true, Bool.and_eq_true, decide_eq_true_eq, beq_iff_eq]
  omega

theorem isSeparator_of_isBoundary (h : isBoundary c = true) (hc : 32 ≤ c.toNat) : isSeparator c = true := by
  simp only [isBoundary, Bool.or_eq_true, Bool.and_eq_true, decide_eq_true_eq, beq_iff_eq] at h
  simp only [isSeparator, Bool.or_eq_true, beq_iff_eq]
  omega

theorem oneLine_write_iff (F : FloatFormat) (t : Text) : OneLine (write F t) ↔ Unbroken t.strings := by
  constructor
  · intro h s hs c hc
    rw [Bool.eq_false_iff]
    intro hsep
    obtain ⟨hb, h127⟩ := isBoundary_of_isSeparator hsep
    have hmem := (mem_write_iff F h127).mpr ⟨s, hs, hc⟩
    exact absurd hb (by rw [h c hmem]; decide)
  · intro h c hc
    rw [Bool.eq_false_iff]
    intro hb
    have hshown := shown_write F t c hc
    have hsep := isSeparator_of_isBoundary hb hshown.1
    obtain ⟨s, hs, hmem⟩ := hshown.2.resolve_left (by have := (isBoundary_of_isSeparator hsep).2; omega)
    exact absurd hsep (by rw [h s hs c hmem]; decide)

theorem ofDict_injective {d d' : Dict String Obj} (h : ofDict d = ofDict d') : d = d' := by
  have htoDict := congrArg Obj.toDict? h
  rwa [toDict?_ofDict, toDict?_ofDict, some.injEq] at htoDict

@[simp] theorem unbroken_nil : Unbroken [] := fun _ h => nomatch h

theorem unbroken_append {ss ss' : List String} : Unbroken (ss ++ ss') ↔ Unbroken ss ∧ Unbroken ss' :=
  forall_mem_append

theorem unbroken_cons {s : String} {ss : List String} : Unbroken (s :: ss) ↔ Whole s ∧ Unbroken ss :=
  forall_mem_cons

theorem not_isSeparator_of_ascii (h : c.toNat < 127) : isSeparator c = false := by
  simp only [isSeparator, Bool.or_eq_false_iff, beq_eq_false_iff_ne]
  omega

variable {e : RecordedEvent τ (Dict String Obj)}

theorem modelDump?_plain (h : (ofDict e.data).plain = true) :
    ∃ kvs, P.modelDump? e = some (.object kvs) ∧ P.modelValidate? (.object kvs) = some e ∧
      (Unbroken (Text.object kvs).strings ↔ Unbroken e.strings) := by
  obtain ⟨t, hdump, hloads, hstrings⟩ := P.dump?_plain _ h
  obtain ⟨ts, -, rfl⟩ : ∃ ts, dumpEntries? P (e.data.entries.map fun e => (.str e.1, e.2)) = some ts ∧
      Text.object ts = t := map_eq_some_iff.mp hdump
  have hdata : Dict.ofList (loadsEntries ts) = e.data := ofDict_injective hloads
  refine ⟨_, by rw [modelDump?, hdump]; rfl, ?_, ?_⟩
  · have hstep : (match e.stepId.elim .null Text.str with
        | .null => some none
        | .str s => some (some s)
        | _ => none) = some e.stepId := by
      cases e.stepId <;> rfl
    rw [Dict.ofList] at hdata
    simp [modelValidate?, Dict.ofList, Dict.get?_set, P.readTime_writeTime, hstep, e.sessionId_ne, hdata]
  · have htime : Whole (P.writeTime e.timestamp) := fun c hc => not_isSeparator_of_ascii (P.writeTime_ascii _ c hc)
    have htype : Whole e.eventType.value := by
      cases e.eventType <;> decide
    have hkeys : Whole "timestamp" ∧ Whole "event_type" ∧ Whole "session_id" ∧ Whole "step_id" ∧ Whole "data" := by
      decide
    have hstep : (e.stepId.elim .null Text.str).strings = e.stepId.toList := by
      cases e.stepId <;> rfl
    rw [RecordedEvent.strings, ← hstrings]
    simp only [Text.strings, Text.strings.stringsEntries, unbroken_cons, unbroken_append, unbroken_nil, hstep, htime,
      htype, hkeys, true_and, and_true]

theorem modelValidate?_plain {t : Text} (h : P.modelValidate? t = some e) : (ofDict e.data).plain = true := by
  cases t with
  | object kvs =>
    simp only [modelValidate?, bind_eq_bind, bind_eq_some_iff] at h
    obtain ⟨_, _, _, _, _, _, data, hdata, h⟩ := h
    have hplain : (ofDict data).plain = true := by
      cases hget : (Dict.ofList kvs).get? "data" with
      | none =>
        rw [hget] at hdata
        cases hdata
        rfl
      | some v =>
        rw [hget, elim_some] at hdata
        split at hdata
        · next kvs' =>
          cases hdata
          exact plain_loads (.object kvs')
        · cases hdata
    split at h
    · split at h
      · cases h
        exact hplain
      · cases h
    · cases h
  | _ => cases h

theorem toJsonl_eq_ok {line : List Char} (h : P.toJsonl e = .ok line) :
    ∃ t, P.modelDump? e = some t ∧ line = write P.floats t := by
  unfold toJsonl at h
  split at h
  · next t ht =>
    cases h
    exact ⟨t, ht, rfl⟩
  · cases h

theorem fromJsonl_eq_ok {line : List Char} (h : P.fromJsonl line = .ok e) :
    ∃ t, parse? P.floats (strip line) = some t ∧ P.within t = true ∧ P.modelValidate? t = some e := by
  unfold fromJsonl at h
  split at h
  · next e' he =>
    cases h
    obtain ⟨t, ht, hv⟩ := bind_eq_some_iff.mp he
    split at hv
    · next hw => exact ⟨t, ht, hw, hv⟩
    · cases hv
  · cases h

/-! ## The whole file -/

def Braced (line : List Char) : Prop := ∃ cs, line = '\x7b' :: (cs ++ ['\x7d'])

theorem Braced.strip_eq {line : List Char} (h : Braced line) : strip line = line := by
  obtain ⟨cs, rfl⟩ := h
  exact strip_eq_self (by decide) (by decide)

theorem Braced.ne_nil {line : List Char} (h : Braced line) : line ≠ [] := by
  obtain ⟨cs, rfl⟩ := h
  exact cons_ne_nil _ _

variable {lines : List (List Char)}

theorem braced_joinLines (h : ∀ l ∈ lines, Braced l) (hne : lines ≠ []) : Braced (joinLines lines) := by
  induction lines with
  | nil => exact absurd rfl hne
  | cons l ls ih =>
    obtain ⟨hl, hls⟩ := forall_mem_cons.mp h
    cases ls with
    | nil => exact hl
    | cons l' ls =>
      obtain ⟨cs, rfl⟩ := hl
      obtain ⟨cs', hcs'⟩ := ih hls (cons_ne_nil _ _)
      exact ⟨cs ++ '\x7d' :: '\n' :: '\x7b' :: cs', by rw [joinLines_cons_cons, hcs']; simp⟩

theorem strip_joinLines (h : ∀ l ∈ lines, Braced l) : strip (joinLines lines) = joinLines lines := by
  by_cases hne : lines = []
  · subst hne
    rfl
  · exact (braced_joinLines h hne).strip_eq

/-- The payload is JSON that the reader takes, and no string holds a separator. -/
structure Survives (e : RecordedEvent τ (Dict String Obj)) : Prop where
  plain : (Json.ofDict e.data).plain = true
  unbroken : Unbroken e.strings
  within : ∀ t, P.modelDump? e = some t → P.within t = true

theorem fromJsonl_torn {kvs : List (String × Text)} {a b : List Char}
    (h : write P.floats (.object kvs) = a ++ c :: b) (hc : Lines.isBoundary c = true) :
    strip a ≠ [] ∧ P.fromJsonl a = .error .validation := by
  obtain ⟨cs, hcs⟩ := exists_write_object_eq P.floats kvs
  cases a with
  | nil =>
    rw [hcs, nil_append] at h
    cases h
    exact absurd hc (by decide)
  | cons x a =>
    obtain rfl : '\x7b' = x := (List.cons.inj (hcs.symm.trans h)).1
    have hspace : isPySpace '\x7b' = false := by decide
    obtain ⟨ds, hstrip, q, hq⟩ : ∃ ds, Lines.strip isPySpace ('\x7b' :: a) = '\x7b' :: ds ∧
        '\x7b' :: ds <+: '\x7b' :: a :=
      Lines.strip_cons hspace
    have hcut : parse? P.floats ('\x7b' :: ds) = none :=
      parse?_cut P.floats (q := q ++ c :: b) (by rw [h, ← hq, append_assoc]) (by simp)
    refine ⟨by rw [strip, hstrip]; exact cons_ne_nil _ _, ?_⟩
    rw [fromJsonl, strip, hstrip, hcut]
    rfl

theorem toJsonl_braced {line : List Char} (h : P.toJsonl e = .ok line) :
    Braced line ∧ ∃ kvs, line = write P.floats (.object kvs) := by
  obtain ⟨t, ht, rfl⟩ := P.toJsonl_eq_ok h
  obtain ⟨data, -, rfl⟩ := map_eq_some_iff.mp ht
  exact ⟨exists_write_object_eq P.floats _, _, rfl⟩

theorem Survives.line (h : P.Survives e) :
    ∃ line, P.toJsonl e = .ok line ∧ OneLine line ∧ P.fromJsonl line = .ok e := by
  obtain ⟨kvs, hdump, hvalid, hunbroken⟩ := P.modelDump?_plain h.plain
  have hline : P.toJsonl e = .ok (write P.floats (.object kvs)) := by rw [toJsonl, hdump]
  refine ⟨_, hline, (oneLine_write_iff P.floats _).mpr (hunbroken.mpr h.unbroken), ?_⟩
  rw [fromJsonl, (P.toJsonl_braced hline).1.strip_eq, parse?_write, bind_some, if_pos (h.within _ hdump), hvalid]

variable {es : List (RecordedEvent τ (Dict String Obj))}

theorem eventsToJsonl_eq_ok {text : List Char} :
    P.eventsToJsonl es = .ok text ↔
      ∃ lines, List.Forall₂ (fun e l => P.toJsonl e = .ok l) es lines ∧ joinLines lines = text := by
  simp only [← mapM_eq_ok_iff]
  unfold eventsToJsonl
  cases es.mapM P.toJsonl <;> simp [Except.map]

theorem eventsFromJsonl_joinLines (hbraced : ∀ l ∈ lines, Braced l)
    (hone : ∀ l ∈ lines, OneLine l) : P.eventsFromJsonl (joinLines lines) = lines.mapM P.fromJsonl := by
  have hfilter : (lines.filter fun line => strip line ≠ []) = lines := by
    rw [filter_eq_self]
    intro l hl
    rw [(hbraced l hl).strip_eq]
    exact decide_eq_true (hbraced l hl).ne_nil
  rw [eventsFromJsonl, strip_joinLines hbraced,
    splitLines_joinLines fun l hl => ⟨hone l hl, (hbraced l hl).ne_nil⟩, hfilter]

theorem braced_of_toJsonl (hlines : List.Forall₂ (fun e l => P.toJsonl e = .ok l) es lines) :
    ∀ l ∈ lines, Braced l ∧ ∃ kvs, l = write P.floats (.object kvs) := by
  intro l hl
  obtain ⟨e, -, he⟩ := Forall₂.exists_left hlines hl
  exact P.toJsonl_braced he

theorem oneLine_of_eventsFromJsonl {es es' : List (RecordedEvent τ (Dict String Obj))}
    (hlines : List.Forall₂ (fun e l => P.toJsonl e = .ok l) es lines)
    (hread : P.eventsFromJsonl (joinLines lines) = .ok es') : ∀ l ∈ lines, OneLine l := by
  have hbraced := P.braced_of_toJsonl hlines
  rw [eventsFromJsonl, strip_joinLines fun l hl => (hbraced l hl).1, mapM_eq_ok_iff] at hread
  intro l hl
  by_contra hnot
  have hcr : ∀ l ∈ lines, '\r' ∉ l := by
    intro l hl hmem
    obtain ⟨kvs, rfl⟩ := (hbraced l hl).2
    exact absurd (shown_write P.floats _ _ hmem).1 (by decide)
  obtain ⟨l', hl', a, c, b, heq, hc, ha⟩ := exists_torn hl hcr hnot
  obtain ⟨kvs, rfl⟩ := (hbraced l' hl').2
  obtain ⟨hne, herr⟩ := P.fromJsonl_torn heq hc
  obtain ⟨e, -, he⟩ := Forall₂.exists_right hread (mem_filter.mpr ⟨ha, decide_eq_true hne⟩)
  rw [herr] at he
  cases he

theorem survives_of_roundTrip (h : P.eventsToJsonl es >>= P.eventsFromJsonl = .ok es) : ∀ e ∈ es, P.Survives e := by
  intro e he
  obtain ⟨_, hwritten, hread⟩ := bind_eq_ok.mp h
  obtain ⟨lines, hlines, rfl⟩ := P.eventsToJsonl_eq_ok.mp hwritten
  have hone := P.oneLine_of_eventsFromJsonl hlines hread
  have hbraced l hl := (P.braced_of_toJsonl hlines l hl).1
  rw [P.eventsFromJsonl_joinLines hbraced hone, mapM_eq_ok_iff] at hread
  have hboth : List.Forall₂ (fun e l => P.toJsonl e = .ok l ∧ P.fromJsonl l = .ok e) es lines :=
    hlines.mp (fun _ _ h₁ h₂ => ⟨h₁, h₂⟩) hread.flip
  obtain ⟨line, hmem, hwrite, hback⟩ := Forall₂.exists_right hboth he
  obtain ⟨t, ht, rfl⟩ := P.toJsonl_eq_ok hwrite
  obtain ⟨t', hparse, hwithin, hvalid⟩ := P.fromJsonl_eq_ok hback
  rw [(hbraced _ hmem).strip_eq, parse?_write] at hparse
  cases hparse
  have hplain := P.modelValidate?_plain hvalid
  obtain ⟨kvs, hdump, -, hunbroken⟩ := P.modelDump?_plain hplain
  rw [hdump] at ht
  cases ht
  refine ⟨hplain, hunbroken.mp ((oneLine_write_iff _ _).mp (hone _ hmem)), fun t ht => ?_⟩
  rw [hdump] at ht
  cases ht
  exact hwithin

theorem roundTrip_of_survives (h : ∀ e ∈ es, P.Survives e) : P.eventsToJsonl es >>= P.eventsFromJsonl = .ok es := by
  obtain ⟨lines, hlines⟩ := exists_forall₂ fun e he => (h e he).line
  have hwritten : List.Forall₂ (fun e l => P.toJsonl e = .ok l) es lines := hlines.imp fun _ _ hl => hl.1
  have hone : ∀ l ∈ lines, OneLine l := fun l hl => by
    obtain ⟨e, -, -, hone, -⟩ := Forall₂.exists_left hlines hl
    exact hone
  refine bind_eq_ok.mpr ⟨_, P.eventsToJsonl_eq_ok.mpr ⟨lines, hwritten, rfl⟩, ?_⟩
  rw [P.eventsFromJsonl_joinLines (fun l hl => (P.braced_of_toJsonl hwritten l hl).1) hone, mapM_eq_ok_iff]
  exact (hlines.imp fun _ _ hl => hl.2.2).flip

theorem eventsFromJsonl_eventsToJsonl_iff (es : List (RecordedEvent τ (Dict String Obj))) :
    P.eventsToJsonl es >>= P.eventsFromJsonl = .ok es ↔ ∀ e ∈ es, P.Survives e :=
  ⟨P.survives_of_roundTrip, P.roundTrip_of_survives⟩

def oneSecond : Pydantic Unit where
  floats := Json.fractionFormat
  writeTime _ := "2026-01-01T00:00:00Z"
  readTime? _ := some ()
  readTime_writeTime _ := rfl
  writeTime_ascii _ c hc :=
    have hall : ("2026-01-01T00:00:00Z".toList.all fun c => c.toNat < 127) = true := by decide
    of_decide_eq_true (all_eq_true.mp hall c hc)
  now := ()
  keyText? _ := none
  other? _ := none
  within _ := true

def separatedEvent : RecordedEvent Unit (Dict String Obj) :=
  ⟨(), .measurementResult, "s1", some "volt\u2028age", ∅, by decide⟩

theorem eventsFromJsonl_separatedEvent :
    oneSecond.eventsToJsonl [separatedEvent] >>= oneSecond.eventsFromJsonl ≠ .ok [separatedEvent] := by
  intro h
  have hsurvives := oneSecond.survives_of_roundTrip h separatedEvent List.mem_cons_self
  have hwhole : Whole "volt\u2028age" := hsurvives.unbroken _ (List.mem_cons_of_mem _ List.mem_cons_self)
  exact absurd (hwhole '\u2028' (by decide)) (by decide)

end Pydantic

end AteStudio.Recorder
