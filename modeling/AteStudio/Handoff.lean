import AteStudio.Parser.Code

/-! # Handoffs between stations (`scheduler/station_orchestrator.py`, `shared/multi_station.py`) -/

namespace AteStudio.Handoff

open AteStudio.Parser (truthy toDict)

structure Clock (τ : Type) where
  now : τ
  isoformat : τ → String
  fromisoformat? : String → Option τ
  reads : ∀ t, fromisoformat? (isoformat t) = some t

structure StationHandoff (τ : Type) where
  sessionId : PyVal
  stationId : PyVal
  serialNumber : PyVal := .str ""
  passFail : Bool := true
  measurementSummary : List (PyVal × PyVal) := []
  timestamp : τ

/-- What a key holds: an object that was read from JSON, or bytes that are none. -/
abbrev Stored := Option PyVal

abbrev Bucket := Dict String Stored

inductive HandoffStatus where
  | done
  | failed
  | timeout
deriving DecidableEq

def handoffKey (sessionId stationId : String) : String := "session." ++ sessionId ++ ".station." ++ stationId ++ ".done"

section

variable {τ : Type} (clock : Clock τ) (reprFloat : Rat → String)

def handoffToDict (h : StationHandoff τ) : PyVal :=
  .dict [(.str "session_id", h.sessionId), (.str "station_id", h.stationId), (.str "serial_number", h.serialNumber),
    (.str "pass_fail", .bool h.passFail), (.str "measurement_summary", .dict h.measurementSummary),
    (.str "timestamp", .str (clock.isoformat h.timestamp))]

/-- Nothing when it raises: for what is no dictionary, and for a summary that is none. -/
def handoffFromDict (data : PyVal) : Option (StationHandoff τ) :=
  match data with
  | .dict _ => do
    let summary ← (toDict (data.getD "measurement_summary" (.dict []))).toOption
    return {
      sessionId := data.getD "session_id" (.str "")
      stationId := data.getD "station_id" (.str "")
      serialNumber := data.getD "serial_number" (.str "")
      passFail := truthy (data.getD "pass_fail" (.bool true))
      measurementSummary := summary
      timestamp := (((data.get? "timestamp").bind PyVal.str?).bind clock.fromisoformat?).getD clock.now }
  | _ => none

/-- Bytes that are not JSON are taken as a signal. -/
def decodeHandoffEntry : Stored → Option (StationHandoff τ)
  | none => some { sessionId := .str "", stationId := .str "", timestamp := clock.now }
  | some data => handoffFromDict clock data

inductive Put (τ : Type) where
  | writeHandoff (sessionId stationId : String) (h : StationHandoff τ)
  | put (key : String) (value : Stored)

/-- The handoff that is written for the pair. The ids have to be its own. -/
def Put.handoffFor? (sessionId stationId : String) : Put τ → Option (StationHandoff τ)
  | .writeHandoff session station h =>
    if session = sessionId ∧ station = stationId ∧ h.sessionId.str? = some session ∧ h.stationId.str? = some station
    then some h else none
  | .put .. => none

def step (bucket : Bucket) : Put τ → Bucket
  | .writeHandoff session station h =>
    if h.stationId.str? = some station ∧ h.sessionId.str? = some session then
      match (handoffToDict clock h).jsonImage reprFloat with
      | some data => bucket.set (handoffKey session station) (some data)
      | none => bucket
    else bucket
  | .put key value => bucket.set key value

def getHandoff (bucket : Bucket) (sessionId stationId : String) : Option (Option (StationHandoff τ)) :=
  (bucket.get? (handoffKey sessionId stationId)).map (decodeHandoffEntry clock)

def statusOf (h : StationHandoff τ) : HandoffStatus := if h.passFail then .done else .failed

/-- The value that is there, or the first that the watcher delivers for the key. -/
def awaited (bucket : Bucket) (key : String) (entries : List (String × Option Stored)) : Option Stored :=
  (bucket.get? key).or ((entries.find? fun e => e.1 = key ∧ e.2.isSome).bind Prod.snd)

def waitForUpstream (bucket : Bucket) (sessionId stationId : String) (entries : List (String × Option Stored)) :
    Option HandoffStatus :=
  match awaited bucket (handoffKey sessionId stationId) entries with
  | some value => (decodeHandoffEntry clock value).map statusOf
  | none => some .timeout

/-- No JSON at all, or a dictionary that does not say that the station has failed. -/
def CountsAsPass (value : Stored) : Prop :=
  ∀ data, value = some data →
    (handoffFromDict clock data).isSome = true ∧ truthy (data.getD "pass_fail" (.bool true)) = true

def stationMark : List Char := ['.', 's', 't', 'a', 't', 'i', 'o', 'n']

/-- The session id does not run on into a station. -/
def Separable (sessionId : String) : Prop := ¬ stationMark <:+: sessionId.toList

instance (sessionId : String) : Decidable (Separable sessionId) := inferInstanceAs (Decidable (¬ _))

/-- A handoff of a separable session, which JSON can represent if it is for the pair, or a value under another key. -/
def Unmixed (sessionId stationId : String) : Put τ → Prop
  | .writeHandoff session station h => Separable session ∧
    (session = sessionId → station = stationId → (handoffToDict clock h).isJson = true)
  | .put key _ => key ≠ handoffKey sessionId stationId

end

/-! ## The keys of separable sessions -/

section Keys

open List

/-- Two of the separators in the keys overlap in one dot at most. -/
theorem separator_overlap {u t t' : List Char} (h : stationMark ++ '.' :: t = u ++ (stationMark ++ '.' :: t')) :
    u = [] ∨ stationMark <+: u := by
  rcases append_eq_append_iff.mp h with ⟨w, rfl, -⟩ | ⟨w, hu, hw⟩
  · exact .inr (prefix_append _ _)
  · have hinits : u ∈ inits stationMark := (mem_inits _ _).mpr ⟨w, hu.symm⟩
    simp only [stationMark, inits, mem_cons, not_mem_nil, or_false, map_cons, map_nil] at hinits
    rcases hinits with rfl | rfl | rfl | rfl | rfl | rfl | rfl | rfl | rfl <;> simp [stationMark] at hu ⊢ <;>
      subst hu <;> simp [stationMark] at hw

theorem before_separator {a b t t' : List Char} (ha : ¬ stationMark <:+: a) (hb : ¬ stationMark <:+: b)
    (h : a ++ (stationMark ++ '.' :: t) = b ++ (stationMark ++ '.' :: t')) : a = b ∧ t = t' := by
  have hsame {a u t t' : List Char} (hu : stationMark ++ '.' :: t = u ++ (stationMark ++ '.' :: t'))
      (hau : ¬ stationMark <:+: a ++ u) : a = a ++ u ∧ t = t' := by
    rcases separator_overlap hu with rfl | hstart
    · exact ⟨(append_nil a).symm, (cons.inj (append_cancel_left hu)).2⟩
    · exact absurd (hstart.isInfix.trans (suffix_append a u).isInfix) hau
  rcases append_eq_append_iff.mp h with ⟨u, rfl, hu⟩ | ⟨u, rfl, hu⟩
  · exact hsame hu hb
  · obtain ⟨hb', ht⟩ := hsame hu ha
    exact ⟨hb'.symm, ht.symm⟩

theorem handoffKey_inj {session station session' station' : String} (hs : Separable session)
    (hs' : Separable session') (h : handoffKey session station = handoffKey session' station') :
    session = session' ∧ station = station' := by
  have hlist : session.toList ++ (stationMark ++ '.' :: (station.toList ++ ".done".toList)) =
      session'.toList ++ (stationMark ++ '.' :: (station'.toList ++ ".done".toList)) := by
    simpa [handoffKey, stationMark] using congrArg String.toList h
  obtain ⟨hsession, hstation⟩ := before_separator hs hs' hlist
  exact ⟨String.toList_injective hsession, String.toList_injective (append_cancel_right hstation)⟩

end Keys

variable {τ : Type} {clock : Clock τ} {reprFloat : Rat → String}

theorem handoffFromDict_handoffToDict (h : StationHandoff τ) :
    handoffFromDict clock (handoffToDict clock h) = some h := by
  simp [handoffFromDict, handoffToDict, PyVal.getD, PyVal.get?, PyVal.str?, toDict, Except.toOption, truthy,
    clock.reads]

variable {sessionId stationId : String}

theorem getHandoff_step (hsession : Separable sessionId) {p : Put τ} (h : Unmixed clock sessionId stationId p) (bucket : Bucket) :
    getHandoff clock (step clock reprFloat bucket p) sessionId stationId =
      match p.handoffFor? sessionId stationId with
      | some handoff => some (some handoff)
      | none => getHandoff clock bucket sessionId stationId := by
  cases p with
  | put key value =>
    simp [Put.handoffFor?, step, getHandoff, Dict.get?_set_of_ne bucket value (Ne.symm h)]
  | writeHandoff session station handoff =>
    by_cases hids : handoff.stationId.str? = some station ∧ handoff.sessionId.str? = some session
    · by_cases hkey : handoffKey session station = handoffKey sessionId stationId
      · obtain ⟨rfl, rfl⟩ := handoffKey_inj h.1 hsession hkey
        have hjson := h.2 rfl rfl
        simp [Put.handoffFor?, step, hids, PyVal.jsonImage_eq_self hjson, getHandoff, decodeHandoffEntry,
          handoffFromDict_handoffToDict]
      · have hnot : ¬ (session = sessionId ∧ station = stationId) := fun heq => hkey (by rw [heq.1, heq.2])
        have hfor : Put.handoffFor? sessionId stationId (.writeHandoff session station handoff) = none :=
          if_neg fun heq => hnot ⟨heq.1, heq.2.1⟩
        simp only [hfor, step, if_pos hids, getHandoff]
        split
        · rw [Dict.get?_set_of_ne _ _ (Ne.symm hkey)]
        · rfl
    · have hfor : Put.handoffFor? sessionId stationId (.writeHandoff session station handoff) = none :=
        if_neg fun heq => hids ⟨heq.2.2.2, heq.2.2.1⟩
      simp only [hfor, step, if_neg hids]

theorem getHandoff_run (hsession : Separable sessionId) {puts : List (Put τ)} (h : ∀ p ∈ puts, Unmixed clock sessionId stationId p) :
    getHandoff clock (puts.foldl (step clock reprFloat) ∅) sessionId stationId =
      ((puts.filterMap (Put.handoffFor? sessionId stationId)).getLast?).map some := by
  induction puts using List.reverseRecOn with
  | nil => rfl
  | append_singleton puts p ih =>
    obtain ⟨hputs, hp⟩ := List.forall_mem_append.mp h
    rw [List.foldl_append, List.foldl_cons, List.foldl_nil, getHandoff_step hsession (hp p (List.mem_singleton_self p)),
      List.filterMap_append, ih hputs]
    cases hfor : p.handoffFor? sessionId stationId <;> simp [hfor]

theorem waitForUpstream_done {bucket : Bucket} {entries : List (String × Option Stored)} :
    waitForUpstream clock bucket sessionId stationId entries = some .done ↔
      ∃ value, awaited bucket (handoffKey sessionId stationId) entries = some value ∧ CountsAsPass clock value := by
  unfold waitForUpstream
  cases awaited bucket (handoffKey sessionId stationId) entries with
  | none => simp
  | some value =>
    cases value with
    | none => simp [decodeHandoffEntry, statusOf, CountsAsPass]
    | some data =>
      have hpass {h : StationHandoff τ} (hdata : handoffFromDict clock data = some h) :
          h.passFail = truthy (data.getD "pass_fail" (.bool true)) := by
        unfold handoffFromDict at hdata
        split at hdata
        · obtain ⟨summary, _, hsome⟩ := Option.bind_eq_some_iff.mp hdata
          cases hsome
          rfl
        · cases hdata
      cases hdata : handoffFromDict clock data with
      | none => simp [decodeHandoffEntry, CountsAsPass, hdata]
      | some h => simp [decodeHandoffEntry, CountsAsPass, hdata, statusOf, hpass hdata]

def oneMoment : Clock Unit := ⟨(), fun _ => "t", fun _ => pure (), fun _ => rfl⟩

def handoffOf (sessionId stationId : String) (passFail : Bool) : StationHandoff Unit :=
  { sessionId := .str sessionId, stationId := .str stationId, passFail, timestamp := () }

end AteStudio.Handoff
