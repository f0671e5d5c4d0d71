import AteStudio.Relay

/-!
# Messages that the relay cannot read

The handler of a failure reads `run_id` from the event for its log line.
-/

namespace AteStudio.Relay

open Json List

inductive Exn where
  | unicodeDecodeError
  | jsonDecodeError
  | attributeError
  -- What a collaborator raises, and what else `json.loads` does: `RecursionError` for deep nesting, `ValueError` for an
  -- integer with too many digits.
  | other
deriving DecidableEq

/-- The bytes of a message, by what `json.loads(data.decode())` makes of them. -/
inductive Payload where
  | notUtf8
  | notJson
  | refused
  | json (text : Text)

def Payload.loads : Payload → Except Exn Obj
  | .notUtf8 => .error .unicodeDecodeError
  | .notJson => .error .jsonDecodeError
  | .refused => .error .other
  | .json text => .ok (Json.loads text)

inductive Act where
  | updated
  | pushed
  | matched
  | ack
  | nak
  | indexed
deriving DecidableEq

/-- How the collaborators behave for a message. The last two need not be there. -/
structure Services where
  database : Except Exn Unit
  bridge : Except Exn Unit
  breakpoints : Option (Except Exn Unit)
  failureIndexer : Option (Except Exn Unit)

/-! ## The code -/

abbrev Handler := ExceptT Exn (StateM (List Act))

def act (a : Act) : Handler Unit := modify (· ++ [a])

def eventGet (event : Obj) (key : String) : Handler Obj :=
  match event with
  | .dict _ => pure (orNone (event.get? key))
  | _ => throw .attributeError

def truthy : Obj → Bool
  | .none => false
  | .bool b => b
  | .int i => i ≠ 0
  | .float q => q ≠ 0
  | .str s => s ≠ ""
  | .list xs => !xs.isEmpty
  | .tuple xs => !xs.isEmpty
  | .dict kvs => !kvs.isEmpty
  | .object _ => true

def perform (outcome : Except Exn Unit) (a : Act) : Handler Unit := do
  match outcome with
  | .ok () => act a
  | .error e => throw e

variable (services : Services) (event : Obj) (data : Payload)

def updateRow : Handler Unit := do
  let runId ← eventGet event "run_id"
  if truthy runId then perform services.database .updated else act .updated

def matchBreakpoints : Handler Unit :=
  match services.breakpoints with
  | some outcome => perform outcome .matched
  | none => pure ()

def handleEvent : Handler Unit := do
  updateRow services event
  let _ ← eventGet event "run_id"
  perform services.bridge .pushed
  matchBreakpoints services
  act .ack

def indexFailure : Handler Unit :=
  match services.failureIndexer with
  | some outcome => tryCatch (perform outcome .indexed) fun _ => pure ()
  | none => pure ()

def processMessage : Handler Unit :=
  match data.loads with
  | .error .jsonDecodeError => act .nak
  | .error .unicodeDecodeError => act .nak
  | .error e => throw e
  | .ok event => do
    let acked ← tryCatch (do handleEvent services event; pure true) fun _ => do
      let _ ← eventGet event "run_id"
      act .nak
      pure false
    if acked then indexFailure services

structure Message where
  services : Services
  data : Payload

inductive Fetch where
  | timeout
  | failed
  | cancelled
  | messages (msgs : List Message)

def consumeLoop : List Fetch → Handler Unit
  | [] => pure ()
  | .timeout :: fetches => consumeLoop fetches
  | .failed :: fetches => consumeLoop fetches
  | .cancelled :: _ => pure ()
  | .messages msgs :: fetches => do
    msgs.forM fun msg => processMessage msg.services msg.data
    consumeLoop fetches

def fetched : List Fetch → List Message
  | [] => []
  | .timeout :: fetches => fetched fetches
  | .failed :: fetches => fetched fetches
  | .cancelled :: _ => []
  | .messages msgs :: fetches => msgs ++ fetched fetches

/-! ## What is asked of it -/

/-- The message is answered once, and with `ack` only after the update and the push. -/
structure Answered (acts : List Act) : Prop where
  once : acts.count .ack + acts.count .nak = 1
  order : .ack ∈ acts → .updated ∈ acts.takeWhile (· ≠ .ack) ∧ .pushed ∈ acts.takeWhile (· ≠ .ack)

def Survives : Prop :=
  ∃ acts, (processMessage services data).run.run [] = (.ok (), acts) ∧ Answered acts

/-- The payload is a dictionary, or it is no JSON at all. -/
def Payload.Readable : Payload → Prop
  | .notUtf8 => True
  | .notJson => True
  | .refused => False
  | .json text => ∃ kvs, Json.loads text = .dict kvs

/-! ## Handlers -/

section Handler

variable {α β : Type} {x : Handler α} {f : α → Handler β} {handler : Exn → Handler α} {log log' : List Act} {e : Exn}

theorem run_bind_ok {a : α} (h : x.run.run log = (.ok a, log')) : (x >>= f).run.run log = (f a).run.run log' := by
  rw [ExceptT.run_bind, StateT.run_bind, h]
  rfl

theorem run_bind_error (h : x.run.run log = (.error e, log')) : (x >>= f).run.run log = (.error e, log') := by
  rw [ExceptT.run_bind, StateT.run_bind, h]
  rfl

theorem run_tryCatch_ok {a : α} (h : x.run.run log = (.ok a, log')) :
    (tryCatch x handler).run.run log = (.ok a, log') := by
  rw [ExceptT.run_tryCatch, StateT.run_bind, h]
  rfl

theorem run_tryCatch_error (h : x.run.run log = (.error e, log')) :
    (tryCatch x handler).run.run log = (handler e).run.run log' := by
  rw [ExceptT.run_tryCatch, StateT.run_bind, h]
  rfl

theorem act_run (a : Act) (log : List Act) : (act a).run.run log = (.ok (), log ++ [a]) := rfl

end Handler

/-! ## One message -/

section Message

def Open (acts : List Act) : Prop := .ack ∉ acts ∧ .nak ∉ acts

instance (acts : List Act) : Decidable (Open acts) := inferInstanceAs (Decidable (_ ∧ _))

theorem Open.answered_nak {acts : List Act} (h : Open acts) : Answered (acts ++ [.nak]) where
  once := by simp [count_append, count_eq_zero.mpr h.1, count_eq_zero.mpr h.2]
  order := by simp [h.1]

theorem Open.answered_ack {acts after : List Act} (h : Open acts) (hafter : Open after) (hupdated : .updated ∈ acts)
    (hpushed : .pushed ∈ acts) : Answered (acts ++ .ack :: after) where
  once := by
    simp [count_append, count_eq_zero.mpr h.1, count_eq_zero.mpr h.2, count_eq_zero.mpr hafter.1,
      count_eq_zero.mpr hafter.2]
  order := by
    have hbefore : (acts ++ .ack :: after).takeWhile (· ≠ Act.ack) = acts := by
      rw [takeWhile_append_of_pos]
      · simp
      · intro a ha
        simpa using fun heq : a = .ack => h.1 (heq ▸ ha)
    rw [hbefore]
    exact fun _ => ⟨hupdated, hpushed⟩

variable (services : Services) (log : List Act)

theorem updateRow_run (kvs : List (Obj × Obj)) :
    (updateRow services (.dict kvs)).run.run log = (.ok (), log ++ [.updated]) ∨
      ∃ e, (updateRow services (.dict kvs)).run.run log = (.error e, log) := by
  obtain ⟨database, bridge, breakpoints, failureIndexer⟩ := services
  cases hasked : truthy (orNone ((Obj.dict kvs).get? "run_id")) with
  | false =>
    refine .inl ?_
    simp only [updateRow, eventGet, pure_bind, hasked]
    rfl
  | true =>
    simp only [updateRow, eventGet, pure_bind, hasked]
    cases database with
    | ok => exact .inl rfl
    | error e => exact .inr ⟨e, rfl⟩

theorem matchBreakpoints_run :
    (∃ acts, (matchBreakpoints services).run.run log = (.ok (), log ++ acts) ∧ Open acts) ∨
      ∃ e, (matchBreakpoints services).run.run log = (.error e, log) := by
  obtain ⟨database, bridge, breakpoints, failureIndexer⟩ := services
  match breakpoints with
  | none => exact .inl ⟨[], by rw [append_nil]; rfl, by decide⟩
  | some (.ok ()) => exact .inl ⟨[.matched], rfl, by decide⟩
  | some (.error e) => exact .inr ⟨e, rfl⟩

theorem handleEvent_run (kvs : List (Obj × Obj)) :
    (∃ acts, (handleEvent services (.dict kvs)).run.run log = (.ok (), log ++ (acts ++ [.ack])) ∧ Open acts ∧
      .updated ∈ acts ∧ .pushed ∈ acts) ∨
    ∃ e acts, (handleEvent services (.dict kvs)).run.run log = (.error e, log ++ acts) ∧ Open acts := by
  unfold handleEvent
  rcases updateRow_run services log kvs with hupdate | ⟨e, hupdate⟩
  · rw [run_bind_ok hupdate]
    simp only [eventGet, pure_bind]
    cases hbridge : services.bridge with
    | error e => exact .inr ⟨e, [.updated], run_bind_error rfl, by decide⟩
    | ok =>
      rw [run_bind_ok (show (perform (.ok ()) .pushed).run.run (log ++ [.updated]) =
        (.ok (), log ++ [.updated] ++ [.pushed]) from rfl)]
      rcases matchBreakpoints_run services (log ++ [.updated] ++ [.pushed]) with ⟨acts, hmatch, hopen⟩ | ⟨e, hmatch⟩
      · refine .inl ⟨.updated :: .pushed :: acts, ?_, ?_, by simp, by simp⟩
        · rw [run_bind_ok hmatch, act_run]
          simp
        · simpa [Open] using hopen
      · exact .inr ⟨e, [.updated, .pushed], by rw [run_bind_error hmatch]; simp, by decide⟩
  · exact .inr ⟨e, [], by rw [run_bind_error hupdate, append_nil], by decide⟩

theorem indexFailure_run : ∃ acts, (indexFailure services).run.run log = (.ok (), log ++ acts) ∧ Open acts := by
  obtain ⟨database, bridge, breakpoints, failureIndexer⟩ := services
  match failureIndexer with
  | none => exact ⟨[], by rw [append_nil]; rfl, by decide⟩
  | some (.ok ()) => exact ⟨[.indexed], rfl, by decide⟩
  | some (.error e) => exact ⟨[], by rw [append_nil]; rfl, by decide⟩

theorem processMessage_readable {data : Payload} (h : data.Readable) :
    ∃ acts, (processMessage services data).run.run log = (.ok (), log ++ acts) ∧ Answered acts := by
  cases data with
  | notUtf8 => exact ⟨[.nak], act_run .nak log, @Open.answered_nak [] (by decide)⟩
  | notJson => exact ⟨[.nak], act_run .nak log, @Open.answered_nak [] (by decide)⟩
  | refused => exact h.elim
  | json text =>
    obtain ⟨kvs, hkvs⟩ := h
    simp only [processMessage, Payload.loads, hkvs]
    rcases handleEvent_run services log kvs with ⟨acts, hhandle, hopen, hupdated, hpushed⟩ | ⟨e, acts, hhandle, hopen⟩
    · obtain ⟨after, hindex, hafter⟩ := indexFailure_run services (log ++ (acts ++ [.ack]))
      refine ⟨acts ++ .ack :: after, ?_, hopen.answered_ack hafter hupdated hpushed⟩
      have htry : (do handleEvent services (.dict kvs); pure true : Handler Bool).run.run log =
          (.ok true, log ++ (acts ++ [.ack])) := run_bind_ok hhandle
      rw [run_bind_ok (run_tryCatch_ok htry), if_pos rfl, hindex]
      simp
    · have htry : (do handleEvent services (.dict kvs); pure true : Handler Bool).run.run log =
          (.error e, log ++ acts) := run_bind_error hhandle
      refine ⟨acts ++ [.nak], ?_, hopen.answered_nak⟩
      rw [ExceptT.run_bind, StateT.run_bind, run_tryCatch_error htry]
      simp only [eventGet, pure_bind]
      rw [run_bind_ok (act_run .nak (log ++ acts)), append_assoc]
      rfl

theorem processMessage_not_readable {data : Payload} (h : ¬ data.Readable) :
    ∃ e, (processMessage services data).run.run log = (.error e, log) := by
  cases data with
  | notUtf8 => exact absurd trivial h
  | notJson => exact absurd trivial h
  | refused => exact ⟨.other, rfl⟩
  | json text =>
    -- The update reads `run_id` first, and so does the handler of its exception.
    refine ⟨.attributeError, ?_⟩
    simp only [processMessage, Payload.loads]
    cases hevent : Json.loads text with
    | dict kvs => exact absurd ⟨kvs, hevent⟩ h
    | _ => rfl

theorem survives_iff_readable (data : Payload) : Survives services data ↔ data.Readable := by
  constructor
  · rintro ⟨acts, hrun, _⟩
    by_contra hdata
    obtain ⟨e, herror⟩ := processMessage_not_readable services [] hdata
    cases hrun.symm.trans herror
  · intro hdata
    obtain ⟨acts, hrun, hanswered⟩ := processMessage_readable services [] hdata
    exact ⟨acts, hrun, hanswered⟩

end Message

/-! ## The loop -/

def Continues (x : Handler Unit) (log : List Act) : Prop := ∃ log', x.run.run log = (.ok (), log')

theorem continues_bind {x y : Handler Unit} {log : List Act} :
    Continues (x >>= fun _ => y) log ↔ ∃ log', x.run.run log = (.ok (), log') ∧ Continues y log' := by
  cases hx : x.run.run log with
  | mk result log' =>
    cases result with
    | ok =>
      rw [Continues, run_bind_ok hx]
      constructor
      · exact fun h => ⟨log', rfl, h⟩
      · rintro ⟨_, heq, h⟩
        cases heq
        exact h
    | error e =>
      rw [Continues, run_bind_error hx]
      constructor
      · rintro ⟨_, h⟩
        cases h
      · rintro ⟨_, h, _⟩
        cases h

theorem forM_continues (msgs : List Message) (log : List Act) :
    Continues (msgs.forM fun msg => processMessage msg.services msg.data) log ↔ ∀ msg ∈ msgs, msg.data.Readable := by
  induction msgs generalizing log with
  | nil => exact ⟨fun _ _ => (nomatch ·), fun _ => ⟨log, rfl⟩⟩
  | cons msg msgs ih =>
    rw [List.forM, continues_bind, forall_mem_cons]
    constructor
    · rintro ⟨log', hrun, hrest⟩
      refine ⟨?_, (ih log').mp hrest⟩
      by_contra hdata
      obtain ⟨e, herror⟩ := processMessage_not_readable msg.services log hdata
      cases hrun.symm.trans herror
    · rintro ⟨hdata, hrest⟩
      obtain ⟨acts, hrun, _⟩ := processMessage_readable msg.services log hdata
      exact ⟨_, hrun, (ih _).mpr hrest⟩

theorem consumeLoop_continues (fetches : List Fetch) (log : List Act) :
    Continues (consumeLoop fetches) log ↔ ∀ msg ∈ fetched fetches, msg.data.Readable := by
  induction fetches generalizing log with
  | nil => exact ⟨fun _ _ => (nomatch ·), fun _ => ⟨log, rfl⟩⟩
  | cons fetch fetches ih =>
    cases fetch with
    | timeout => exact ih log
    | failed => exact ih log
    | cancelled => exact ⟨fun _ _ => (nomatch ·), fun _ => ⟨log, rfl⟩⟩
    | messages msgs =>
      rw [consumeLoop, fetched, continues_bind, forall_mem_append, ← forM_continues msgs log]
      constructor
      · rintro ⟨log', hrun, hrest⟩
        exact ⟨⟨log', hrun⟩, (ih log').mp hrest⟩
      · rintro ⟨⟨log', hrun⟩, hrest⟩
        exact ⟨log', hrun, (ih log').mpr hrest⟩

theorem relay_survives_iff (services : Services) (data : Payload) (fetches : List Fetch) :
    (Survives services data ↔ data.Readable) ∧
    (Continues (consumeLoop fetches) [] ↔ ∀ msg ∈ fetched fetches, msg.data.Readable) :=
  ⟨survives_iff_readable services data, consumeLoop_continues fetches []⟩

def Services.reliable : Services where
  database := .ok ()
  bridge := .ok ()
  breakpoints := none
  failureIndexer := none

/-- The payload `[]` is neither acked nor nacked, and the next message is not processed. -/
theorem empty_array_not_survived :
    (processMessage .reliable (.json (.array []))).run.run [] = (.error .attributeError, []) ∧
    ¬ Survives .reliable (.json (.array [])) ∧
    (consumeLoop [.messages [⟨.reliable, .json (.array [])⟩], .messages [⟨.reliable, .json (.object [])⟩]]).run.run [] =
      (.error .attributeError, []) := by
  refine ⟨rfl, ?_, rfl⟩
  rintro ⟨acts, hrun, _⟩
  cases hrun

end AteStudio.Relay
