import AteStudio.Lib.Runs
import AteStudio.Parser.Code

/-!
# The fixture controller (`fixture/fixture_controller.py`)

A call of the hardware that raises ends the operation where it is. The status is written at the end.
-/

namespace AteStudio.Fixture

open List

open AteStudio.Parser (isHashable truthy)

abbrev Element := Dict String PyVal

structure Config where
  actuators : List Element
  sensors : List Element

inductive Status where
  | idle
  | clamped
deriving DecidableEq

inductive Action where
  | extend
  | retract
deriving DecidableEq

def Action.value : Action → String
  | .extend => "extend"
  | .retract => "retract"

/-- Cylinders and sensors are known by their places in the configuration. -/
inductive Event where
  | command (cylinder : Nat) (action : Action) (method : PyVal) (succeeded : Bool)
  | reading (sensor : Nat) (value : PyVal)

structure FixtureController where
  status : Status
  -- The latest event first. The code does not keep it.
  log : List Event

inductive Move where
  -- whether the call for each cylinder returns, and the replies that come before the deadline, where nothing is a raise
  | clamp (returns : Nat → Bool) (polls : List (Option PyVal))
  | release (returns : Nat → Bool)

/-! ## The configuration -/

def Element.has (element : Element) (key text : String) : Bool := (element.getD key .none).str? = some text

def cylinders (cfg : Config) : List (Element × Nat) := cfg.actuators.zipIdx.filter fun e => e.1.has "type" "cylinder"

def getItem (items : List Element) (id : PyVal) : Option (Element × Nat) :=
  items.zipIdx.find? fun e => (e.1.getD "id" .none).equals id

def positionSensor (cfg : Config) : Option (Element × Nat) :=
  (cfg.sensors.zipIdx.find? fun e => e.1.has "id" "clamp_position").or
    (cfg.sensors.zipIdx.find? fun e => e.1.has "type" "position")

def method (actuator : Element) (action : Action) : PyVal :=
  let own := actuator.getD (action.value ++ "_method") .none
  let common := actuator.getD "method" .none
  if truthy own then own else if truthy common then common else .str action.value

/-! ## The operations -/

/-- `_set_actuator` for one cylinder after the other, up to the first that raises. -/
def setActuators (action : Action) (returns : Nat → Bool) : List (Element × Nat) → List Event → List Event × Bool
  | [], log => (log, true)
  | (actuator, i) :: rest, log =>
    let log := .command i action (method actuator action) (returns i) :: log
    if returns i && isHashable (actuator.getD "id" (.str "?")) then setActuators action returns rest log
    else (log, false)

open FixtureController

section

variable (float : PyVal → Option (Option Rat)) (cfg : Config)

def readSensor (id : PyVal) (reply : Option PyVal) (log : List Event) : List Event × Option (Option Rat) :=
  match getItem cfg.sensors id, reply with
  | some (_, j), some value => (.reading j value :: log, if isHashable id then float value else none)
  | _, _ => (log, none)

def waitSensor (id : PyVal) : List (Option PyVal) → List Event → List Event × Bool
  | [], log => (log, false)
  | reply :: polls, log =>
    match readSensor float cfg id reply log with
    | (log, none) => (log, false)
    | (log, some current) => if current = some 1 then (log, true) else waitSensor id polls log

def confirm (polls : List (Option PyVal)) (log : List Event) : List Event × Bool :=
  match positionSensor cfg with
  | none => (log, true)
  | some (sensor, _) =>
    match sensor.get? "id" with
    | none => (log, false)
    | some id => waitSensor float cfg id polls log

def extendAndConfirm (returns : Nat → Bool) (polls : List (Option PyVal)) (log : List Event) : List Event × Bool :=
  match setActuators .extend returns (cylinders cfg) log with
  | (log, true) => confirm float cfg polls log
  | (log, false) => (log, false)

variable (s : FixtureController)

namespace FixtureController

def new : FixtureController := ⟨.idle, []⟩

/-- The status is set only by an operation that comes to its end. -/
def finish (status : Status) : List Event × Bool → FixtureController
  | (log, true) => ⟨status, log⟩
  | (log, false) => { s with log }

def clamp (returns : Nat → Bool) (polls : List (Option PyVal)) : FixtureController :=
  s.finish .clamped (extendAndConfirm float cfg returns polls s.log)

def release (returns : Nat → Bool) : FixtureController :=
  s.finish .idle (setActuators .retract returns (cylinders cfg) s.log)

def step : Move → FixtureController
  | .clamp returns polls => s.clamp float cfg returns polls
  | .release returns => s.release cfg returns

end FixtureController

/-! ## What the status says -/

def Event.isExtend : Event → Bool
  | .command _ .extend _ _ => true
  | _ => false

def Event.moved (i : Nat) : Event → Option Action
  | .command j action _ true => if j = i then some action else none
  | _ => none

def lastMove (log : List Event) (i : Nat) : Option Action := log.findSome? (Event.moved i)

def Confirmed (log : List Event) (j : Nat) : Prop :=
  ∃ value, .reading j value ∈ log.takeWhile (!·.isExtend) ∧ float value = some (some 1)

structure IsClamped : Prop where
  extended : ∀ e ∈ cylinders cfg, lastMove s.log e.2 = some .extend
  confirmed : ∀ sensor j, positionSensor cfg = some (sensor, j) → Confirmed float s.log j

def Truthful : Prop := s.status = .clamped → IsClamped float cfg s

def Resolves : Prop :=
  ∀ sensor j id, positionSensor cfg = some (sensor, j) → sensor.get? "id" = some id →
    (getItem cfg.sensors id).map Prod.snd = some j

def FixtureController.completes : Move → Bool
  | .clamp returns polls => (extendAndConfirm float cfg returns polls s.log).2
  | .release returns => (setActuators .retract returns (cylinders cfg) s.log).2

/-- A clamped fixture is not clamped in vain, and not released in part. -/
def Careful : Move → Prop
  | .clamp returns polls =>
    if s.completes float cfg (.clamp returns polls) then Resolves cfg
    else s.status = .clamped → cylinders cfg = [] ∨ positionSensor cfg = none
  | .release returns =>
    s.status = .clamped → s.completes float cfg (.release returns) = true ∨
      ∀ first, (cylinders cfg).head? = some first → returns first.2 = false

/-! ## The log -/

variable {float cfg}

def Event.Orders (action : Action) (e : Event) : Prop := ∃ i method succeeded, e = .command i action method succeeded

theorem lastMove_append (new log : List Event) (i : Nat) :
    lastMove (new ++ log) i = (lastMove new i).or (lastMove log i) := findSome?_append

variable {new : List Event}

theorem lastMove_still {i : Nat} (h : ∀ e ∈ new, e.moved i = none) (log : List Event) :
    lastMove (new ++ log) i = lastMove log i := by
  rw [lastMove_append, lastMove, findSome?_eq_none_iff.mpr h]
  rfl

theorem eq_of_moved {action action' : Action} {e : Event} (h : e.Orders action) {i : Nat}
    (hmoved : e.moved i = some action') : action' = action := by
  obtain ⟨j, method, succeeded, rfl⟩ := h
  cases succeeded with
  | false => cases hmoved
  | true =>
    rw [Event.moved] at hmoved
    split at hmoved <;> cases hmoved
    rfl

theorem lastMove_orders {action : Action} (h : ∀ e ∈ new, e.Orders action) (log : List Event)
    (i : Nat) : lastMove (new ++ log) i = some action ∨
      lastMove (new ++ log) i = lastMove log i ∧ ∀ e ∈ new, e.moved i = none := by
  rw [lastMove_append]
  cases hnew : lastMove new i with
  | none => exact .inr ⟨rfl, findSome?_eq_none_iff.mp hnew⟩
  | some action' =>
    obtain ⟨e, he, hmoved⟩ := exists_of_findSome?_eq_some hnew
    exact .inl (by rw [eq_of_moved (h e he) hmoved]; rfl)

theorem takeWhile_orders_extend (h : ∀ e ∈ new, e.Orders .extend) (hne : new ≠ [])
    (log : List Event) : (new ++ log).takeWhile (!·.isExtend) = [] := by
  obtain ⟨e, rest, rfl⟩ := exists_cons_of_ne_nil hne
  obtain ⟨i, method, succeeded, rfl⟩ := h e mem_cons_self
  rfl

theorem takeWhile_append (h : ∀ e ∈ new, e.isExtend = false) (log : List Event) :
    (new ++ log).takeWhile (!·.isExtend) = new ++ log.takeWhile (!·.isExtend) :=
  takeWhile_append_of_pos fun e he => by rw [h e he]; rfl

theorem setActuators_spec (action : Action) (returns : Nat → Bool) (cs : List (Element × Nat)) (log : List Event) :
    ∃ new, (setActuators action returns cs log).1 = new ++ log ∧ (∀ e ∈ new, e.Orders action) ∧
      ((setActuators action returns cs log).2 = true → ∀ c ∈ cs, ∃ e ∈ new, e.moved c.2 = some action) ∧
      ∀ first, cs.head? = some first →
        .command first.2 action (method first.1 action) (returns first.2) ∈ new ∧
          (returns first.2 = false → ∀ e ∈ new, ∀ i, e.moved i = none) := by
  induction cs generalizing log with
  | nil => exact ⟨[], rfl, by simp, by simp, by simp⟩
  | cons c cs ih =>
    obtain ⟨actuator, i⟩ := c
    rw [setActuators]
    generalize hcommand : Event.command i action (method actuator action) (returns i) = e
    have horders : e.Orders action := ⟨_, _, _, hcommand.symm⟩
    split
    · next hok =>
      obtain ⟨hreturns, -⟩ := Bool.and_eq_true_iff.mp hok
      obtain ⟨new, hlog, hnew, hdone, -⟩ := ih (e :: log)
      have hmoved : e.moved i = some action := by rw [← hcommand, hreturns, Event.moved, if_pos rfl]
      refine ⟨new ++ [e], by rw [hlog, append_assoc]; rfl, ?_, fun h => ?_, ?_⟩
      · exact forall_mem_append.mpr ⟨hnew, forall_mem_singleton.mpr horders⟩
      · refine forall_mem_cons.mpr ⟨⟨e, by simp, hmoved⟩, fun c hc => ?_⟩
        obtain ⟨e', he', hmoved'⟩ := hdone h c hc
        exact ⟨e', mem_append_left _ he', hmoved'⟩
      · intro first hfirst
        cases hfirst
        exact ⟨by simp [← hcommand], fun hfalse => absurd (hreturns.symm.trans hfalse) (by decide)⟩
    · refine ⟨[e], rfl, forall_mem_singleton.mpr horders, fun h => ?_, ?_⟩
      · cases h
      · intro first hfirst
        cases hfirst
        refine ⟨by simp [← hcommand], fun hfalse => forall_mem_singleton.mpr fun j => ?_⟩
        rw [← hcommand, hfalse, Event.moved]
        exact nofun

theorem readSensor_spec {id : PyVal} {reply : Option PyVal} {log : List Event} :
    (∃ element j value, getItem cfg.sensors id = some (element, j) ∧
      readSensor float cfg id reply log = (.reading j value :: log, if isHashable id then float value else none)) ∨
    readSensor float cfg id reply log = (log, none) := by
  unfold readSensor
  split
  · next element j value hitem => exact .inl ⟨element, j, value, hitem, rfl⟩
  · exact .inr rfl

/-- The last reading is 1 when the wait succeeds, and none is when it fails. -/
theorem waitSensor_spec (id : PyVal) (polls : List (Option PyVal)) (log : List Event) :
    ∃ new, (waitSensor float cfg id polls log).1 = new ++ log ∧
      (∀ e ∈ new, ∃ element j value, getItem cfg.sensors id = some (element, j) ∧ e = .reading j value) ∧
      if (waitSensor float cfg id polls log).2 then
        isHashable id = true ∧ ∃ j value, .reading j value ∈ new ∧ float value = some (some 1)
      else isHashable id = true → ∀ j value, .reading j value ∈ new → float value ≠ some (some 1) := by
  induction polls generalizing log with
  | nil => exact ⟨[], rfl, by simp, by simp [waitSensor]⟩
  | cons reply polls ih =>
    rw [waitSensor]
    rcases @readSensor_spec float cfg id reply log with ⟨element, j, value, hitem, hread⟩ | hread
    · rw [hread]
      have hreading : ∃ element j' value', getItem cfg.sensors id = some (element, j') ∧
          Event.reading j value = .reading j' value' := ⟨element, j, value, hitem, rfl⟩
      cases hhash : isHashable id with
      | false =>
        refine ⟨[.reading j value], rfl, forall_mem_singleton.mpr hreading, ?_⟩
        simp
      | true =>
        simp only [if_true]
        cases hfloat : float value with
        | none =>
          refine ⟨[.reading j value], rfl, forall_mem_singleton.mpr hreading, ?_⟩
          simp [hfloat]
        | some current =>
          dsimp only
          split
          · next hone =>
            refine ⟨[.reading j value], rfl, forall_mem_singleton.mpr hreading, ?_⟩
            simp only [if_true, true_and]
            exact ⟨j, value, mem_cons_self, by rw [hfloat, hone]⟩
          · next hother =>
            obtain ⟨new, hlog, hnew, hend⟩ := ih (.reading j value :: log)
            refine ⟨new ++ [.reading j value], by rw [hlog, append_assoc]; rfl,
              forall_mem_append.mpr ⟨hnew, forall_mem_singleton.mpr hreading⟩, ?_⟩
            rw [hhash] at hend
            split at hend
            · next hdone =>
              obtain ⟨-, j', value', hmem, hvalue⟩ := hend
              rw [if_pos hdone]
              exact ⟨trivial, j', value', mem_append_left _ hmem, hvalue⟩
            · next hdone =>
              rw [if_neg hdone]
              intro _ j' value' hmem
              rcases mem_append.mp hmem with hmem | hmem
              · exact hend rfl j' value' hmem
              · cases mem_singleton.mp hmem
                rw [hfloat]
                simpa using hother
    · rw [hread]
      exact ⟨[], rfl, by simp, by simp⟩

def Finds (cfg : Config) (j : Nat) : Prop :=
  ∃ sensor j₀ id element, positionSensor cfg = some (sensor, j₀) ∧ sensor.get? "id" = some id ∧
    getItem cfg.sensors id = some (element, j)

def Event.Reads (cfg : Config) (e : Event) : Prop := ∃ j value, e = .reading j value ∧ Finds cfg j

def Confirms (float : PyVal → Option (Option Rat)) (cfg : Config) (readings : List Event) : Prop :=
  ∀ sensor j₀, positionSensor cfg = some (sensor, j₀) → ∃ id j value, sensor.get? "id" = some id ∧
    isHashable id = true ∧ .reading j value ∈ readings ∧ float value = some (some 1)

def Refutes (float : PyVal → Option (Option Rat)) (cfg : Config) (readings : List Event) : Prop :=
  ∃ sensor j₀, positionSensor cfg = some (sensor, j₀) ∧ ∀ id, sensor.get? "id" = some id → isHashable id = true →
    ∀ j value, .reading j value ∈ readings → float value ≠ some (some 1)

theorem Resolves.eq (h : Resolves cfg) {sensor : Element} {j j₀ : Nat}
    (hsensor : positionSensor cfg = some (sensor, j₀)) (hfinds : Finds cfg j) : j = j₀ := by
  obtain ⟨sensor', j', id, element, hsensor', hid, hitem⟩ := hfinds
  cases hsensor.symm.trans hsensor'
  have hj := h sensor j₀ id hsensor hid
  rw [hitem] at hj
  exact Option.some.inj hj

theorem confirm_spec (polls : List (Option PyVal)) (log : List Event) :
    ∃ new, (confirm float cfg polls log).1 = new ++ log ∧
      (∀ e ∈ new, e.Reads cfg) ∧
      if (confirm float cfg polls log).2 then Confirms float cfg new else Refutes float cfg new := by
  cases hsensor : positionSensor cfg with
  | none =>
    have hconfirm : confirm float cfg polls log = (log, true) := by rw [confirm, hsensor]
    rw [hconfirm]
    exact ⟨[], rfl, by simp, by simp [Confirms, hsensor]⟩
  | some e =>
    obtain ⟨sensor, j₀⟩ := e
    cases hid : sensor.get? "id" with
    | none =>
      have hconfirm : confirm float cfg polls log = (log, false) := by
        rw [confirm, hsensor]
        dsimp only
        rw [hid]
      rw [hconfirm]
      refine ⟨[], rfl, by simp, ?_⟩
      simp only [Bool.false_eq_true, if_false]
      exact ⟨sensor, j₀, hsensor, by simp [hid]⟩
    | some id =>
      have hconfirm : confirm float cfg polls log = waitSensor float cfg id polls log := by
        rw [confirm, hsensor]
        dsimp only
        rw [hid]
      obtain ⟨new, hlog, hnew, hend⟩ := @waitSensor_spec float cfg id polls log
      rw [hconfirm]
      refine ⟨new, hlog, fun e he => ?_, ?_⟩
      · obtain ⟨element, j, value, hitem, rfl⟩ := hnew e he
        exact ⟨j, value, rfl, sensor, j₀, id, element, hsensor, hid, hitem⟩
      · split at hend
        · next hdone =>
          obtain ⟨hhash, j, value, hmem, hone⟩ := hend
          rw [if_pos hdone]
          intro sensor' j' hsensor'
          cases hsensor.symm.trans hsensor'
          exact ⟨id, j, value, hid, hhash, hmem, hone⟩
        · next hdone =>
          rw [if_neg hdone]
          refine ⟨sensor, j₀, hsensor, fun id' hid' hhash => ?_⟩
          cases hid.symm.trans hid'
          exact hend hhash

/-! ## Every call -/

/-- Only the sensor that the position sensor's id finds is read. -/
structure Inv (cfg : Config) (s : FixtureController) : Prop where
  readings : ∀ j value, .reading j value ∈ s.log → Finds cfg j
  hashable : s.status = .clamped → ∀ sensor j id, positionSensor cfg = some (sensor, j) → sensor.get? "id" = some id →
    isHashable id = true

theorem inv_new : Inv cfg .new where
  readings _ _ h := absurd h not_mem_nil
  hashable h := nomatch h

theorem clamp_cases (returns : Nat → Bool) (polls : List (Option PyVal)) :
    ∃ commands readings, (∀ e ∈ commands, e.Orders .extend) ∧ (commands = [] ↔ cylinders cfg = []) ∧
      (∀ e ∈ readings, e.Reads cfg) ∧
      if s.completes float cfg (.clamp returns polls) then
        s.clamp float cfg returns polls = ⟨.clamped, readings ++ (commands ++ s.log)⟩ ∧
          (∀ c ∈ cylinders cfg, ∃ e ∈ commands, e.moved c.2 = some .extend) ∧ Confirms float cfg readings
      else
        s.clamp float cfg returns polls = { s with log := readings ++ (commands ++ s.log) } ∧
          (readings = [] ∧ cylinders cfg ≠ [] ∨ Refutes float cfg readings) := by
  obtain ⟨commands, hcommands, horders, hdone, hfirst⟩ := setActuators_spec .extend returns (cylinders cfg) s.log
  have hempty : commands = [] ↔ cylinders cfg = [] := by
    constructor
    · rintro rfl
      cases hcs : cylinders cfg with
      | nil => rfl
      | cons c cs => exact absurd (hfirst c (by rw [hcs]; rfl)).1 not_mem_nil
    · intro hcs
      rw [hcs, setActuators] at hcommands
      exact self_eq_append_left.mp hcommands
  rw [completes, clamp, extendAndConfirm]
  rcases hset : setActuators .extend returns (cylinders cfg) s.log with ⟨log, extended⟩
  rw [hset] at hcommands hdone
  obtain rfl : log = commands ++ s.log := hcommands
  cases extended with
  | false =>
    refine ⟨commands, [], horders, hempty, by simp, ?_⟩
    rw [if_neg (by simp)]
    refine ⟨rfl, .inl ⟨rfl, fun hcs => ?_⟩⟩
    rw [hcs, setActuators] at hset
    exact nomatch congrArg Prod.snd hset
  | true =>
    obtain ⟨readings, hlog, hreadings, hend⟩ := @confirm_spec float cfg polls (commands ++ s.log)
    refine ⟨commands, readings, horders, hempty, hreadings, ?_⟩
    have hpair : confirm float cfg polls (commands ++ s.log) =
        (readings ++ (commands ++ s.log), (confirm float cfg polls (commands ++ s.log)).2) := Prod.ext hlog rfl
    by_cases hconfirmed : (confirm float cfg polls (commands ++ s.log)).2 = true
    · rw [if_pos hconfirmed] at hend ⊢
      rw [hconfirmed] at hpair
      exact ⟨congrArg (s.finish .clamped) hpair, hdone rfl, hend⟩
    · rw [if_neg hconfirmed] at hend ⊢
      rw [Bool.not_eq_true] at hconfirmed
      rw [hconfirmed] at hpair
      exact ⟨congrArg (s.finish .clamped) hpair, .inr hend⟩

theorem release_cases (returns : Nat → Bool) :
    ∃ commands, (∀ e ∈ commands, e.Orders .retract) ∧
      (∀ first, (cylinders cfg).head? = some first →
        .command first.2 .retract (method first.1 .retract) (returns first.2) ∈ commands ∧
          (returns first.2 = false → ∀ e ∈ commands, ∀ i, e.moved i = none)) ∧
      if s.completes float cfg (.release returns) then s.release cfg returns = ⟨.idle, commands ++ s.log⟩
      else s.release cfg returns = { s with log := commands ++ s.log } ∧ cylinders cfg ≠ [] := by
  obtain ⟨commands, hcommands, horders, -, hfirst⟩ := setActuators_spec .retract returns (cylinders cfg) s.log
  refine ⟨commands, horders, hfirst, ?_⟩
  rw [completes, release]
  rcases hset : setActuators .retract returns (cylinders cfg) s.log with ⟨log, retracted⟩
  rw [hset] at hcommands
  obtain rfl : log = commands ++ s.log := hcommands
  cases retracted with
  | false =>
    rw [if_neg (by simp)]
    refine ⟨rfl, fun hcs => ?_⟩
    rw [hcs, setActuators] at hset
    exact nomatch congrArg Prod.snd hset
  | true =>
    rw [if_pos rfl]
    rfl

variable {readings : List Event}

theorem not_isExtend_readings (h : ∀ e ∈ readings, e.Reads cfg) : ∀ e ∈ readings, e.isExtend = false := by
  intro e he
  obtain ⟨j, value, rfl, -⟩ := h e he
  rfl

theorem lastMove_readings (h : ∀ e ∈ readings, e.Reads cfg)
    (log : List Event) (i : Nat) : lastMove (readings ++ log) i = lastMove log i := by
  refine lastMove_still (fun e he => ?_) log
  obtain ⟨j, value, rfl, -⟩ := h e he
  rfl

variable {commands : List Event}

theorem finds_of_mem {log : List Event} {action : Action} (horders : ∀ e ∈ commands, e.Orders action)
    (hreadings : ∀ e ∈ readings, e.Reads cfg) (hlog : ∀ j value, .reading j value ∈ log → Finds cfg j) (j : Nat)
    (value : PyVal) (hmem : .reading j value ∈ readings ++ (commands ++ log)) : Finds cfg j := by
  rcases mem_append.mp hmem with hmem | hmem
  · obtain ⟨j', value', heq, hfinds⟩ := hreadings _ hmem
    cases heq
    exact hfinds
  rcases mem_append.mp hmem with hmem | hmem
  · obtain ⟨i, method, succeeded, heq⟩ := horders _ hmem
    cases heq
  · exact hlog j value hmem

theorem inv_step (m : Move) (h : Inv cfg s) : Inv cfg (s.step float cfg m) := by
  cases m with
  | clamp returns polls =>
    obtain ⟨commands, readings, horders, -, hreadings, hcase⟩ := @clamp_cases float cfg s returns polls
    have hlog := finds_of_mem horders hreadings h.readings
    rw [step]
    split at hcase
    · obtain ⟨heq, -, hconfirmed⟩ := hcase
      rw [heq]
      refine ⟨hlog, fun _ sensor j id hsensor hid => ?_⟩
      obtain ⟨id', j', value, hid', hhash, -⟩ := hconfirmed sensor j hsensor
      cases hid.symm.trans hid'
      exact hhash
    · rw [hcase.1]
      exact ⟨hlog, h.hashable⟩
  | release returns =>
    obtain ⟨commands, horders, -, hcase⟩ := @release_cases float cfg s returns
    have hlog := finds_of_mem horders (forall_mem_nil _) h.readings
    rw [step]
    split at hcase
    · rw [hcase]
      exact ⟨hlog, fun hstatus => nomatch hstatus⟩
    · rw [hcase.1]
      exact ⟨hlog, h.hashable⟩

variable {s}

theorem truthful_completed (hinv : Inv cfg s) (horders : ∀ e ∈ commands, e.Orders .extend)
    (hreadings : ∀ e ∈ readings, e.Reads cfg) (hmoved : ∀ c ∈ cylinders cfg, ∃ e ∈ commands, e.moved c.2 = some .extend)
    (hconfirmed : Confirms float cfg readings) :
    Truthful float cfg ⟨.clamped, readings ++ (commands ++ s.log)⟩ ↔ Resolves cfg := by
  constructor
  · intro h sensor j₀ id hsensor hid
    obtain ⟨value, hmem, -⟩ := (h rfl).confirmed sensor j₀ hsensor
    -- Every reading in the log is one of the sensor that was found.
    obtain ⟨sensor', j', id', element, hsensor', hid', hitem⟩ : Finds cfg j₀ :=
      finds_of_mem horders hreadings hinv.readings j₀ value ((takeWhile_sublist _).subset hmem)
    cases hsensor.symm.trans hsensor'
    cases hid.symm.trans hid'
    rw [hitem]
    rfl
  · intro hresolves _
    refine ⟨fun c hc => ?_, fun sensor j₀ hsensor => ?_⟩
    · show lastMove (readings ++ (commands ++ s.log)) c.2 = some .extend
      rw [lastMove_readings hreadings]
      obtain ⟨e, he, hmove⟩ := hmoved c hc
      rcases lastMove_orders horders s.log c.2 with hlast | ⟨-, hnone⟩
      · exact hlast
      · cases (hnone e he).symm.trans hmove
    · obtain ⟨id, j, value, -, -, hmem, hone⟩ := hconfirmed sensor j₀ hsensor
      obtain ⟨j', value', heq, hfinds⟩ := hreadings _ hmem
      cases heq
      refine ⟨value, ?_, hone⟩
      rw [← hresolves.eq hsensor hfinds, takeWhile_append (not_isExtend_readings hreadings)]
      exact mem_append_left _ hmem

theorem truthful_failed (hinv : Inv cfg s) (hs : Truthful float cfg s) (horders : ∀ e ∈ commands, e.Orders .extend)
    (hempty : commands = [] ↔ cylinders cfg = []) (hreadings : ∀ e ∈ readings, e.Reads cfg)
    (hfailed : readings = [] ∧ cylinders cfg ≠ [] ∨ Refutes float cfg readings) :
    Truthful float cfg { s with log := readings ++ (commands ++ s.log) } ↔
      (s.status = .clamped → cylinders cfg = [] ∨ positionSensor cfg = none) := by
  constructor
  · intro h hstatus
    by_contra hnot
    obtain ⟨hcs, hsensor⟩ := not_or.mp hnot
    obtain ⟨⟨sensor, j₀⟩, hsensor⟩ := Option.ne_none_iff_exists'.mp hsensor
    obtain ⟨value, hmem, hone⟩ := (h hstatus).confirmed sensor j₀ hsensor
    rw [takeWhile_append (not_isExtend_readings hreadings),
      takeWhile_orders_extend horders (fun hnil => hcs (hempty.mp hnil)), append_nil] at hmem
    rcases hfailed with ⟨rfl, -⟩ | ⟨sensor', j', hsensor', hother⟩
    · cases hmem
    · cases hsensor.symm.trans hsensor'
      obtain ⟨j, value', heq, sensor', j', id, element, hsensor', hid, -⟩ := hreadings _ hmem
      cases hsensor.symm.trans hsensor'
      exact hother id hid (hinv.hashable hstatus sensor j₀ id hsensor hid) _ _ hmem hone
  · intro h hstatus
    refine ⟨fun c hc => ?_, fun sensor j₀ hsensor => ?_⟩
    · show lastMove (readings ++ (commands ++ s.log)) c.2 = some .extend
      rw [lastMove_readings hreadings]
      rcases lastMove_orders horders s.log c.2 with hlast | ⟨hlast, -⟩
      · exact hlast
      · exact hlast.trans ((hs hstatus).extended c hc)
    · obtain hcs | hnone := h hstatus
      · obtain ⟨value, hmem, hone⟩ := (hs hstatus).confirmed sensor j₀ hsensor
        refine ⟨value, ?_, hone⟩
        rw [takeWhile_append (not_isExtend_readings hreadings), hempty.mpr hcs]
        exact mem_append_right _ hmem
      · cases hnone.symm.trans hsensor

theorem truthful_failed_release {returns : Nat → Bool}
    (hs : Truthful float cfg s) (horders : ∀ e ∈ commands, e.Orders .retract) (hcs : cylinders cfg ≠ [])
    (hfirst : ∀ first, (cylinders cfg).head? = some first →
      .command first.2 .retract (method first.1 .retract) (returns first.2) ∈ commands ∧
        (returns first.2 = false → ∀ e ∈ commands, ∀ i, e.moved i = none)) :
    Truthful float cfg { s with log := commands ++ s.log } ↔
      (s.status = .clamped → ∀ first, (cylinders cfg).head? = some first → returns first.2 = false) := by
  obtain ⟨first, rest, hcons⟩ := exists_cons_of_ne_nil hcs
  have hhead : (cylinders cfg).head? = some first := by rw [hcons]; rfl
  obtain ⟨hcommand, hstill⟩ := hfirst first hhead
  constructor
  · intro h hstatus first' hhead'
    cases hhead.symm.trans hhead'
    have hextended : lastMove (commands ++ s.log) first.2 = some .extend :=
      (h hstatus).extended first (by rw [hcons]; exact mem_cons_self)
    rcases lastMove_orders horders s.log first.2 with hlast | ⟨-, hnone⟩
    · cases hextended.symm.trans hlast
    · have hmoved := hnone _ hcommand
      cases hreturns : returns first.2 with
      | false => rfl
      | true =>
        rw [hreturns, Event.moved, if_pos rfl] at hmoved
        cases hmoved
  · intro h hstatus
    have hnone := hstill (h hstatus first hhead)
    refine ⟨fun c hc => ?_, fun sensor j₀ hsensor => ?_⟩
    · exact (lastMove_still (fun e he => hnone e he c.2) s.log).trans ((hs hstatus).extended c hc)
    · obtain ⟨value, hmem, hone⟩ := (hs hstatus).confirmed sensor j₀ hsensor
      refine ⟨value, ?_, hone⟩
      rw [takeWhile_append fun e he => by obtain ⟨i, method, succeeded, rfl⟩ := horders e he; rfl]
      exact mem_append_right _ hmem

theorem careful_iff (s : FixtureController) (m : Move) (hinv : Inv cfg s) (hs : Truthful float cfg s) :
    Careful float cfg s m ↔ Truthful float cfg (s.step float cfg m) := by
  cases m with
  | clamp returns polls =>
    obtain ⟨commands, readings, horders, hempty, hreadings, hcase⟩ := @clamp_cases float cfg s returns polls
    rw [Careful, step]
    split at hcase
    · next hdone =>
      obtain ⟨heq, hmoved, hconfirmed⟩ := hcase
      rw [if_pos hdone, heq]
      exact (truthful_completed hinv horders hreadings hmoved hconfirmed).symm
    · next hdone =>
      rw [if_neg hdone, hcase.1]
      exact (truthful_failed hinv hs horders hempty hreadings hcase.2).symm
  | release returns =>
    obtain ⟨commands, horders, hfirst, hcase⟩ := @release_cases float cfg s returns
    rw [Careful, step]
    split at hcase
    · next hdone =>
      rw [hcase]
      exact iff_of_true (fun _ => .inl hdone) fun hstatus => nomatch hstatus
    · next hdone =>
      rw [hcase.1, truthful_failed_release hs horders hcase.2 hfirst]
      simp only [hdone, Bool.false_eq_true, false_or]

theorem always_truthful_iff (float : PyVal → Option (Option Rat)) (cfg : Config) (moves : List Move) :
    (∀ before, before <+: moves → Truthful float cfg (Runs.run (FixtureController.step float cfg) .new before)) ↔
      Runs.Meets (FixtureController.step float cfg) (Careful float cfg) .new moves :=
  (Runs.meets_iff_always inv_step careful_iff inv_new fun hstatus => nomatch hstatus).symm

def twoCylinders : Config where
  actuators := [.ofList [("id", .str "left"), ("type", .str "cylinder")],
    .ofList [("id", .str "right"), ("type", .str "cylinder")]]
  sensors := []

def floatOfNumber (value : PyVal) : Option (Option Rat) := value.num?.map some

/-- The second of two cylinders does not retract, and the fixture still counts as clamped. -/
theorem not_truthful_half_released :
    ¬ Truthful floatOfNumber twoCylinders (Runs.run (FixtureController.step floatOfNumber twoCylinders) .new
      [.clamp (fun _ => true) [], .release fun i => i ≠ 1]) := by
  intro h
  have hextended := (h rfl).extended (.ofList [("id", .str "left"), ("type", .str "cylinder")], 0) List.mem_cons_self
  cases hextended

end

end AteStudio.Fixture
