import AteStudio.Lib.Json
import AteStudio.Lib.Runs
import AteStudio.Value

/-!
# The event buffer (`offline/event_buffer.py`)

The server takes a message whose subject a stream has, and answers a pull only on the connection that made the
subscription.
-/

namespace AteStudio.Offline.Buffer

open List

open Json (Obj Text)

/-! ## Subjects -/

def tokens (subject : List Char) : List (List Char) := subject.splitOn '.'

def validToken (t : List Char) : Bool := t ≠ [] && !t.any isPySpace

/-- `>` stands for one token or more, `*` for one. -/
def tokensMatch : List (List Char) → List (List Char) → Bool
  | [['>']], _ :: _ => true
  | p :: ps, t :: ts => (p == ['*'] || p == t) && tokensMatch ps ts
  | [], [] => true
  | _, _ => false

def subjectMatches (pattern subject : List Char) : Bool :=
  (tokens subject).all validToken && tokensMatch (tokens pattern) (tokens subject)

def subjectRoot : String := "teststation.events"

def streamSubjects : List String := [subjectRoot ++ ".>"]

def target (subject : Option String) : String :=
  match subject with
  | some suffix => if suffix = "" then subjectRoot else subjectRoot ++ "." ++ suffix
  | none => subjectRoot

/-! ## The server -/

structure Message where
  subject : String
  -- Nothing when it is not JSON.
  data : Option Text

/-- With the state of its consumer. A message is known by its place, the first has number 1. -/
structure Stream where
  messages : List Message := []
  acked : List Nat := []
  waiting : List Nat := []
  -- The default of the server, as the code sets none.
  maxAckPending : Nat := 1000

namespace Stream

def idle (st : Stream) : List (Message × Nat) :=
  (st.messages.zipIdx 1).filter fun p => p.2 ∉ st.acked ∧ p.2 ∉ st.waiting

/-- Fewer than `maxAckPending` messages before it are not acknowledged. -/
def hasRoom (st : Stream) (seq : Nat) : Bool := (range' 1 (seq - 1)).countP (· ∉ st.acked) < st.maxAckPending

def deliverable (st : Stream) : List (Message × Nat) := st.idle.filter fun p => st.hasRoom p.2

def deliver (st : Stream) (limit : Nat) : List (Message × Nat) × Stream :=
  let batch := st.deliverable.take limit
  (batch, { st with waiting := st.waiting ++ batch.map Prod.snd })

def ack (st : Stream) (seq : Nat) : Stream := { st with acked := st.acked ++ [seq] }

end Stream

/-! ## The buffer -/

structure PendingEvent where
  streamSeq : Nat
  subject : String
  payload : Obj

structure EventBuffer where
  stream : Option Stream
  -- The number of the connection, and whether it is up.
  nc : Option (Nat × Bool)
  connections : Nat
  sub : Option Nat
  -- The connection each message came on.
  unacked : Dict Nat Nat

inductive Move where
  | publish (event : Dict String Obj) (subject : Option String) (now : Rat)
  | fetchPending (limit : Int)
  | ack (seq : Nat)
  -- The connection is lost. The next call that needs one connects again.
  | lose
  -- The consumer has waited long enough for what it delivered.
  | ackWait
  | close

namespace EventBuffer

def new (stream : Option Stream) : EventBuffer := ⟨stream, none, 0, none, ∅⟩

variable (s : EventBuffer)

def isUp (connection : Nat) : Bool := s.nc == some (connection, true)

def ensureConnection : EventBuffer :=
  match s.nc with
  | some (_, true) => s
  | _ => { s with nc := some (s.connections, true), connections := s.connections + 1 }

def ensureStream : EventBuffer :=
  match s.stream with
  | some _ => s
  | none => { s with stream := some {} }

/-- A subscription that was made once is kept, whatever became of its connection. -/
def ensureSubscription : EventBuffer :=
  match s.sub with
  | some _ => s
  | none =>
    let s := s.ensureConnection.ensureStream
    { s with sub := s.nc.map Prod.fst }

def stamped (event : Dict String Obj) (now : Rat) : Obj := Json.ofDict (event.setDefault "buffered_at" (.float now))

def publish (reprFloat : Rat → String) (s : EventBuffer) (event : Dict String Obj) (subject : Option String) (now : Rat) :
    Bool × EventBuffer :=
  match Json.dumps? reprFloat (stamped event now) with
  | none => (false, s)
  | some data =>
    let s := s.ensureConnection.ensureStream
    if streamSubjects.any fun p => subjectMatches p.toList (target subject).toList then
      let message : Message := ⟨target subject, some data⟩
      (true, { s with stream := s.stream.map fun st => { st with messages := st.messages ++ [message] } })
    else (false, s)

/-- The messages of a batch. What is not JSON is acknowledged and dropped. -/
def receive (connection : Nat) (s : EventBuffer) : List (Message × Nat) → List PendingEvent × EventBuffer
  | [] => ([], s)
  | (m, seq) :: rest =>
    match m.data with
    | none => receive connection { s with stream := s.stream.map (·.ack seq) } rest
    | some data =>
      let (events, s) := receive connection { s with unacked := s.unacked.set seq connection } rest
      (⟨seq, m.subject, Json.loads data⟩ :: events, s)

/-- `none` stands for the `ValueError` of a limit below one. -/
def fetchPending (limit : Int) : Option (List PendingEvent × EventBuffer) :=
  if limit < 1 then none
  else
    let s := s.ensureSubscription
    match s.sub, s.stream with
    | some connection, some st =>
      if s.isUp connection then
        let (batch, st) := st.deliver limit.toNat
        some (receive connection { s with stream := some st } batch)
      else some ([], s)
    | _, _ => some ([], s)

def ack (seq : Nat) : Bool × EventBuffer :=
  match s.unacked.get? seq with
  | none => (false, s)
  | some connection =>
    if s.isUp connection then
      (true, { s with unacked := s.unacked.erase seq, stream := s.stream.map (·.ack seq) })
    else (false, s)

def ackWait : EventBuffer := { s with stream := s.stream.map fun st => { st with waiting := [] } }

def step (reprFloat : Rat → String) (s : EventBuffer) : Move → EventBuffer
  | .publish event subject now => (s.publish reprFloat event subject now).2
  | .fetchPending limit =>
    match s.fetchPending limit with
    | some (_, s) => s
    | none => s
  | .ack seq => (s.ack seq).2
  | .lose => { s with nc := s.nc.map fun c => (c.1, false) }
  | .ackWait => s.ackWait
  | .close => { s with nc := none, sub := none, unacked := ∅ }

end EventBuffer

/-! ## What the stream takes -/

/-- A suffix of one token or more, none of them empty or with a space in it. -/
def wellFormed : Option String → Bool
  | some suffix => (tokens suffix.toList).all validToken
  | none => false

theorem tokens_target (suffix : String) :
    tokens (subjectRoot ++ "." ++ suffix).toList = "teststation".toList :: "events".toList :: tokens suffix.toList := by
  have hroot : tokens subjectRoot.toList = ["teststation".toList, "events".toList] := by decide
  rw [String.toList_append, String.toList_append, append_assoc]
  unfold tokens at hroot ⊢
  rw [splitOn_eq_splitOnP] at hroot ⊢
  exact (splitOnP_append_cons _ _ (by decide)).trans (congrArg (· ++ _) hroot)

theorem matches_target_iff (subject : Option String) :
    (streamSubjects.any fun p => subjectMatches p.toList (target subject).toList) = true ↔ wellFormed subject = true := by
  have hpattern : tokens (subjectRoot ++ ".>").toList = ["teststation".toList, "events".toList, ['>']] := by decide
  have hroot : subjectMatches (subjectRoot ++ ".>").toList subjectRoot.toList = false := by decide
  rw [streamSubjects, any_cons, any_nil, Bool.or_false]
  cases subject with
  | none => rw [target, hroot]; rfl
  | some suffix =>
    rw [target, wellFormed]
    split
    · next hempty =>
      subst hempty
      rw [hroot]
      decide
    · rw [subjectMatches, hpattern, tokens_target]
      obtain ⟨t, ts, hts⟩ := exists_cons_of_ne_nil (show tokens suffix.toList ≠ [] from splitOn_ne_nil _ _)
      have hmatch : tokensMatch ["teststation".toList, "events".toList, ['>']]
          ("teststation".toList :: "events".toList :: t :: ts) = true := rfl
      have hvalid : validToken "teststation".toList = true ∧ validToken "events".toList = true := by decide
      rw [hts, hmatch, Bool.and_true, all_cons, all_cons, hvalid.1, hvalid.2, Bool.true_and, Bool.true_and]

namespace EventBuffer

def returnedBy (limit : Int) : Nat → EventBuffer → List PendingEvent
  | 0, _ => []
  | n + 1, s =>
    match s.fetchPending limit with
    | some (events, s) => events ++ returnedBy limit n s
    | none => []

/-- Unless it has been acknowledged or there is no room for it, the event is returned, when the consumer has waited, by
calls with any limit. -/
def Delivers (s : EventBuffer) (event : PendingEvent) : Prop :=
  ∃ st, s.stream = some st ∧ (event.streamSeq ∉ st.acked → st.hasRoom event.streamSeq = true → ∀ limit, 1 ≤ limit →
    ∃ n, event ∈ returnedBy limit n s.ackWait)

variable {reprFloat : Rat → String} {s : EventBuffer}

/-! ## One fetch -/

structure Linked (s : EventBuffer) : Prop where
  up : ∀ c, s.sub = some c → s.nc = some (c, true)
  stream : s.sub ≠ none → s.stream ≠ none

theorem ensureConnection_up (s : EventBuffer) : ∃ c, s.ensureConnection.nc = some (c, true) := by
  unfold ensureConnection
  split
  · next c h => exact ⟨c, h⟩
  · exact ⟨_, rfl⟩

theorem ensureSubscription_spec (h : s.Linked) {st : Stream} (hst : s.stream = some st) :
    ∃ c, s.ensureSubscription.sub = some c ∧ s.ensureSubscription.nc = some (c, true) ∧
      s.ensureSubscription.stream = some st := by
  unfold ensureSubscription
  split
  · next c hc => exact ⟨c, hc, h.up c hc, hst⟩
  · obtain ⟨c, hc⟩ := ensureConnection_up s
    have hst' : s.ensureConnection.stream = some st := by
      unfold ensureConnection
      split <;> exact hst
    have hstream : s.ensureConnection.ensureStream = s.ensureConnection := by
      rw [ensureStream, hst']
    refine ⟨c, ?_, ?_, ?_⟩ <;> simp only [hstream, hc, hst', Option.map_some]

/-- Messages of a batch have been acknowledged. -/
structure Acks (st : Stream) (batch : List Nat) (st' : Stream) : Prop where
  messages : st'.messages = st.messages
  maxAckPending : st'.maxAckPending = st.maxAckPending
  acked : st.acked ⊆ st'.acked
  of_acked : ∀ q ∈ st'.acked, q ∈ st.acked ∨ q ∈ batch

/-- Events are returned, and of the stream only acknowledgements of the batch change. -/
structure Received (s : EventBuffer) (batch : List (Message × Nat)) (events : List PendingEvent) (s' : EventBuffer) :
    Prop where
  nc : s'.nc = s.nc
  sub : s'.sub = s.sub
  events : ∀ p ∈ batch, ∀ data, p.1.data = some data → ⟨p.2, p.1.subject, Json.loads data⟩ ∈ events
  stream : ∀ st, s.stream = some st → ∃ st', s'.stream = some st' ∧ st'.waiting = st.waiting ∧
    Acks st (batch.map Prod.snd) st'

theorem receive_spec (c : Nat) (batch : List (Message × Nat)) (s : EventBuffer) :
    Received s batch (receive c s batch).1 (receive c s batch).2 := by
  induction batch generalizing s with
  | nil =>
    exact ⟨rfl, rfl, fun _ h => absurd h not_mem_nil,
      fun st hst => ⟨st, hst, rfl, rfl, rfl, List.Subset.refl _, fun _ h => .inl h⟩⟩
  | cons p rest ih =>
    obtain ⟨m, seq⟩ := p
    rw [receive]
    split
    · next hnone =>
      have h := ih { s with stream := s.stream.map (·.ack seq) }
      refine ⟨h.nc, h.sub, forall_mem_cons.mpr ⟨fun data hd => ?_, h.events⟩, fun st hst => ?_⟩
      · rw [hnone] at hd
        cases hd
      · obtain ⟨st', hst', hw, hacks⟩ := h.stream (st.ack seq) (by rw [hst]; rfl)
        refine ⟨st', hst', hw, hacks.messages, hacks.maxAckPending,
          fun q hq => hacks.acked (mem_append_left _ hq), fun q hq => ?_⟩
        rcases hacks.of_acked q hq with hq | hq
        · rcases mem_append.mp hq with hq | hq
          · exact .inl hq
          · exact .inr (mem_singleton.mp hq ▸ mem_cons_self)
        · exact .inr (mem_cons_of_mem _ hq)
    · next data hdata =>
      have h := ih { s with unacked := s.unacked.set seq c }
      refine ⟨h.nc, h.sub, forall_mem_cons.mpr ⟨fun data' hd => ?_, fun p hp d hd => ?_⟩, fun st hst => ?_⟩
      · rw [hdata] at hd
        cases hd
        exact mem_cons_self
      · exact mem_cons_of_mem _ (h.events p hp d hd)
      · obtain ⟨st', hst', hw, hacks⟩ := h.stream st hst
        exact ⟨st', hst', hw, hacks.messages, hacks.maxAckPending, hacks.acked,
          fun q hq => (hacks.of_acked q hq).imp_right (mem_cons_of_mem _)⟩

theorem Acks.hasRoom {st st' : Stream} {batch : List Nat} (h : Acks st batch st') {seq : Nat}
    (hroom : st.hasRoom seq = true) : st'.hasRoom seq = true := by
  rw [Stream.hasRoom, decide_eq_true_eq] at hroom ⊢
  rw [h.maxAckPending]
  refine lt_of_le_of_lt (countP_mono_left fun q _ hq => ?_) hroom
  rw [decide_eq_true_eq] at hq ⊢
  exact fun hmem => hq (h.acked hmem)

theorem Acks.idle {st st' : Stream} {batch : List Nat} (h : Acks st batch st')
    (hwaiting : st'.waiting = st.waiting ++ batch) : st'.idle = st.idle.filter (·.2 ∉ batch) := by
  rw [Stream.idle, Stream.idle, h.messages, hwaiting, filter_filter]
  refine filter_congr fun p _ => ?_
  have hiff : (p.2 ∉ st'.acked ∧ p.2 ∉ st.waiting ++ batch) ↔ p.2 ∉ batch ∧ p.2 ∉ st.acked ∧ p.2 ∉ st.waiting := by
    rw [mem_append, not_or]
    constructor
    · rintro ⟨ha, hw, hb⟩
      exact ⟨hb, fun hmem => ha (h.acked hmem), hw⟩
    · rintro ⟨hb, ha, hw⟩
      exact ⟨fun hmem => (h.of_acked p.2 hmem).elim ha hb, hw, hb⟩
  rw [Bool.eq_iff_iff, Bool.and_eq_true, decide_eq_true_eq, decide_eq_true_eq, decide_eq_true_eq]
  exact hiff

theorem fetchPending_spec (h : s.Linked) {st : Stream} (hst : s.stream = some st) {limit : Int} (hlimit : 1 ≤ limit) :
    ∃ events s' st', s.fetchPending limit = some (events, s') ∧ s'.Linked ∧ s'.stream = some st' ∧
      (∀ p ∈ st.deliverable.take limit.toNat, ∀ data, p.1.data = some data →
        ⟨p.2, p.1.subject, Json.loads data⟩ ∈ events) ∧
      st'.waiting = st.waiting ++ (st.deliverable.take limit.toNat).map Prod.snd ∧
      Acks st ((st.deliverable.take limit.toNat).map Prod.snd) st' := by
  obtain ⟨c, hsub, hnc, hstream⟩ := ensureSubscription_spec h hst
  have hup : s.ensureSubscription.isUp c = true := by simp [isUp, hnc]
  have hfetch : s.fetchPending limit = some (receive c
      { s.ensureSubscription with stream := some (st.deliver limit.toNat).2 } (st.deliver limit.toNat).1) := by
    rw [fetchPending, if_neg (by omega)]
    simp only [hsub, hstream, hup, if_true]
  have hr := receive_spec c (st.deliver limit.toNat).1
    { s.ensureSubscription with stream := some (st.deliver limit.toNat).2 }
  obtain ⟨st', hst', hw, hacks⟩ := hr.stream _ rfl
  refine ⟨_, _, st', hfetch, ⟨fun c' hc' => ?_, fun _ => by rw [hst']; exact Option.some_ne_none _⟩, hst', hr.events,
    hw, hacks.messages, hacks.maxAckPending, hacks.acked, hacks.of_acked⟩
  rw [hr.sub] at hc'
  rw [hr.nc, hnc]
  exact congrArg (fun c => some (c, true)) (Option.some.inj (hsub.symm.trans hc'))

theorem exists_returned (k : Nat) (h : s.Linked) {st : Stream} (hst : s.stream = some st) (hk : st.idle.length ≤ k)
    {p : Message × Nat} (hp : p ∈ st.deliverable) {data : Text} (hdata : p.1.data = some data) {limit : Int}
    (hlimit : 1 ≤ limit) : ∃ n, ⟨p.2, p.1.subject, Json.loads data⟩ ∈ returnedBy limit n s := by
  induction k generalizing s st with
  | zero =>
    have hidle := mem_of_mem_filter hp
    rw [length_eq_zero_iff.mp (Nat.le_zero.mp hk)] at hidle
    exact absurd hidle not_mem_nil
  | succ k ih =>
    obtain ⟨events, s', st', hfetch, hlinked, hst', hevents, hwaiting, hacks⟩ := fetchPending_spec h hst hlimit
    by_cases hbatch : p.2 ∈ (st.deliverable.take limit.toNat).map Prod.snd
    · -- A number names one message.
      obtain ⟨q, hq, heq⟩ := mem_map.mp hbatch
      have hnodup : ((st.messages.zipIdx 1).map Prod.snd).Nodup := by
        rw [zipIdx_map_snd]
        exact nodup_range'
      have hqp : q = p := inj_on_of_nodup_map hnodup (mem_of_mem_filter (mem_of_mem_filter (mem_of_mem_take hq)))
        (mem_of_mem_filter (mem_of_mem_filter hp)) heq
      refine ⟨1, ?_⟩
      rw [returnedBy, hfetch]
      exact mem_append_left _ (hevents p (hqp ▸ hq) data hdata)
    · have hrest := hacks.idle hwaiting
      have hp' : p ∈ st'.deliverable := by
        rw [Stream.deliverable, hrest, mem_filter, mem_filter]
        exact ⟨⟨mem_of_mem_filter hp, decide_eq_true hbatch⟩, hacks.hasRoom (mem_filter.mp hp).2⟩
      have hlt : st'.idle.length < st.idle.length := by
        rw [hrest, length_filter_lt_length_iff_exists]
        obtain ⟨q, qs, hqs⟩ := exists_cons_of_ne_nil (ne_nil_of_mem hp)
        refine ⟨q, mem_of_mem_filter (hqs ▸ mem_cons_self), ?_⟩
        have hpos : limit.toNat = (limit.toNat - 1) + 1 := by omega
        rw [decide_eq_true_iff, not_not, hqs, hpos, take_succ_cons]
        exact mem_cons_self
      obtain ⟨n, hn⟩ := ih hlinked hst' (by omega) hp'
      refine ⟨n + 1, ?_⟩
      rw [returnedBy, hfetch]
      exact mem_append_right _ hn

def messages (s : EventBuffer) : List Message := (s.stream.map Stream.messages).getD []

theorem delivers_of_linked (h : s.Linked) {m : Message} {seq : Nat} {data : Text} (hm : (m, seq) ∈ s.messages.zipIdx 1)
    (hdata : m.data = some data) : s.Delivers ⟨seq, m.subject, Json.loads data⟩ := by
  cases hst : s.stream with
  | none =>
    rw [messages, hst] at hm
    cases hm
  | some st =>
    rw [messages, hst] at hm
    refine ⟨st, hst, fun hacked hroom limit hlimit => ?_⟩
    have hst' : s.ackWait.stream = some { st with waiting := [] } := by rw [ackWait, hst]; rfl
    have hlinked : s.ackWait.Linked := ⟨h.up, fun _ => by rw [hst']; exact Option.some_ne_none _⟩
    have hp : (m, seq) ∈ ({ st with waiting := [] } : Stream).deliverable :=
      mem_filter.mpr ⟨mem_filter.mpr ⟨hm, decide_eq_true ⟨hacked, not_mem_nil⟩⟩, hroom⟩
    exact exists_returned _ hlinked hst' le_rfl hp hdata hlimit

/-! ## Runs -/

/-- JSON is published under a well-formed suffix, and no connection is lost after a subscription. -/
def Safe (reprFloat : Rat → String) (s : EventBuffer) : Move → Prop
  | .publish event subject now => (Json.dumps? reprFloat (stamped event now)).isSome = true ∧ wellFormed subject = true
  | .lose => s.sub = none
  | _ => True

instance (reprFloat : Rat → String) (s : EventBuffer) : ∀ m, Decidable (s.Safe reprFloat m)
  | .publish .. => inferInstanceAs (Decidable (_ ∧ _))
  | .lose => inferInstanceAs (Decidable (_ = _))
  | .fetchPending _ | .ack _ | .ackWait | .close => isTrue trivial

theorem Linked.of_eq (h : s.Linked) {s' : EventBuffer} (hsub : s'.sub = s.sub) (hnc : s'.nc = s.nc)
    (hst : s.stream ≠ none → s'.stream ≠ none) : s'.Linked :=
  ⟨fun c hc => hnc ▸ h.up c (hsub ▸ hc), fun hne => hst (h.stream (hsub ▸ hne))⟩

theorem Linked.ensureConnection (h : s.Linked) : s.ensureConnection.Linked := by
  unfold EventBuffer.ensureConnection
  split
  · exact h
  · next hdown =>
    have hsub : s.sub = none := by
      cases hs : s.sub with
      | none => rfl
      | some c => exact absurd (h.up c hs) (hdown c)
    exact ⟨fun c hc => absurd (hsub.symm.trans hc) (Option.some_ne_none c).symm, fun hne => absurd hsub hne⟩

theorem Linked.ensureStream (h : s.Linked) : s.ensureStream.Linked ∧ s.ensureStream.stream ≠ none := by
  unfold EventBuffer.ensureStream
  split
  · next st hst => exact ⟨h, by rw [hst]; exact Option.some_ne_none _⟩
  · exact ⟨h.of_eq rfl rfl fun _ => Option.some_ne_none _, Option.some_ne_none _⟩

theorem messages_ensure (s : EventBuffer) : s.ensureConnection.ensureStream.messages = s.messages := by
  have hconnection : s.ensureConnection.messages = s.messages := by
    unfold EventBuffer.ensureConnection
    split <;> rfl
  rw [← hconnection]
  unfold EventBuffer.ensureStream
  split
  · rfl
  · next hnone => rw [messages, messages, hnone]; rfl

theorem Linked.ensureSubscription (h : s.Linked) :
    s.ensureSubscription.Linked ∧ s.ensureSubscription.messages = s.messages := by
  unfold EventBuffer.ensureSubscription
  split
  · exact ⟨h, rfl⟩
  · obtain ⟨c, hc⟩ := ensureConnection_up s
    have hnc : s.ensureConnection.ensureStream.nc = some (c, true) := by
      unfold EventBuffer.ensureStream
      split <;> exact hc
    refine ⟨⟨fun c' hc' => ?_, fun _ => h.ensureConnection.ensureStream.2⟩, messages_ensure s⟩
    simp only [hnc, Option.map_some, Option.some.injEq] at hc'
    rw [← hc']
    exact hnc

theorem Linked.fetchPending (h : s.Linked) {limit : Int} {events : List PendingEvent} {s' : EventBuffer}
    (hf : s.fetchPending limit = some (events, s')) : s'.Linked ∧ s'.messages = s.messages := by
  obtain ⟨hlinked, hmessages⟩ := h.ensureSubscription
  unfold EventBuffer.fetchPending at hf
  dsimp only at hf
  split at hf
  · cases hf
  · split at hf
    · next c st hsub hst =>
      split at hf
      · have hr := receive_spec c (st.deliver limit.toNat).1
          { s.ensureSubscription with stream := some (st.deliver limit.toNat).2 }
        rw [Option.some.inj hf] at hr
        obtain ⟨st', hst', -, hacks⟩ := hr.stream _ rfl
        refine ⟨hlinked.of_eq hr.sub hr.nc fun _ => by rw [hst']; exact Option.some_ne_none _, ?_⟩
        rw [← hmessages, messages, messages, hst', hst]
        exact hacks.messages
      · cases hf
        exact ⟨hlinked, hmessages⟩
    · cases hf
      exact ⟨hlinked, hmessages⟩

theorem publish_safe {event : Dict String Obj} {subject : Option String} {now : Rat}
    (hsafe : s.Safe reprFloat (.publish event subject now)) (h : s.Linked) :
    (s.publish reprFloat event subject now).1 = true ∧ (s.publish reprFloat event subject now).2.Linked ∧
      ∃ data, Json.dumps? reprFloat (stamped event now) = some data ∧
        (s.publish reprFloat event subject now).2.messages = s.messages ++ [⟨target subject, some data⟩] := by
  obtain ⟨data, hdata⟩ := Option.isSome_iff_exists.mp hsafe.1
  obtain ⟨hlinked, hstream⟩ := h.ensureConnection.ensureStream
  obtain ⟨st, hst⟩ := Option.ne_none_iff_exists'.mp hstream
  have hmessages := messages_ensure s
  have hpub : s.publish reprFloat event subject now = (true, { s.ensureConnection.ensureStream with
      stream := some { st with messages := st.messages ++ [⟨target subject, some data⟩] } }) := by
    rw [publish, hdata]
    simp only [hst, Option.map_some]
    exact if_pos ((matches_target_iff subject).mpr hsafe.2)
  rw [messages, hst] at hmessages
  rw [hpub, ← hmessages]
  exact ⟨rfl, hlinked.of_eq rfl rfl fun _ => Option.some_ne_none _, data, hdata, rfl⟩

theorem Linked.step (h : s.Linked) (m : Move) (hsafe : s.Safe reprFloat m) :
    (s.step reprFloat m).Linked ∧ s.messages <+: (s.step reprFloat m).messages := by
  have hmap (f : Stream → Stream) (hf : ∀ st, (f st).messages = st.messages) :
      ({ s with stream := s.stream.map f } : EventBuffer).messages = s.messages := by
    cases hst : s.stream with
    | none => rw [messages, messages, hst]; rfl
    | some st => rw [messages, messages, hst]; exact hf st
  cases m with
  | publish event subject now =>
    obtain ⟨-, hlinked, data, -, hmessages⟩ := publish_safe hsafe h
    exact ⟨hlinked, _, hmessages.symm⟩
  | fetchPending limit =>
    rw [EventBuffer.step]
    cases hf : s.fetchPending limit with
    | none => exact ⟨h, prefix_rfl⟩
    | some r => exact ⟨(h.fetchPending hf).1, (h.fetchPending hf).2 ▸ prefix_rfl⟩
  | ack seq =>
    rw [EventBuffer.step, EventBuffer.ack]
    split
    · exact ⟨h, prefix_rfl⟩
    · split
      · exact ⟨h.of_eq rfl rfl fun hne hnone => hne (Option.map_eq_none_iff.mp hnone),
          (hmap (·.ack seq) fun _ => rfl) ▸ prefix_rfl⟩
      · exact ⟨h, prefix_rfl⟩
  | lose =>
    exact ⟨⟨fun c hc => (by rw [EventBuffer.step, hsafe] at hc; cases hc), fun hne => absurd hsafe hne⟩, prefix_rfl⟩
  | ackWait =>
    exact ⟨h.of_eq rfl rfl fun hne hnone => hne (Option.map_eq_none_iff.mp hnone),
      (hmap ({ · with waiting := [] }) fun _ => rfl) ▸ prefix_rfl⟩
  | close => exact ⟨⟨fun c hc => (by cases hc), fun hne => absurd rfl hne⟩, prefix_rfl⟩

/-- In a safe run every event is taken, and delivered under its number, with its subject and its payload. -/
theorem published_and_delivered (reprFloat : Rat → String) (stream : Option Stream) (moves : List Move)
    (h : Runs.Meets (step reprFloat) (Safe reprFloat) (new stream) moves) (before : List Move)
    (event : Dict String Obj) (subject : Option String) (now : Rat) (after : List Move)
    (hmoves : moves = before ++ .publish event subject now :: after) :
    ((Runs.run (step reprFloat) (new stream) before).publish reprFloat event subject now).1 = true ∧
      ∃ payload, Json.image reprFloat (stamped event now) = some payload ∧
        (Runs.run (step reprFloat) (new stream) moves).Delivers
          ⟨(Runs.run (step reprFloat) (new stream) before).messages.length + 1, target subject, payload⟩ := by
  subst hmoves
  obtain ⟨hbefore, hsafe, hafter⟩ := Runs.meets_append.mp h
  have hnew : (new stream).Linked := ⟨fun c hc => (nomatch hc), fun hne => absurd rfl hne⟩
  have hlinked := @Runs.run_invariant _ _ (step reprFloat) (Safe reprFloat) before _ Linked
    (fun s m hs hm => (hs.step m hm).1) hnew hbefore
  have hrun : Runs.run (step reprFloat) (new stream) (before ++ .publish event subject now :: after) =
      Runs.run (step reprFloat) ((Runs.run (step reprFloat) (new stream) before).publish reprFloat event subject now).2
        after := foldl_append
  rw [hrun]
  generalize Runs.run (step reprFloat) (new stream) before = s at hsafe hafter hlinked ⊢
  obtain ⟨htrue, hpublished, data, hdata, hmessages⟩ := publish_safe hsafe hlinked
  obtain ⟨hend, later, hlater⟩ := @Runs.run_invariant _ _ (step reprFloat) (Safe reprFloat) after _
    (fun s' => s'.Linked ∧ (s.publish reprFloat event subject now).2.messages <+: s'.messages)
    (fun s' m hs' hm => ⟨(hs'.1.step m hm).1, hs'.2.trans (hs'.1.step m hm).2⟩) ⟨hpublished, prefix_rfl⟩ hafter
  refine ⟨htrue, Json.loads data, by rw [Json.image, hdata]; rfl, ?_⟩
  refine delivers_of_linked hend (m := ⟨target subject, some data⟩) ?_ rfl
  rw [mk_mem_zipIdx_iff_le_and_getElem?_sub, ← hlater, hmessages]
  simp

def noRepr : Rat → String := fun _ => ""

def event : Dict String Obj := (∅ : Dict String Obj).set "kind" (.str "started")

theorem published_and_delivered_one_event :
    Runs.Meets (step noRepr) (Safe noRepr) (new none) [.publish event (some "step.a") 0, .fetchPending 10] ∧
      ∃ payload, Json.image noRepr (stamped event 0) = some payload ∧
        (Runs.run (step noRepr) (new none) [.publish event (some "step.a") 0, .fetchPending 10]).Delivers
          ⟨1, "teststation.events.step.a", payload⟩ :=
  ⟨by decide, (published_and_delivered noRepr none [.publish event (some "step.a") 0, .fetchPending 10] (by decide) []
    event (some "step.a") 0 [.fetchPending 10] rfl).2⟩

theorem returnedBy_stale {c : Nat} (hsub : s.sub = some c) (hup : s.isUp c = false) (limit : Int) (n : Nat) :
    returnedBy limit n s = [] := by
  have hens : s.ensureSubscription = s := by rw [EventBuffer.ensureSubscription, hsub]
  have hfetch : s.fetchPending limit = none ∨ s.fetchPending limit = some ([], s) := by
    rw [EventBuffer.fetchPending]
    simp only [hens, hsub]
    split
    · exact .inl rfl
    · cases s.stream with
      | none => exact .inr rfl
      | some st => simp [hup]
  induction n with
  | zero => rfl
  | succ n ih =>
    rw [returnedBy]
    rcases hfetch with h | h
    · rw [h]
    · rw [h]
      exact ih

/-- The subscription is still on the lost connection. -/
def reconnected : EventBuffer :=
  Runs.run (step noRepr) (new none)
    [.publish event (some "step.a") 0, .fetchPending 1, .lose, .publish event (some "step.b") 1]

theorem not_delivers_reconnected : ((new none).publish noRepr event none 0).1 = false ∧
    ∀ payload, ¬ reconnected.Delivers ⟨2, "teststation.events.step.b", payload⟩ := by
  refine ⟨by decide, fun payload h => ?_⟩
  have hopen : ∃ st, reconnected.stream = some st ∧ 2 ∉ st.acked ∧ st.hasRoom 2 = true :=
    ⟨_, rfl, by decide, by decide⟩
  obtain ⟨st, hst, hacked, hroom⟩ := hopen
  obtain ⟨_, hst', hdelivers⟩ := h
  cases hst.symm.trans hst'
  obtain ⟨n, hn⟩ := hdelivers hacked hroom 1 (by decide)
  rw [returnedBy_stale (c := 0) (by decide) (by decide)] at hn
  exact absurd hn List.not_mem_nil

end EventBuffer

end AteStudio.Offline.Buffer
