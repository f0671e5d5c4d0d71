import AteStudio.Lib.Dict
import AteStudio.Lib.Runs

/-!
# The clients of one event queue

Every client of a run reads from one queue. In NATS mode a published event also comes back through the subscription.
-/

namespace AteStudio.Sse

open List Option Runs Dict

structure Event (δ : Type) where
  number : Nat
  content : δ
deriving DecidableEq

structure Client (δ : Type) where
  -- What `queue.get()` has returned and the stream has not sent yet.
  held : Option (Event δ) := none
  sent : List (Event δ) := []
deriving DecidableEq

inductive Role where
  | current
  | closing
  | orphaned
deriving DecidableEq

structure Subscription (δ : Type) where
  pending : List (Event δ)
  role : Role
deriving DecidableEq

/-- The bridge, as far as it concerns one run, and the clients of that run. -/
structure Bridge (δ : Type) where
  counter : Nat
  queue : Option (List (Event δ))
  -- Calls of `queue.get()` that disconnected clients have left behind.
  abandoned : Nat
  refcount : Nat
  clients : Dict Nat (Client δ)
  starting : Nat
  subscriptions : List (Subscription δ)
  published : List (Event δ)

variable {δ : Type}

namespace Bridge

def empty : Bridge δ where
  counter := 0
  queue := none
  abandoned := 0
  refcount := 0
  clients := ∅
  starting := 0
  subscriptions := []
  published := []

def maxsize : Nat := 1000

def putNowait (queue : List (Event δ)) (event : Event δ) : List (Event δ) :=
  if queue.length < maxsize then queue ++ [event] else queue.tail ++ [event]

end Bridge

inductive Move (δ : Type) where
  | connect (client : Nat)
  -- Waiting for the queue or the heartbeat, or elsewhere.
  | disconnect (client : Nat) (waiting : Bool)
  | subscribed
  | subscribeFailed
  | unsubscribed (k : Nat)
  -- In NATS mode `stored` says whether `js.publish` succeeds.
  | publish (content : δ) (stored : Bool)
  | publishOther
  | deliver (k : Nat)
  | take (client : Nat)
  | send (client : Nat)
  | keepAlive (client : Nat)
  | swallow

section Code

variable (nats : Bool)

def Subscription.orphan (sub : Subscription δ) : Subscription δ :=
  if sub.role = .current then { sub with role := .orphaned } else sub

def Subscription.close (sub : Subscription δ) : Subscription δ :=
  if sub.role = .current then { sub with role := .closing } else sub

namespace Bridge

variable (s : Bridge δ) (client : Nat)

/-- `get_or_create_queue`, and `start_subscription` up to the call of the server -/
def connect : Bridge δ :=
  { s with
    queue := some (s.queue.getD [])
    refcount := (if s.queue.isSome then s.refcount else 0) + 1
    clients := s.clients.set client {}
    starting := if nats && !s.subscriptions.any (·.role = .current) then s.starting + 1 else s.starting }

/-- In local mode only the heartbeat is cancelled, and `queue.get()` goes on waiting. -/
def disconnect (waiting : Bool) : Bridge δ :=
  let leaves := !nats && waiting && (s.clients.get? client).any (·.held.isNone)
  let s := { s with
    clients := s.clients.erase client
    abandoned := if leaves then s.abandoned + 1 else s.abandoned }
  if s.refcount = 0 then s
  else if s.refcount = 1 then
    { s with queue := none, abandoned := 0, refcount := 0, subscriptions := s.subscriptions.map Subscription.close }
  else { s with refcount := s.refcount - 1 }

def publish (content : δ) (stored : Bool) : Bridge δ :=
  let event := { number := s.counter + 1, content }
  { s with
    counter := s.counter + 1
    queue := some (putNowait (s.queue.getD []) event)
    refcount := if s.queue.isSome then s.refcount else 0
    subscriptions := if nats && stored then
        s.subscriptions.map fun sub => { sub with pending := sub.pending ++ [event] }
      else s.subscriptions
    published := s.published ++ [event] }

/-- The callback of a subscription. It waits for room in the queue. -/
def deliver (k : Nat) : Bridge δ :=
  match s.subscriptions[k]? with
  | some ⟨event :: rest, role⟩ =>
    match s.queue with
    | none => { s with subscriptions := s.subscriptions.set k ⟨rest, role⟩ }
    | some queue =>
      if queue.length < maxsize then
        { s with queue := some (queue ++ [event]), subscriptions := s.subscriptions.set k ⟨rest, role⟩ }
      else s
  | _ => s

def take : Bridge δ :=
  match s.clients.get? client, s.queue with
  | some ⟨none, sent⟩, some (event :: queue) =>
    { s with queue := some queue, clients := s.clients.set client ⟨some event, sent⟩ }
  | _, _ => s

def send : Bridge δ :=
  match s.clients.get? client with
  | some ⟨some event, sent⟩ => { s with clients := s.clients.set client ⟨none, sent ++ [event]⟩ }
  | _ => s

/-- In local mode a heartbeat wins over `queue.get()`, and the event is lost. -/
def keepAlive : Bridge δ :=
  if nats then s
  else match s.clients.get? client with
    | some ⟨_, sent⟩ => { s with clients := s.clients.set client ⟨none, sent⟩ }
    | none => s

def swallow : Bridge δ :=
  match s.abandoned, s.queue with
  | abandoned + 1, some (_ :: queue) => { s with abandoned, queue := some queue }
  | _, _ => s

def step : Move δ → Bridge δ
  | .connect client => if (s.clients.get? client).isSome then s else s.connect nats client
  | .disconnect client waiting => if (s.clients.get? client).isSome then s.disconnect nats client waiting else s
  | .subscribed =>
    if s.starting = 0 then s
    else { s with
      starting := s.starting - 1
      subscriptions := s.subscriptions.map Subscription.orphan ++ [⟨[], .current⟩] }
  | .subscribeFailed => { s with starting := s.starting - 1 }
  | .unsubscribed k =>
    match s.subscriptions[k]? with
    | some ⟨_, .closing⟩ => { s with subscriptions := s.subscriptions.eraseIdx k }
    | _ => s
  | .publish content stored => s.publish nats content stored
  | .publishOther => { s with counter := s.counter + 1 }
  | .deliver k => s.deliver k
  | .take client => s.take client
  | .send client => s.send client
  | .keepAlive client => s.keepAlive nats client
  | .swallow => s.swallow

end Bridge

end Code

/-! ## What is asked of it -/

section Spec

variable (nats : Bool)

def since (n : Nat) (events : List (Event δ)) : List (Event δ) := events.filter (n < ·.number)

def Bridge.clientSent (s : Bridge δ) (client : Nat) : List (Event δ) := ((s.clients.get? client).getD {}).sent

def Bridge.waiting (s : Bridge δ) (client : Nat) : List (Event δ) :=
  ((s.clients.get? client).getD {}).held.toList ++ s.queue.getD []

/-- No other client reads from the queue, and none that has gone does. -/
def Bridge.Only (s : Bridge δ) (client : Nat) : Prop := s.clients.keys = [client] ∧ s.abandoned = 0

/-- The client stays the only one, no queue is full, no event comes back, and no heartbeat meets one. -/
def Undisturbed (client : Nat) (s : Bridge δ) : Move δ → Prop
  | .connect _ => False
  | .disconnect other _ => other ≠ client
  | .publish _ stored => (s.queue.getD []).length < Bridge.maxsize ∧ (nats = true → stored = true → s.subscriptions = [])
  | .keepAlive other => nats = true ∨ ∀ c ∈ s.clients.get? other, c.held = none
  | _ => True

instance [DecidableEq δ] (client : Nat) (s : Bridge δ) : (m : Move δ) → Decidable (Undisturbed nats client s m)
  | .connect _ => isFalse id
  | .disconnect other _ => inferInstanceAs (Decidable (other ≠ client))
  | .publish _ _ => inferInstanceAs (Decidable (_ ∧ _))
  | .keepAlive other => inferInstanceAs (Decidable (_ ∨ ∀ c ∈ s.clients.get? other, _))
  | .subscribed => isTrue trivial
  | .subscribeFailed => isTrue trivial
  | .unsubscribed _ => isTrue trivial
  | .publishOther => isTrue trivial
  | .deliver _ => isTrue trivial
  | .take _ => isTrue trivial
  | .send _ => isTrue trivial
  | .swallow => isTrue trivial

end Spec

/-! ## Where the events are -/

structure Bridge.Each (p : Event δ → Prop) (s : Bridge δ) : Prop where
  queue : ∀ event ∈ s.queue.getD [], p event
  held : ∀ client c, s.clients.get? client = some c → ∀ event ∈ c.held, p event
  sent : ∀ client c, s.clients.get? client = some c → ∀ event ∈ c.sent, p event
  pending : ∀ sub ∈ s.subscriptions, ∀ event ∈ sub.pending, p event
  published : ∀ event ∈ s.published, p event

open Bridge

section Each

variable {p : Event δ → Prop} {nats : Bool} {s : Bridge δ}

theorem putNowait_subset {queue : List (Event δ)} {event e : Event δ} (h : e ∈ putNowait queue event) :
    e ∈ queue ∨ e = event := by
  unfold putNowait at h
  split at h
  · simpa using h
  · rcases mem_append.mp h with h | h
    · exact .inl (mem_of_mem_tail h)
    · exact .inr (mem_singleton.mp h)

theorem pending_orphan (sub : Subscription δ) : sub.orphan.pending = sub.pending := by
  unfold Subscription.orphan
  split <;> rfl

theorem pending_close (sub : Subscription δ) : sub.close.pending = sub.pending := by
  unfold Subscription.close
  split <;> rfl

section

variable {subs : List (Subscription δ)} (h : ∀ sub ∈ subs, ∀ e ∈ sub.pending, p e)

include h

theorem pending_set {k : Nat} {event : Event δ} {rest : List (Event δ)} {role : Role}
    (hsub : subs[k]? = some ⟨event :: rest, role⟩) : ∀ sub ∈ subs.set k ⟨rest, role⟩, ∀ e ∈ sub.pending, p e := by
  intro sub hmem e he
  rcases mem_or_eq_of_mem_set hmem with hold | rfl
  · exact h sub hold e he
  · exact h _ (mem_of_getElem? hsub) e (mem_cons_of_mem event he)

theorem pending_map {f : Subscription δ → Subscription δ} (hf : ∀ sub, (f sub).pending = sub.pending) :
    ∀ sub ∈ subs.map f, ∀ e ∈ sub.pending, p e := by
  simpa only [List.forall_mem_map, hf] using h

theorem pending_subscribed : ∀ sub ∈ subs.map Subscription.orphan ++ [⟨[], .current⟩], ∀ e ∈ sub.pending, p e :=
  forall_mem_append.mpr ⟨pending_map h pending_orphan, forall_mem_singleton.mpr fun _ => (nomatch ·)⟩

end

section

variable (h : s.Each p)

include h

variable (client : Nat)

theorem Bridge.Each.setClient (c : Client δ) (hheld : ∀ event ∈ c.held, p event)
    (hsent : ∀ event ∈ c.sent, p event) : Each p { s with clients := s.clients.set client c } := by
  refine { h with held := fun other c' hc' => ?_, sent := fun other c' hc' => ?_ }
  all_goals
    rw [get?_set] at hc'
    split at hc'
    · cases hc'
      assumption
  · exact h.held other c' hc'
  · exact h.sent other c' hc'

theorem Bridge.Each.deliver (k : Nat) : (s.deliver k).Each p := by
  unfold Bridge.deliver
  split
  · next event rest role hsub =>
    have hpending := h.pending _ (mem_of_getElem? hsub)
    have hrest := pending_set h.pending hsub
    split
    · exact { h with pending := hrest }
    · next queue hqueue =>
      split
      · refine { h with pending := hrest, queue := fun e he => ?_ }
        rcases mem_append.mp he with he | he
        · exact h.queue e (by rw [hqueue]; exact he)
        · obtain rfl := mem_singleton.mp he
          exact hpending e mem_cons_self
      · exact h
  · exact h

theorem Bridge.Each.take : (s.take client).Each p := by
  unfold Bridge.take
  split
  · next sent event queue hclient hqueue =>
    have hall : ∀ e ∈ event :: queue, p e := fun e he => h.queue e (by rw [hqueue]; exact he)
    have hsent := h.sent client _ hclient
    have hset := h.setClient client ⟨some event, sent⟩
      (fun e he => by cases he; exact hall event mem_cons_self) hsent
    exact { hset with queue := fun e he => hall e (mem_cons_of_mem event he) }
  · exact h

theorem Bridge.Each.send : (s.send client).Each p := by
  unfold Bridge.send
  split
  · next event sent hclient =>
    have hheld := h.held client _ hclient
    have hsent := h.sent client _ hclient
    refine h.setClient client ⟨none, sent ++ [event]⟩ (fun _ => (nomatch ·)) fun e he => ?_
    rcases mem_append.mp he with he | he
    · exact hsent e he
    · obtain rfl := mem_singleton.mp he
      exact hheld e rfl
  · exact h

theorem Bridge.Each.keepAlive : (s.keepAlive nats client).Each p := by
  unfold Bridge.keepAlive
  split
  · exact h
  · split
    · next held sent hclient =>
      have hsent := h.sent client _ hclient
      exact h.setClient client ⟨none, sent⟩ (by simp) hsent
    · exact h

theorem Bridge.Each.connect : (s.connect nats client).Each p := by
  have hset := h.setClient client {} (fun _ => (nomatch ·)) (fun _ => (nomatch ·))
  exact { hset with }

end

theorem Bridge.Each.disconnect (h : s.Each p) (client : Nat) (waiting : Bool) :
    (s.disconnect nats client waiting).Each p := by
  have herase : Bridge.Each p { s with clients := s.clients.erase client } := by
    refine { h with held := fun other c hc => ?_, sent := fun other c hc => ?_ }
    all_goals
      rw [get?_erase] at hc
      split at hc
      · cases hc
    · exact h.held other c hc
    · exact h.sent other c hc
  unfold Bridge.disconnect
  dsimp only
  split
  · exact { herase with }
  · split
    · exact { herase with queue := by simp, pending := pending_map h.pending pending_close }
    · exact { herase with }

theorem Bridge.Each.publish (h : s.Each p) {content : δ} (hnew : p { number := s.counter + 1, content })
    (stored : Bool) : (s.publish nats content stored).Each p := by
  refine { h with queue := fun e he => ?_, pending := ?_, published := fun e he => ?_ }
  · rcases putNowait_subset he with he | rfl
    · exact h.queue e he
    · exact hnew
  · unfold Bridge.publish
    dsimp only
    split
    · intro sub hsub e he
      obtain ⟨sub', hsub', rfl⟩ := mem_map.mp hsub
      rcases mem_append.mp he with he | he
      · exact h.pending sub' hsub' e he
      · obtain rfl := mem_singleton.mp he
        exact hnew
    · exact h.pending
  · rcases mem_append.mp he with he | he
    · exact h.published e he
    · obtain rfl := mem_singleton.mp he
      exact hnew

theorem Bridge.Each.step (h : s.Each p) {m : Move δ}
    (hnew : ∀ content stored, m = .publish content stored → p { number := s.counter + 1, content }) :
    (s.step nats m).Each p := by
  cases m with
  | connect client =>
    dsimp only [Bridge.step]
    split
    · exact h
    · exact h.connect client
  | disconnect client waiting =>
    dsimp only [Bridge.step]
    split
    · exact h.disconnect client waiting
    · exact h
  | subscribed =>
    dsimp only [Bridge.step]
    split
    · exact h
    · exact { h with pending := pending_subscribed h.pending }
  | subscribeFailed => exact { h with }
  | unsubscribed k =>
    dsimp only [Bridge.step]
    split
    · exact { h with pending := fun sub hsub => h.pending sub (mem_of_mem_eraseIdx hsub) }
    · exact h
  | publish content stored => exact h.publish (hnew content stored rfl) stored
  | publishOther => exact { h with }
  | deliver k => exact h.deliver k
  | take client => exact h.take client
  | send client => exact h.send client
  | keepAlive client => exact h.keepAlive client
  | swallow =>
    dsimp only [Bridge.step, Bridge.swallow]
    split
    · next hqueue => exact { h with queue := fun e he => h.queue e (by rw [hqueue]; exact mem_cons_of_mem _ he) }
    · exact h

end Each

/-! ## Every run -/

section Runs

variable {nats : Bool} {s : Bridge δ} {m : Move δ}

theorem Bridge.Each.mono {p q : Event δ → Prop} (h : s.Each p) (hpq : ∀ event, p event → q event) : s.Each q where
  queue event hevent := hpq event (h.queue event hevent)
  held client c hc event hevent := hpq event (h.held client c hc event hevent)
  sent client c hc event hevent := hpq event (h.sent client c hc event hevent)
  pending sub hsub event hevent := hpq event (h.pending sub hsub event hevent)
  published event hevent := hpq event (h.published event hevent)

theorem counter_step (s : Bridge δ) (m : Move δ) : (s.step nats m).counter = s.counter ∨
    (s.step nats m).counter = s.counter + 1 ∧ (m = .publishOther ∨ ∃ content stored, m = .publish content stored) := by
  cases m with
  | publish content stored => exact .inr ⟨rfl, .inr ⟨content, stored, rfl⟩⟩
  | publishOther => exact .inr ⟨rfl, .inl rfl⟩
  | subscribeFailed => exact .inl rfl
  | _ =>
    refine .inl ?_
    simp only [Bridge.step, Bridge.connect, Bridge.disconnect, Bridge.deliver, Bridge.take, Bridge.send,
      Bridge.keepAlive, Bridge.swallow]
    grind

def Bridge.Numbered (s : Bridge δ) : Prop := s.Each (·.number ≤ s.counter)

theorem numbered_step (h : s.Numbered) : (s.step nats m).Numbered := by
  have hle : s.counter ≤ (s.step nats m).counter := by
    rcases @counter_step _ nats s m with hsame | ⟨hnext, _⟩ <;> omega
  apply Each.step (h.mono fun event hevent => Nat.le_trans hevent hle)
  rintro content stored rfl
  exact Nat.le_refl _

structure Bridge.Counted (s : Bridge δ) : Prop where
  refcount : s.refcount = s.clients.keys.length
  queue : s.clients.keys ≠ [] → s.queue.isSome

theorem Bridge.Counted.of_keys {s' : Bridge δ} (h : s.Counted) (hkeys : s'.clients.keys = s.clients.keys)
    (hrefcount : s'.refcount = s.refcount) (hqueue : s.queue.isSome → s'.queue.isSome) : s'.Counted where
  refcount := by rw [hrefcount, hkeys, h.refcount]
  queue := by
    rw [hkeys]
    exact fun hne => hqueue (h.queue hne)

theorem counted_publish (h : s.Counted) (content : δ) (stored : Bool) : (s.publish nats content stored).Counted := by
  refine ⟨?_, fun _ => rfl⟩
  change (if s.queue.isSome then s.refcount else 0) = s.clients.keys.length
  split
  · exact h.refcount
  · next hqueue =>
    by_contra hlength
    exact hqueue (h.queue fun hnil => hlength (by rw [hnil]; rfl))

theorem counted_connect (h : s.Counted) {client : Nat} (hnew : (s.clients.get? client).isSome = false) :
    (s.connect nats client).Counted := by
  have hkeys : (s.connect nats client).clients.keys = s.clients.keys ++ [client] := by
    change (s.clients.set client {}).keys = _
    rw [keys_set, if_neg]
    rw [← get?_eq_none_iff]
    simpa using hnew
  refine ⟨?_, fun _ => rfl⟩
  rw [hkeys, length_append, length_singleton]
  change (if s.queue.isSome then s.refcount else 0) + 1 = _
  split
  · rw [h.refcount]
  · next hqueue =>
    have hnil : s.clients.keys = [] := by
      by_contra hne
      exact hqueue (h.queue hne)
    rw [hnil]
    rfl

theorem counted_disconnect (h : s.Counted) {client : Nat} (hclient : (s.clients.get? client).isSome) (waiting : Bool) :
    (s.disconnect nats client waiting).Counted := by
  obtain ⟨c, hc⟩ := isSome_iff_exists.mp hclient
  have hmem : client ∈ s.clients.keys := (mem_keys_iff _ _).mpr ⟨c, hc⟩
  have hlength : (s.clients.erase client).keys.length = s.refcount - 1 := by
    rw [keys_erase, length_erase_of_mem hmem, h.refcount]
  unfold disconnect
  dsimp only
  split
  · next hzero =>
    rw [h.refcount] at hzero
    rw [length_eq_zero_iff.mp hzero] at hmem
    cases hmem
  · split
    · next hone =>
      have hnil : (s.clients.erase client).keys = [] := by
        rw [← length_eq_zero_iff, hlength, hone]
      exact ⟨by rw [hnil]; rfl, fun hne => absurd hnil hne⟩
    · exact ⟨hlength.symm, fun _ => h.queue (ne_nil_of_mem hmem)⟩

theorem counted_step (h : s.Counted) : (s.step nats m).Counted := by
  cases m with
  | connect client =>
    dsimp only [Bridge.step]
    split
    · exact h
    · next hnew => exact counted_connect h (by simpa using hnew)
  | disconnect client waiting =>
    dsimp only [Bridge.step]
    split
    · next hclient => exact counted_disconnect h hclient waiting
    · exact h
  | subscribed =>
    dsimp only [Bridge.step]
    split
    · exact h
    · exact h.of_keys rfl rfl id
  | subscribeFailed => exact h.of_keys rfl rfl id
  | unsubscribed k =>
    dsimp only [Bridge.step]
    split
    · exact h.of_keys rfl rfl id
    · exact h
  | publish content stored => exact counted_publish h content stored
  | publishOther => exact h.of_keys rfl rfl id
  | deliver k =>
    dsimp only [Bridge.step, Bridge.deliver]
    split
    · split
      · exact h.of_keys rfl rfl id
      · split
        · exact h.of_keys rfl rfl fun _ => rfl
        · exact h
    · exact h
  | take client =>
    dsimp only [Bridge.step, Bridge.take]
    split
    · next hclient _ => exact h.of_keys (keys_set_of_get? hclient _) rfl fun _ => rfl
    · exact h
  | send client =>
    dsimp only [Bridge.step, Bridge.send]
    split
    · next hclient => exact h.of_keys (keys_set_of_get? hclient _) rfl id
    · exact h
  | keepAlive client =>
    dsimp only [Bridge.step, Bridge.keepAlive]
    split
    · exact h
    · split
      · next hclient => exact h.of_keys (keys_set_of_get? hclient _) rfl id
      · exact h
  | swallow =>
    dsimp only [Bridge.step, Bridge.swallow]
    split
    · exact h.of_keys rfl rfl fun _ => rfl
    · exact h

theorem numbered_empty : (empty : Bridge δ).Numbered :=
  ⟨fun _ => (nomatch ·), fun _ _ => (nomatch ·), fun _ _ => (nomatch ·), fun _ => (nomatch ·), fun _ => (nomatch ·)⟩

theorem counted_empty : (empty : Bridge δ).Counted := ⟨rfl, fun h => absurd rfl h⟩

theorem numbered_run (moves : List (Move δ)) : (run (step nats) .empty moves).Numbered :=
  run_always (fun _ _ => numbered_step) numbered_empty moves

theorem counted_run (moves : List (Move δ)) : (run (step nats) .empty moves).Counted :=
  run_always (fun _ _ => counted_step) counted_empty moves

end Runs

/-! ## A client that is alone -/

section Alone

variable {nats : Bool} {s : Bridge δ} {m : Move δ} {n client : Nat}

theorem since_append (n : Nat) (xs ys : List (Event δ)) : since n (xs ++ ys) = since n xs ++ since n ys :=
  filter_append ..

theorem since_singleton_of_le {event : Event δ} (h : event.number ≤ n) : since n [event] = [] := by
  simp only [since, filter_cons, filter_nil, decide_eq_true_eq]
  rw [if_neg (by omega)]

theorem since_singleton_of_lt {event : Event δ} (h : n < event.number) : since n [event] = [event] := by
  simp only [since, filter_cons, filter_nil, decide_eq_true_eq]
  rw [if_pos h]

theorem since_eq_nil {events : List (Event δ)} (h : ∀ event ∈ events, event.number ≤ n) : since n events = [] := by
  apply filter_eq_nil_iff.mpr
  intro event hevent
  have := h event hevent
  simp only [decide_eq_true_eq]
  omega

/-- Since `n` every event has been sent to the client or is on its way, in order and once. -/
structure Bridge.Exact (n client : Nat) (s : Bridge δ) : Prop where
  only : s.Only client
  balance : since n s.published = since n (s.clientSent client) ++ since n (s.waiting client)
  pending : ∀ sub ∈ s.subscriptions, ∀ event ∈ sub.pending, event.number ≤ n
  counter : n ≤ s.counter

theorem Bridge.Only.eq_of_get? (h : s.Only client) {other : Nat} {c : Client δ} (hc : s.clients.get? other = some c) :
    other = client := by
  have hmem : other ∈ s.clients.keys := (mem_keys_iff _ _).mpr ⟨c, hc⟩
  rw [h.1] at hmem
  exact mem_singleton.mp hmem

theorem Bridge.Only.get? (h : s.Only client) : ∃ c, s.clients.get? client = some c := by
  rw [← mem_keys_iff, h.1]
  exact mem_singleton_self client

theorem exact_of_numbered (h : s.Numbered) (honly : s.Only client) : s.Exact s.counter client where
  only := honly
  balance := by
    obtain ⟨c, hc⟩ := honly.get?
    rw [since_eq_nil h.published, clientSent, waiting, hc, since_append]
    dsimp only [getD_some]
    rw [since_eq_nil (h.sent client c hc), since_eq_nil h.queue, since_eq_nil]
    · rfl
    · exact fun event hevent => h.held client c hc event (mem_toList.mp hevent)
  pending := h.pending
  counter := Nat.le_refl _

section

variable (h : s.Exact n client)

include h

theorem exact_publish {content : δ} {stored : Bool} (hroom : (s.queue.getD []).length < maxsize)
    (hsubs : nats = true → stored = true → s.subscriptions = []) : (s.publish nats content stored).Exact n client where
  only := h.only
  balance := by
    have hnew : since n [(⟨s.counter + 1, content⟩ : Event δ)] = [⟨s.counter + 1, content⟩] :=
      since_singleton_of_lt (Nat.lt_succ_of_le h.counter)
    have hwaiting : (s.publish nats content stored).waiting client = s.waiting client ++ [⟨s.counter + 1, content⟩] := by
      simp only [waiting, publish, putNowait, if_pos hroom, getD_some, append_assoc]
    rw [hwaiting, since_append, hnew, ← append_assoc]
    change since n (s.published ++ [_]) = since n (s.clientSent client) ++ since n (s.waiting client) ++ _
    rw [since_append, hnew, h.balance]
  pending := by
    intro sub hsub
    unfold publish at hsub
    dsimp only at hsub
    split at hsub
    · next hboth =>
      obtain ⟨hnats, hstored⟩ := Bool.and_eq_true_iff.mp hboth
      rw [hsubs hnats hstored] at hsub
      cases hsub
    · exact h.pending sub hsub
  counter := Nat.le_succ_of_le h.counter

theorem exact_deliver (k : Nat) : (s.deliver k).Exact n client := by
  unfold deliver
  split
  · next event rest role hsub =>
    have hpending := h.pending _ (mem_of_getElem? hsub)
    have hrest := pending_set h.pending hsub
    split
    · exact { h with pending := hrest }
    · next queue hqueue =>
      split
      · refine { h with pending := hrest, balance := ?_ }
        have hbalance := h.balance
        simp only [waiting, hqueue, getD_some] at hbalance ⊢
        rw [← append_assoc, since_append, since_singleton_of_le (hpending event mem_cons_self), append_nil]
        exact hbalance
      · exact h
  · exact h

theorem exact_setClient {other : Nat} {c c' : Client δ} (hclient : s.clients.get? other = some c)
    {queue : Option (List (Event δ))} (hmoved : since n (c'.sent ++ (c'.held.toList ++ queue.getD [])) =
      since n (c.sent ++ (c.held.toList ++ s.queue.getD []))) :
    Exact n client { s with queue, clients := s.clients.set other c' } := by
  obtain rfl := h.only.eq_of_get? hclient
  refine { h with only := ⟨(keys_set_of_get? hclient _).trans h.only.1, h.only.2⟩, balance := ?_ }
  simp only [clientSent, waiting, get?_set_self, getD_some, ← since_append, hmoved]
  simpa only [clientSent, waiting, hclient, getD_some, ← since_append] using h.balance

theorem exact_take (other : Nat) : (s.take other).Exact n client := by
  unfold Bridge.take
  split
  · next sent event queue hclient hqueue => exact exact_setClient h hclient (by rw [hqueue]; rfl)
  · exact h

theorem exact_send (other : Nat) : (s.send other).Exact n client := by
  unfold send
  split
  · next event sent hclient => exact exact_setClient h hclient (by simp)
  · exact h

theorem exact_step (hm : Undisturbed nats client s m) : (s.step nats m).Exact n client := by
  cases m with
  | connect other => exact hm.elim
  | disconnect other waiting =>
    dsimp only [step]
    split
    · next hclient =>
      obtain ⟨c, hc⟩ := isSome_iff_exists.mp hclient
      exact absurd (h.only.eq_of_get? hc) hm
    · exact h
  | subscribed =>
    dsimp only [step]
    split
    · exact h
    · exact { h with pending := pending_subscribed h.pending }
  | subscribeFailed => exact { h with }
  | unsubscribed k =>
    dsimp only [step]
    split
    · exact { h with pending := fun sub hsub => h.pending sub (mem_of_mem_eraseIdx hsub) }
    · exact h
  | publish content stored => exact exact_publish h hm.1 hm.2
  | publishOther => exact { h with counter := Nat.le_succ_of_le h.counter }
  | deliver k => exact exact_deliver h k
  | take other => exact exact_take h other
  | send other => exact exact_send h other
  | keepAlive other =>
    dsimp only [step, keepAlive]
    split
    · exact h
    · next hlocal =>
      split
      · next held sent hclient =>
        have hheld : held = none := (hm.resolve_left hlocal) _ hclient
        exact exact_setClient h hclient (by rw [hheld])
      · exact h
  | swallow =>
    dsimp only [step, swallow]
    rw [h.only.2]
    exact h

end

/-! ### Reading on -/

def reads (client : Nat) (queue : List (Event δ)) : List (Move δ) :=
  .send client :: queue.flatMap fun _ => [.take client, .send client]

theorem run_takes {queue sent : List (Event δ)} (hclient : s.clients.get? client = some ⟨none, sent⟩)
    (hqueue : s.queue = some queue) :
    (run (Bridge.step nats) s (queue.flatMap fun _ => [.take client, .send client])).clientSent client =
      sent ++ queue := by
  induction queue generalizing s sent with
  | nil => simp [run, Bridge.clientSent, hclient]
  | cons event queue ih =>
    have hstep : (s.take client).send client =
        { s with
          queue := some queue
          clients := (s.clients.set client ⟨some event, sent⟩).set client ⟨none, sent ++ [event]⟩ } := by
      simp only [Bridge.take, hclient, hqueue, Bridge.send, get?_set_self]
    rw [flatMap_cons, run, foldl_append]
    change (run (Bridge.step nats) ((s.take client).send client) _).clientSent client = _
    rw [hstep, @ih _ (sent ++ [event]) (get?_set_self _ _ _) rfl, append_assoc]
    rfl

theorem run_reads {c : Client δ} {queue : List (Event δ)} (hclient : s.clients.get? client = some c)
    (hqueue : s.queue = some queue) :
    (run (step nats) s (reads client queue)).clientSent client = s.clientSent client ++ s.waiting client := by
  obtain ⟨held, sent⟩ := c
  simp only [clientSent, waiting, hclient, hqueue, getD_some]
  rw [reads, run, foldl_cons]
  change (run (step nats) (s.send client) _).clientSent client = _
  have hafter : (s.send client).clients.get? client = some ⟨none, sent ++ held.toList⟩ ∧
      (s.send client).queue = some queue := by
    cases held with
    | none => simp [send, hclient, hqueue]
    | some event => simp [send, hclient, hqueue]
  rw [run_takes hafter.1 hafter.2, append_assoc]

end Alone

/-- Every event has been sent to the client once and in order, or waits and will be sent. -/
structure Receives (nats : Bool) (client : Nat) (before after : Bridge δ) : Prop where
  balance : since before.counter after.published =
    since before.counter (after.clientSent client) ++ since before.counter (after.waiting client)
  reading : ∃ moves : List (Move δ), (∀ m ∈ moves, m = .take client ∨ m = .send client) ∧
    since before.counter ((Runs.run (Bridge.step nats) after moves).clientSent client) =
      since before.counter after.published

theorem receives_of_undisturbed (nats : Bool) (client : Nat) (history moves : List (Move δ))
    (honly : (Runs.run (Bridge.step nats) .empty history).Only client)
    (h : Runs.Meets (Bridge.step nats) (Undisturbed nats client) (Runs.run (Bridge.step nats) .empty history) moves) :
    Receives nats client (Runs.run (Bridge.step nats) .empty history)
      (Runs.run (Bridge.step nats) .empty (history ++ moves)) := by
  have hexact := run_invariant (fun _ _ => exact_step) (exact_of_numbered (numbered_run history) honly) h
  have hrun : run (step nats) (run (step nats) .empty history) moves =
      run (step nats) .empty (history ++ moves) := (List.foldl_append ..).symm
  rw [hrun] at hexact
  obtain ⟨c, hc⟩ := hexact.only.get?
  have hsome := (counted_run (history ++ moves)).queue (List.ne_nil_of_mem ((mem_keys_iff _ _).mpr ⟨c, hc⟩))
  obtain ⟨queue, hqueue⟩ := isSome_iff_exists.mp hsome
  refine ⟨hexact.balance, reads client queue, ?_, ?_⟩
  · intro m hm
    rcases List.mem_cons.mp hm with rfl | hm
    · exact .inr rfl
    · obtain ⟨event, _, hevent⟩ := List.mem_flatMap.mp hm
      simpa using hevent
  · rw [run_reads hc hqueue, since_append, hexact.balance]

/-! ## Three runs -/

theorem receives_of_undisturbed_alone :
    Receives false 0 (Runs.run (Bridge.step false) .empty [.connect 0])
      (Runs.run (Bridge.step false) .empty ([.connect 0] ++ [.publish "a" true, .take 0, .send 0, .keepAlive 0])) ∧
    (Runs.run (Bridge.step false) .empty ([.connect 0] ++ [.publish "a" true, .take 0, .send 0, .keepAlive 0])).clientSent
      0 = [⟨1, "a"⟩] :=
  ⟨receives_of_undisturbed false 0 _ _ ⟨rfl, rfl⟩ (by decide), rfl⟩

/-- A second client misses events, one event comes twice, and one is lost to a heartbeat. -/
theorem not_received :
    ¬ Receives false 1 (Runs.run (Bridge.step false) .empty [.connect 0, .connect 1])
      (Runs.run (Bridge.step false) .empty [.connect 0, .connect 1, .publish "a" true, .take 0, .send 0]) ∧
    (Runs.run (Bridge.step true) .empty
      [.connect 0, .subscribed, .publish "a" true, .take 0, .send 0, .deliver 0, .take 0, .send 0]).clientSent 0 =
        [⟨1, "a"⟩, ⟨1, "a"⟩] ∧
    ¬ Receives false 0 (Runs.run (Bridge.step false) .empty [.connect 0])
      (Runs.run (Bridge.step false) .empty [.connect 0, .publish "a" true, .take 0, .keepAlive 0]) := by
  refine ⟨fun h => ?_, rfl, fun h => ?_⟩
  all_goals
    have hbalance := h.balance
    revert hbalance
    decide

end AteStudio.Sse
