import AteStudio.Lib.Runs
import AteStudio.Offline.CacheStore

/-!
# The version locks (`offline/version_lock.py`)

A block under the lock is one step, and so is a call of the cache. `store_update` looks at the locks in one step and
writes in another.
-/

namespace AteStudio.Offline

structure VersionLock where
  version : String
  executionId : String
  -- The payload and the state of the row when the lock is made. The code does not keep it.
  snapshot : Option (String × CacheState)
deriving DecidableEq

structure AcquireCall where
  kind : Kind
  id : String
  version : String
  executionId : String
deriving DecidableEq

structure StoreUpdate where
  kind : Kind
  id : String
  version : String
  payload : String
  checksum : Option String
deriving DecidableEq

inductive LockError where
  | online
  | alreadyLocked
  | immutable
  | cache (error : CacheError)
deriving DecidableEq

structure LockManager where
  cache : CacheStore
  online : Bool
  locks : Dict (Kind × String) VersionLock
  -- The threads in `acquire` that have found the station offline.
  acquiring : List AcquireCall
  -- The threads in `store_update` that have found no lock on the version.
  storing : List StoreUpdate
deriving DecidableEq

inductive LockMove where
  | setOnline (online : Bool)
  | acquire (call : AcquireCall)
  | acquireLocked (thread : Nat)
  | resolvePinned (kind : Kind) (id : String) (executionId : String)
  | storeUpdate (call : StoreUpdate)
  | storeWrite (thread : Nat) (now : Rat)
  | release (kind : Kind) (id : String)
  | releaseForExecution (executionId : String)
  | releaseAll
  | prune (kind : Kind) (keepLastN : Int)
deriving DecidableEq

def AcquireCall.key (call : AcquireCall) : CacheKey := ⟨call.kind, call.id, call.version⟩

def StoreUpdate.key (call : StoreUpdate) : CacheKey := ⟨call.kind, call.id, call.version⟩

def pinned (entry : (Kind × String) × VersionLock) : CacheKey := ⟨entry.1.1, entry.1.2, entry.2.version⟩

def CacheStore.holding (cache : CacheStore) (key : CacheKey) : Option (String × CacheState) :=
  (cache.get? key).map fun row => (row.payload, row.state)

def CacheStore.latestAckedVersion (cache : CacheStore) (kind : Kind) (id : String) : Option String :=
  match (cache.listCached kind).find? (·.1.id = id) with
  | some entry => if entry.2.state = .acked then some entry.1.version else none
  | none => none

namespace LockManager

def start (cache : CacheStore) : LockManager := ⟨cache, true, ∅, [], []⟩

variable (sha256 : String → String) (m : LockManager)

def lock (key : CacheKey) (executionId : String) : LockManager :=
  { m with locks := m.locks.set (key.kind, key.id) ⟨key.version, executionId, m.cache.holding key⟩ }

def release (kind : Kind) (id : String) : LockManager :=
  { m with locks := m.locks.erase (kind, id) }

def releaseForExecution (executionId : String) : LockManager :=
  { m with locks := m.locks.filter fun _ lock => lock.executionId ≠ executionId }

def releaseAll : LockManager := { m with locks := ∅ }

def checkUpdate (call : StoreUpdate) : Except LockError Unit :=
  match m.locks.get? (call.kind, call.id) with
  | some existing => if existing.version = call.version then .error .immutable else .ok ()
  | none => .ok ()

def acquireLocked (call : AcquireCall) : Except LockError LockManager :=
  match m.locks.get? (call.kind, call.id) with
  | some existing =>
    if existing.version = call.version ∧ existing.executionId = call.executionId then .ok m else .error .alreadyLocked
  | none =>
    match m.cache.getUsable sha256 call.kind call.id (some call.version) true with
    | .ok _ => .ok (m.lock call.key call.executionId)
    | .error e => .error (.cache e)

def resolvePinned (kind : Kind) (id executionId : String) : Except CacheError (LockManager × String × String) :=
  match m.locks.get? (kind, id) with
  | some existing => do
    let payload ← m.cache.getUsable sha256 kind id (some existing.version) true
    .ok (m, existing.version, payload)
  | none => do
    let version := m.cache.latestAckedVersion kind id
    let payload ← m.cache.getUsable sha256 kind id version true
    let locked := if m.online then m else m.lock ⟨kind, id, version.getD ""⟩ executionId
    .ok (locked, version.getD "", payload)

/-- A step that raises changes nothing but its own thread. -/
def step : LockMove → LockManager
  | .setOnline online => { m with online }
  | .acquire call => if m.online then m else { m with acquiring := m.acquiring ++ [call] }
  | .acquireLocked thread =>
    match m.acquiring[thread]? with
    | some call =>
      let idle := { m with acquiring := m.acquiring.eraseIdx thread }
      match idle.acquireLocked sha256 call with
      | .ok after => after
      | .error _ => idle
    | none => m
  | .resolvePinned kind id executionId =>
    match m.resolvePinned sha256 kind id executionId with
    | .ok (after, _, _) => after
    | .error _ => m
  | .storeUpdate call =>
    match m.checkUpdate call with
    | .ok _ => { m with storing := m.storing ++ [call] }
    | .error _ => m
  | .storeWrite thread now =>
    match m.storing[thread]? with
    | some call =>
      let idle := { m with storing := m.storing.eraseIdx thread }
      match m.cache.store sha256 call.key call.payload call.checksum now with
      | .ok cache => { idle with cache }
      | .error _ => idle
    | none => m
  | .release kind id => m.release kind id
  | .releaseForExecution executionId => m.releaseForExecution executionId
  | .releaseAll => m.releaseAll
  | .prune kind keepLastN =>
    match m.cache.prune kind keepLastN with
    | .ok cache => { m with cache }
    | .error _ => m

/-! ## What a lock promises -/

/-- Every locked row is there, with the payload and the state it had when the lock was made. -/
def Immutable : Prop :=
  ∀ entry ∈ m.locks.entries, entry.2.snapshot.isSome ∧ m.cache.holding (pinned entry) = entry.2.snapshot

instance : Decidable m.Immutable := inferInstanceAs (Decidable (∀ _ ∈ _, _))

def rewrites (call : StoreUpdate) : Bool :=
  call.checksum.all (· = sha256 call.payload) && !m.cache.unchanged sha256 call.key call.payload

/-- No version is locked inside a `store_update` that changes it, and none that `prune` would drop. -/
def Undisturbed : LockMove → Prop
  | .storeWrite thread _ =>
    ∀ call ∈ m.storing[thread]?, m.rewrites sha256 call → ∀ entry ∈ m.locks.entries, pinned entry ≠ call.key
  | .prune kind keepLastN =>
    1 ≤ keepLastN → ∀ entry ∈ m.locks.entries, m.cache.doomed kind keepLastN (pinned entry) = false
  | _ => True

/-! ## What a step does -/

variable {sha256 m}

def Fresh (m : LockManager) (entry : (Kind × String) × VersionLock) : Prop :=
  m.cache.holding (pinned entry) = entry.2.snapshot ∧ ∃ payload, entry.2.snapshot = some (payload, .acked)

variable {executionId : String} {key : CacheKey} {entry : (Kind × String) × VersionLock}

theorem mem_lock (h : entry ∈ (m.lock key executionId).locks.entries) :
    entry ∈ m.locks.entries ∨ pinned entry = key ∧ entry.2.snapshot = m.cache.holding key := by
  obtain ⟨k, lock⟩ := entry
  rw [← Dict.get?_eq_some_iff] at h ⊢
  rw [LockManager.lock, Dict.get?_set] at h
  split at h
  · next hk =>
    cases h
    subst hk
    exact .inr ⟨rfl, rfl⟩
  · exact .inl h

variable {row : CacheRow}

open CacheStore

theorem holding_of_get? {cache : CacheStore} (h : cache.get? key = some row) :
    cache.holding key = some (row.payload, row.state) := by
  rw [holding, h, Option.map_some]

theorem fresh_of_lock (hrow : m.cache.get? key = some row) (hacked : row.state = .acked)
    (h : entry ∈ (m.lock key executionId).locks.entries) : entry ∈ m.locks.entries ∨ m.Fresh entry := by
  refine (mem_lock h).imp id ?_
  rintro ⟨hkey, hsnapshot⟩
  refine ⟨by rw [hkey, hsnapshot], row.payload, ?_⟩
  rw [hsnapshot, holding_of_get? hrow, hacked]

def Relocks (m after : LockManager) : Prop :=
  after.cache = m.cache ∧ ∀ entry ∈ after.locks.entries, entry ∈ m.locks.entries ∨ m.Fresh entry

theorem Relocks.refl (m : LockManager) : m.Relocks m := ⟨rfl, fun _ h => .inl h⟩

variable {after : LockManager}

theorem relocks_acquireLocked {call : AcquireCall} (h : m.acquireLocked sha256 call = .ok after) : m.Relocks after := by
  unfold acquireLocked at h
  split at h
  · split at h
    · cases h
      exact .refl m
    · cases h
  · split at h
    · next payload hpayload =>
      cases h
      obtain ⟨row, hrow, -, hacked, -⟩ := getUsable_ok hpayload
      exact ⟨rfl, fun _ => fresh_of_lock (select_version.mp hrow) (hacked rfl)⟩
    · cases h

theorem select_latestAckedVersion {cache : CacheStore} {kind : Kind} {id : String}
    (h : cache.select kind id (cache.latestAckedVersion kind id) = .ok row) (hacked : row.state = .acked) :
    cache.get? ⟨kind, id, (cache.latestAckedVersion kind id).getD ""⟩ = some row := by
  cases hlatest : cache.latestAckedVersion kind id with
  | some version =>
    rw [hlatest] at h
    exact select_version.mp h
  | none =>
    rw [hlatest, select, rowsOf, List.head?_filter] at h
    unfold latestAckedVersion at hlatest
    split at h
    · next entry hentry =>
      cases h
      simp [hentry, hacked] at hlatest
    · cases h

theorem relocks_resolvePinned {kind : Kind} {id : String} {version payload : String}
    (h : m.resolvePinned sha256 kind id executionId = .ok (after, version, payload)) : m.Relocks after := by
  unfold resolvePinned at h
  split at h
  · obtain ⟨_, -, h⟩ := bind_eq_ok.mp h
    cases h
    exact .refl m
  · obtain ⟨_, hpayload, h⟩ := bind_eq_ok.mp h
    cases h
    obtain ⟨row, hrow, -, hacked, -⟩ := getUsable_ok hpayload
    split
    · exact .refl m
    · exact ⟨rfl, fun _ => fresh_of_lock (select_latestAckedVersion hrow (hacked rfl)) (hacked rfl)⟩

def writes : LockMove → Bool
  | .storeWrite .. | .prune .. => true
  | _ => false

theorem relocks_step {move : LockMove} (h : writes move = false) : m.Relocks (m.step sha256 move) := by
  cases move with
  | setOnline online => exact ⟨rfl, fun _ => .inl⟩
  | acquire call =>
    dsimp only [step]
    split
    · exact .refl m
    · exact ⟨rfl, fun _ => .inl⟩
  | acquireLocked thread =>
    dsimp only [step]
    split
    · let idle : LockManager := { m with acquiring := m.acquiring.eraseIdx thread }
      split
      · next after hafter => exact relocks_acquireLocked (m := idle) hafter
      · exact ⟨rfl, fun _ => .inl⟩
    · exact .refl m
  | resolvePinned kind id executionId =>
    dsimp only [step]
    split
    · next hafter => exact relocks_resolvePinned hafter
    · exact .refl m
  | storeUpdate call =>
    dsimp only [step]
    split
    · exact ⟨rfl, fun _ => .inl⟩
    · exact .refl m
  | storeWrite thread now => cases h
  | release kind id => exact ⟨rfl, fun _ hentry => .inl (List.mem_filter.mp hentry).1⟩
  | releaseForExecution executionId => exact ⟨rfl, fun _ hentry => .inl (List.mem_filter.mp hentry).1⟩
  | releaseAll => exact ⟨rfl, fun _ hentry => nomatch hentry⟩
  | prune kind keepLastN => cases h

theorem locks_step {move : LockMove} (h : writes move = true) : (m.step sha256 move).locks = m.locks := by
  cases move with
  | storeWrite thread now =>
    dsimp only [step]
    split
    · split <;> rfl
    · rfl
  | prune kind keepLastN =>
    dsimp only [step]
    split <;> rfl
  | _ => cases h

theorem holding_storeWrite {thread : Nat} {now : Rat} {call : StoreUpdate} (hcall : m.storing[thread]? = some call)
    (key : CacheKey) : (m.step sha256 (.storeWrite thread now)).cache.holding key =
      if m.rewrites sha256 call ∧ key = call.key then some (call.payload, .cached) else m.cache.holding key := by
  have hrewrites : m.rewrites sha256 call =
    (call.checksum.all (· = sha256 call.payload) && !m.cache.unchanged sha256 call.key call.payload) := rfl
  simp only [step, hcall, store_eq]
  cases haccepted : Option.all (fun c => decide (c = sha256 call.payload)) call.checksum with
  | false => simp [hrewrites, haccepted]
  | true =>
    cases hsame : m.cache.unchanged sha256 call.key call.payload with
    | true => simp [hrewrites, hsame]
    | false =>
      simp only [hrewrites, haccepted, hsame, holding, insertOrReplace]
      by_cases hkey : key = call.key <;> simp [hkey, Dict.get?_set]

theorem holding_prune {kind : Kind} {keepLastN : Int} (hkeep : 1 ≤ keepLastN) (key : CacheKey) :
    (m.step sha256 (.prune kind keepLastN)).cache.holding key =
      if m.cache.doomed kind keepLastN key then none else m.cache.holding key := by
  simp only [step, prune, if_neg (Int.not_lt.mpr hkeep), holding, Dict.get?_filter]
  cases m.cache.doomed kind keepLastN key <;> cases m.cache.get? key <;> rfl

/-! ## What holds along a run -/

def OnAcked (m : LockManager) : Prop := ∀ entry ∈ m.locks.entries, ∃ payload, entry.2.snapshot = some (payload, .acked)

theorem Relocks.immutable (h : m.Relocks after) (himmutable : m.Immutable) : after.Immutable := by
  intro entry hentry
  rw [h.1]
  rcases h.2 entry hentry with hold | ⟨hholding, payload, hsnapshot⟩
  · exact himmutable entry hold
  · exact ⟨by rw [hsnapshot]; rfl, hholding⟩

theorem OnAcked.step (h : m.OnAcked) (move : LockMove) : (m.step sha256 move).OnAcked := by
  intro entry hentry
  cases hwrites : writes move with
  | true =>
    rw [locks_step hwrites] at hentry
    exact h entry hentry
  | false =>
    rcases (relocks_step hwrites).2 entry hentry with hold | hfresh
    · exact h entry hold
    · exact hfresh.2

theorem immutable_storeWrite (hacked : m.OnAcked) (h : m.Immutable) (thread : Nat) (now : Rat) :
    m.Undisturbed sha256 (.storeWrite thread now) ↔ (m.step sha256 (.storeWrite thread now)).Immutable := by
  cases hcall : m.storing[thread]? with
  | none =>
    simp only [Undisturbed, hcall, step]
    simpa using h
  | some call =>
    have hholding := @holding_storeWrite sha256 m thread now call hcall
    rw [Immutable, locks_step rfl]
    simp only [Undisturbed, hcall, Option.mem_some_iff, forall_eq']
    constructor
    · intro hfree entry hentry
      rw [hholding, if_neg fun hlocked => hfree hlocked.1 entry hentry hlocked.2]
      exact h entry hentry
    · intro hafter hrewrites entry hentry hkey
      obtain ⟨payload, hsnapshot⟩ := hacked entry hentry
      have := (hafter entry hentry).2
      rw [hholding, if_pos ⟨hrewrites, hkey⟩, hsnapshot] at this
      cases this

theorem immutable_prune (h : m.Immutable) (kind : Kind) (keepLastN : Int) :
    m.Undisturbed sha256 (.prune kind keepLastN) ↔ (m.step sha256 (.prune kind keepLastN)).Immutable := by
  by_cases hkeep : 1 ≤ keepLastN
  · rw [Immutable, locks_step rfl]
    simp only [Undisturbed, hkeep, true_implies, holding_prune hkeep]
    refine forall₂_congr fun entry hentry => ?_
    obtain ⟨hsome, hholding⟩ := h entry hentry
    cases hdoomed : m.cache.doomed kind keepLastN (pinned entry) with
    | false => simp [hsome, hholding]
    | true =>
      simp only [Bool.true_eq_false, if_true, false_iff, not_and]
      intro _ hnone
      rw [← hnone] at hsome
      cases hsome
  · simp only [Undisturbed, hkeep, false_implies, true_iff, step, prune, if_pos (Int.not_le.mp hkeep)]
    exact h

theorem undisturbed_iff (hacked : m.OnAcked) (h : m.Immutable) (move : LockMove) :
    m.Undisturbed sha256 move ↔ (m.step sha256 move).Immutable := by
  cases move with
  | storeWrite thread now => exact immutable_storeWrite hacked h thread now
  | prune kind keepLastN => exact immutable_prune h kind keepLastN
  | _ => exact iff_of_true trivial ((relocks_step rfl).immutable h)

end LockManager

open LockManager CacheStore

theorem snapshots_immutable_iff (sha256 : String → String) (cache : CacheStore) (moves : List LockMove) :
    (∀ before, before <+: moves → (Runs.run (LockManager.step sha256) (.start cache) before).Immutable) ↔
      Runs.Meets (LockManager.step sha256) (LockManager.Undisturbed sha256) (.start cache) moves :=
  (@Runs.meets_iff_always _ _ _ _ _ _ OnAcked Immutable (fun _ move h => h.step move)
    (fun _ move hacked h => undisturbed_iff hacked h move) (fun _ h => absurd h List.not_mem_nil)
    fun _ h => absurd h List.not_mem_nil).symm

/-! ## An update under way and a retention of one version -/

def twoVersions : CacheStore :=
  let first := (insertOrReplace id ∅ ⟨.sequence, "s", "1"⟩ "a" 0).markAcked ⟨.sequence, "s", "1"⟩
  (insertOrReplace id first ⟨.sequence, "s", "2"⟩ "b" 1).markAcked ⟨.sequence, "s", "2"⟩

/-- An update from before the lock replaces the locked row, and `prune` deletes it. -/
theorem snapshots_not_immutable :
    ¬ (Runs.run (LockManager.step id) (.start twoVersions)
      [.setOnline false, .storeUpdate ⟨.sequence, "s", "1", "c", none⟩, .acquire ⟨.sequence, "s", "1", "e"⟩,
        .acquireLocked 0, .storeWrite 0 2]).Immutable ∧
    ¬ (Runs.run (LockManager.step id) (.start twoVersions)
      [.setOnline false, .acquire ⟨.sequence, "s", "1", "e"⟩, .acquireLocked 0, .prune .sequence 1]).Immutable := by
  decide

end AteStudio.Offline
