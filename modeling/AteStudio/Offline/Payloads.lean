import AteStudio.Offline.Reconcile

/-!
# The payloads of a reconciliation

The walk is over the rows as they were listed, while the cache changes under it.
-/

namespace AteStudio.Offline

open List

def CacheKey.item (key : CacheKey) : Kind × String := (key.kind, key.id)

variable (sha256 : String → String) (uploader : Uploader) (cache : CacheStore) (item : Kind × String) (payload : String)
  (entry : CacheKey × CacheRow)

namespace CacheStore

def Holds : Prop :=
  ∃ entry ∈ cache.entries, entry.1.item = item ∧ entry.2.payload = payload

def HoldsAcked : Prop :=
  ∃ entry ∈ cache.entries, entry.1.item = item ∧ entry.2.payload = payload ∧ entry.2.state = .acked

instance : Decidable (cache.Holds item payload) :=
  inferInstanceAs (Decidable (∃ _ ∈ _, _))

instance : Decidable (cache.HoldsAcked item payload) :=
  inferInstanceAs (Decidable (∃ _ ∈ _, _))

variable {cache item payload} in
theorem holds_iff :
    cache.Holds item payload ↔ ∃ key row, cache.get? key = some row ∧ key.item = item ∧ row.payload = payload := by
  simp only [Holds, Prod.exists, Dict.get?_eq_some_iff]

end CacheStore

def VersionAnswer.settles : VersionAnswer → Bool
  | .confirmed | .conflict _ => true
  | .unknown | .raised => false

open CacheStore

section Walk

/-- The uploader is asked about the checksum of the payload, and knows the version. -/
def Answered : Prop :=
  ∃ entry ∈ cache.listAll, entry.2.state = .cached ∧ entry.1.item = item ∧ entry.2.checksum = sha256 payload ∧
    (uploader.resolveVersion entry.1 entry.2.checksum).settles = true

instance : Decidable (Answered sha256 uploader cache item payload) := inferInstanceAs (Decidable (∃ _ ∈ _, _))

/-- No payload is lost, and what is acknowledged was so before or is known to the server. -/
def Preserves (after : CacheStore) : Prop :=
  (∀ entry ∈ cache.entries, after.Holds entry.1.item entry.2.payload) ∧
  ∀ entry ∈ after.entries, entry.2.state = .acked →
    cache.HoldsAcked entry.1.item entry.2.payload ∨ Answered sha256 uploader cache entry.1.item entry.2.payload

instance (after : CacheStore) : Decidable (Preserves sha256 uploader cache after) :=
  inferInstanceAs (Decidable (_ ∧ _))

def named? : Option String :=
  if entry.2.state = .cached then
    match uploader.resolveVersion entry.1 entry.2.checksum with
    | .conflict newVersion => usableVersion? entry.1 newVersion
    | _ => none
  else none

/-- A row with the same payload is sent to this version, and makes it intact. -/
def Restored : Prop :=
  ∃ e ∈ cache.listAll, e.1.item = entry.1.item ∧ e.2.payload = entry.2.payload ∧ named? uploader e = some entry.1.version

instance : Decidable (Restored uploader cache entry) :=
  inferInstanceAs (Decidable (∃ _ ∈ _, _))

/-- A corrupt row is sent nowhere, unless it is intact by then. -/
def target? : Option String :=
  if CacheStore.intact sha256 entry.2 ∨ Restored uploader cache entry then named? uploader entry else none

def Leaves : Prop :=
  (named? uploader entry).isSome ∧ CacheStore.intact sha256 entry.2 = true

instance : Decidable (Leaves sha256 uploader entry) := inferInstanceAs (Decidable (_ ∧ _))

/-- Neither of two rows takes the place of the other, the first in the listing. -/
def Compatible (first second : CacheKey × CacheRow) : Prop :=
  first.1.item = second.1.item → first.2.payload ≠ second.2.payload →
    target? sha256 uploader cache first ≠ some second.1.version ∧
    (target? sha256 uploader cache second = some first.1.version → Leaves sha256 uploader first) ∧
    ((target? sha256 uploader cache first).isSome →
      target? sha256 uploader cache first ≠ target? sha256 uploader cache second)

instance : DecidableRel (Compatible sha256 uploader cache) :=
  fun _ _ => inferInstanceAs (Decidable (_ → _ → _))

/-- Every confirmed row is intact, and no row is sent to a version that is taken. -/
def Orderly : Prop :=
  (∀ entry ∈ cache.listAll, entry.2.state = .cached →
    uploader.resolveVersion entry.1 entry.2.checksum = .confirmed → CacheStore.intact sha256 entry.2 = true) ∧
  cache.listAll.Pairwise (Compatible sha256 uploader cache)

instance : Decidable (Orderly sha256 uploader cache) := inferInstanceAs (Decidable (_ ∧ _))

/-! ## One conflict -/

variable {sha256 uploader} {clock : Clock}

theorem get?_markAcked (cache : CacheStore) (key key' : CacheKey) :
    (cache.markAcked key).get? key' =
      if key' = key then (cache.get? key).map ({ · with state := .acked }) else cache.get? key' :=
  Dict.get?_update cache key key' _

/-- The successor of a row: the same payload, with its own checksum, and acknowledged. -/
def Succeeds (sha256 : String → String) (row after : CacheRow) : Prop :=
  after.payload = row.payload ∧ after.checksum = sha256 row.payload ∧ after.state = .acked

variable {key : CacheKey}

theorem get?_stored_markAcked {cache stored : CacheStore} {payload : String} {now : Rat}
    (h : cache.store sha256 key payload none now = .ok stored) :
    ∃ after : CacheRow, after.payload = payload ∧ after.checksum = sha256 payload ∧ after.state = .acked ∧
      ∀ key', (stored.markAcked key).get? key' = if key' = key then some after else cache.get? key' := by
  rw [store_eq] at h
  cases h
  cases hsame : cache.unchanged sha256 key payload with
  | true =>
    simp only [unchanged, Option.any_eq_true, Bool.and_eq_true, decide_eq_true_eq] at hsame
    obtain ⟨row, hrow, hpayload, hchecksum⟩ := hsame
    refine ⟨{ row with state := .acked }, hpayload, hchecksum, rfl, fun key' => ?_⟩
    rw [if_pos rfl, get?_markAcked, hrow]
    rfl
  | false =>
    refine ⟨⟨payload, sha256 payload, .acked, now, cache.nextRowid key.kind⟩, rfl, rfl, rfl, fun key' => ?_⟩
    rw [if_neg Bool.false_ne_true, get?_markAcked, insertOrReplace, Dict.get?_set_self]
    by_cases hkey : key' = key
    · rw [if_pos hkey, if_pos hkey]
      rfl
    · rw [if_neg hkey, if_neg hkey, Dict.get?_set_of_ne _ _ hkey]

variable {newVersion : Option String}

theorem applyConflict_spec {cache after : CacheStore}
    (h : applyConflictNewVersion sha256 clock cache key newVersion = some after) :
    ∃ new row succ, usableVersion? key newVersion = some new ∧ cache.get? key = some row ∧
      intact sha256 row = true ∧ Succeeds sha256 row succ ∧
      ∀ key', after.get? key' = if key' = key then none
        else if key' = { key with version := new } then some succ else cache.get? key' := by
  unfold applyConflictNewVersion at h
  split at h
  · cases h
  · next new hnew =>
    split at h
    · cases h
    · next payload hpayload =>
      split at h
      · cases h
      · next stored hstored =>
        cases h
        obtain ⟨row, hrow, hintact, -, rfl⟩ := getUsable_ok hpayload
        obtain ⟨succ, hsucc, hchecksum, hstate, hget⟩ := get?_stored_markAcked hstored
        refine ⟨new, row, succ, hnew, select_version.mp hrow, hintact, ⟨hsucc, hchecksum, hstate⟩, ?_⟩
        intro key'
        rw [delete, Dict.get?_erase, hget]

variable {row : CacheRow}

theorem applyConflict_isSome {cache : CacheStore}
    (hnew : (usableVersion? key newVersion).isSome) (hrow : cache.get? key = some row)
    (hintact : intact sha256 row = true) : (applyConflictNewVersion sha256 clock cache key newVersion).isSome := by
  obtain ⟨new, hnew⟩ := Option.isSome_iff_exists.mp hnew
  have hpayload : cache.getUsable sha256 key.kind key.id (some key.version) false = .ok row.payload := by
    rw [getUsable, select_version.mpr hrow]
    simp [bind, Except.bind, hintact]
  simp [applyConflictNewVersion, hnew, hpayload, store_eq]

theorem usableVersion?_ne {new : String} (h : usableVersion? key newVersion = some new) : new ≠ key.version := by
  obtain ⟨_, hnew⟩ := Option.filter_eq_some_iff.mp h
  exact (of_decide_eq_true hnew).2

/-! ## The walk -/

def Origin (sha256 : String → String) (uploader : Uploader) (cache : CacheStore)
    (done todo : List (CacheKey × CacheRow)) (key : CacheKey) (row : CacheRow) : Prop :=
  ∃ entry ∈ done ++ todo, entry.1.item = key.item ∧ entry.2.payload = row.payload ∧
    (entry.1 = key ∧ (entry ∈ done → ¬ Leaves sha256 uploader entry) ∨
      entry ∈ done ∧ target? sha256 uploader cache entry = some key.version)

structure Walk (sha256 : String → String) (uploader : Uploader) (cache : CacheStore)
    (done todo : List (CacheKey × CacheRow)) (now : CacheStore) : Prop where
  listed : done ++ todo = cache.listAll
  -- A row whose turn is to come holds its payload, and its checksum has changed to the right one at most.
  waiting : ∀ entry ∈ todo, ∃ row, now.get? entry.1 = some row ∧ row.payload = entry.2.payload ∧
    (row.checksum = entry.2.checksum ∨
      row.checksum = sha256 row.payload ∧ Answered sha256 uploader cache entry.1.item entry.2.payload ∧
        Restored uploader cache entry)
  origin : ∀ key row, now.get? key = some row → Origin sha256 uploader cache done todo key row
  kept : ∀ entry ∈ cache.entries, now.Holds entry.1.item entry.2.payload
  known : ∀ key row, now.get? key = some row → row.state = .acked →
    cache.HoldsAcked key.item row.payload ∨ Answered sha256 uploader cache key.item row.payload

variable {cache now : CacheStore} {done todo : List (CacheKey × CacheRow)} {entry : CacheKey × CacheRow}

theorem Walk.start (sha256 : String → String) (uploader : Uploader) (cache : CacheStore) :
    Walk sha256 uploader cache [] cache.listAll cache where
  listed := rfl
  waiting := fun entry hentry => ⟨entry.2, mem_listAll.mp hentry, rfl, .inl rfl⟩
  origin := fun key row hrow => ⟨(key, row), mem_listAll.mpr hrow, rfl, rfl, .inl ⟨rfl, (nomatch ·)⟩⟩
  kept := fun entry hentry => ⟨entry, hentry, rfl, rfl⟩
  known := fun key row hrow hacked => .inl ⟨(key, row), (Dict.get?_eq_some_iff _ _ _).mp hrow, rfl, rfl, hacked⟩

theorem Origin.turn (h : Origin sha256 uploader cache done (entry :: todo) key row)
    (hstay : entry.1 = key → ¬ Leaves sha256 uploader entry) : Origin sha256 uploader cache (done ++ [entry]) todo key row := by
  obtain ⟨e, he, hitem, hpayload, hplace⟩ := h
  refine ⟨e, append_cons done entry todo ▸ he, hitem, hpayload, ?_⟩
  rcases hplace with ⟨hkey, hdone⟩ | ⟨hdone, htarget⟩
  · refine .inl ⟨hkey, fun hmem => ?_⟩
    rcases mem_append.mp hmem with hmem | hmem
    · exact hdone hmem
    · rw [mem_singleton.mp hmem] at hkey ⊢
      exact hstay hkey
  · exact .inr ⟨mem_append_left _ hdone, htarget⟩

theorem Walk.stay (h : Walk sha256 uploader cache done (entry :: todo) now) (hstay : ¬ Leaves sha256 uploader entry) :
    Walk sha256 uploader cache (done ++ [entry]) todo now :=
  { h with
    listed := (append_cons done entry todo).symm.trans h.listed
    waiting := fun e he => h.waiting e (mem_cons_of_mem _ he)
    origin := fun key row hrow => (h.origin key row hrow).turn fun _ => hstay }

theorem Walk.markAcked (h : Walk sha256 uploader cache done todo now) (hknown : ∀ row, now.get? key = some row →
      cache.HoldsAcked key.item row.payload ∨ Answered sha256 uploader cache key.item row.payload) :
    Walk sha256 uploader cache done todo (now.markAcked key) := by
  -- Only the state of the row is new.
  have hback : ∀ {k row}, (now.markAcked key).get? k = some row → ∃ old, now.get? k = some old ∧
      row.payload = old.payload ∧ row.checksum = old.checksum ∧ (k ≠ key → row = old) := by
    intro k row hrow
    rw [get?_markAcked] at hrow
    split at hrow
    · next hk =>
      obtain ⟨old, hold, rfl⟩ := Option.map_eq_some_iff.mp hrow
      exact ⟨old, hk ▸ hold, rfl, rfl, fun hne => absurd hk hne⟩
    · exact ⟨row, hrow, rfl, rfl, fun _ => rfl⟩
  have hforth : ∀ {k old}, now.get? k = some old → ∃ row, (now.markAcked key).get? k = some row ∧
      row.payload = old.payload ∧ row.checksum = old.checksum := by
    intro k old hold
    rw [get?_markAcked]
    split
    · next hk =>
      rw [← hk, hold]
      exact ⟨_, rfl, rfl, rfl⟩
    · exact ⟨old, hold, rfl, rfl⟩
  refine { listed := h.listed, waiting := fun e he => ?_, origin := fun k row hrow => ?_, kept := fun e he => ?_,
           known := fun k row hrow hacked => ?_ }
  · obtain ⟨old, hold, hpayload, hchecksum⟩ := h.waiting e he
    obtain ⟨row, hrow, hp, hc⟩ := hforth hold
    rw [← hp, ← hc] at hchecksum
    exact ⟨row, hrow, hp.trans hpayload, hchecksum⟩
  · obtain ⟨old, hold, hp, -⟩ := hback hrow
    rw [Origin, hp]
    exact h.origin k old hold
  · obtain ⟨k, old, hold, hitem, hpayload⟩ := holds_iff.mp (h.kept e he)
    obtain ⟨row, hrow, hp, -⟩ := hforth hold
    exact holds_iff.mpr ⟨k, row, hrow, hitem, hp.trans hpayload⟩
  · obtain ⟨old, hold, hp, -, hsame⟩ := hback hrow
    by_cases hk : k = key
    · subst hk
      rw [hp]
      exact hknown old hold
    · rw [hsame hk] at hacked ⊢
      exact h.known k old hold hacked

section

variable (h : Walk sha256 uploader cache done (entry :: todo) now)

include h

theorem Walk.payload_target (hpairs : cache.listAll.Pairwise (Compatible sha256 uploader cache)) {new : String}
    (htarget : target? sha256 uploader cache entry = some new) (hne : new ≠ entry.1.version)
    (hrow : now.get? { entry.1 with version := new } = some row) : row.payload = entry.2.payload := by
  rw [← h.listed, pairwise_append, pairwise_cons] at hpairs
  obtain ⟨-, ⟨hlater, -⟩, hearlier⟩ := hpairs
  obtain ⟨e, he, hitem, hpayload, hplace⟩ := h.origin _ row hrow
  replace hitem : e.1.item = entry.1.item := hitem
  rw [← hpayload]
  by_contra hdiff
  rcases hplace with ⟨hkey, hstays⟩ | ⟨hdone, hsent⟩
  · -- The row has been there since it was listed.
    have hversion : e.1.version = new := congrArg CacheKey.version hkey
    rcases mem_append.mp he with hdone | hrest
    · have hcompatible := hearlier e hdone entry mem_cons_self hitem hdiff
      exact hstays hdone (hcompatible.2.1 (by rw [htarget, hversion]))
    · rcases mem_cons.mp hrest with rfl | htodo
      · exact hne hversion.symm
      · exact (hlater e htodo hitem.symm (Ne.symm hdiff)).1 (by rw [htarget, hversion])
  · -- It was sent there before.
    have hcompatible := hearlier e hdone entry mem_cons_self hitem hdiff
    exact hcompatible.2.2 (by rw [hsent]; rfl) (by rw [hsent, htarget])

theorem Walk.ne_of_mem {e : CacheKey × CacheRow} (he : e ∈ todo) : e.1 ≠ entry.1 := by
  have hnodup := cache.nodup_listAll
  rw [← h.listed, map_append, map_cons] at hnodup
  have hentry := (nodup_cons.mp (nodup_append.mp hnodup).2.1).1
  exact fun heq => hentry (heq ▸ mem_map_of_mem he)

theorem Walk.answered (hcached : entry.2.state = .cached)
    (hsettles : (uploader.resolveVersion entry.1 entry.2.checksum).settles = true)
    (hrow : now.get? entry.1 = some row) (hintact : intact sha256 row = true) :
    Answered sha256 uploader cache entry.1.item entry.2.payload := by
  obtain ⟨found, hfound, hpayload, hchecksum⟩ := h.waiting entry mem_cons_self
  cases hrow.symm.trans hfound
  rcases hchecksum with hchecksum | ⟨-, hanswered, -⟩
  · have hlisted : entry ∈ cache.listAll := h.listed ▸ mem_append_right _ mem_cons_self
    refine ⟨entry, hlisted, hcached, rfl, ?_, hsettles⟩
    rw [← hchecksum, ← hpayload]
    exact (of_decide_eq_true hintact).symm
  · exact hanswered

end

structure Sent (sha256 : String → String) (uploader : Uploader) (cache now : CacheStore) (entry : CacheKey × CacheRow)
    (place : CacheKey) (succ : CacheRow) (after : CacheStore) : Prop where
  item : place.item = entry.1.item
  ne : place ≠ entry.1
  target : target? sha256 uploader cache entry = some place.version
  payload : succ.payload = entry.2.payload
  checksum : succ.checksum = sha256 succ.payload
  answered : Answered sha256 uploader cache entry.1.item entry.2.payload
  -- What stands at the new version already, is the same payload.
  same : ∀ row, now.get? place = some row → row.payload = entry.2.payload
  source : ∀ row, now.get? entry.1 = some row → row.payload = entry.2.payload
  get? : ∀ key, after.get? key = if key = entry.1 then none else if key = place then some succ else now.get? key

theorem Walk.sent (h : Walk sha256 uploader cache done (entry :: todo) now)
    (hpairs : cache.listAll.Pairwise (Compatible sha256 uploader cache)) (hcached : entry.2.state = .cached)
    (hanswer : uploader.resolveVersion entry.1 entry.2.checksum = .conflict newVersion)
    {after : CacheStore} (happly : applyConflictNewVersion sha256 clock now entry.1 newVersion = some after) :
    ∃ place succ, Sent sha256 uploader cache now entry place succ after := by
  obtain ⟨new, row, succ, hnew, hrow, hintact, ⟨hpayload, hchecksum, -⟩, hget⟩ := applyConflict_spec happly
  have hne := usableVersion?_ne hnew
  obtain ⟨found, hfound, hsame, hfit⟩ := h.waiting entry mem_cons_self
  cases hrow.symm.trans hfound
  have htarget : target? sha256 uploader cache entry = some new := by
    rw [target?, if_pos, named?, if_pos hcached, hanswer]
    · exact hnew
    · refine hfit.imp (fun hchecksum => ?_) fun hrestored => hrestored.2.2
      simpa only [intact, hsame, hchecksum] using hintact
  exact ⟨{ entry.1 with version := new }, succ,
    { item := rfl
      ne := fun heq => hne (congrArg CacheKey.version heq)
      target := htarget
      payload := hpayload.trans hsame
      checksum := by rw [hchecksum, hpayload]
      answered := h.answered hcached (by rw [hanswer]; rfl) hrow hintact
      same := fun _ => h.payload_target hpairs htarget hne
      source := fun r hr => by cases hrow.symm.trans hr; exact hsame
      get? := hget }⟩

theorem named_of_target {new : String} (h : target? sha256 uploader cache entry = some new) :
    named? uploader entry = some new := by
  unfold target? at h
  split at h
  · exact h
  · cases h

namespace Sent

variable {place : CacheKey} {succ : CacheRow} {after : CacheStore}
  (hsent : Sent sha256 uploader cache now entry place succ after)
include hsent

theorem get?_place : after.get? place = some succ := by
  rw [hsent.get?, if_neg hsent.ne, if_pos rfl]

theorem stays {old : CacheRow} (hkey : key ≠ entry.1) (hold : now.get? key = some old) :
    ∃ row, after.get? key = some row ∧ row.payload = old.payload ∧ (row = old ∨ key = place ∧ row = succ) := by
  by_cases hplace : key = place
  · subst hplace
    exact ⟨succ, hsent.get?_place, hsent.payload.trans (hsent.same old hold).symm, .inr ⟨rfl, rfl⟩⟩
  · exact ⟨old, by rw [hsent.get?, if_neg hkey, if_neg hplace, hold], rfl, .inl rfl⟩

theorem back (hrow : after.get? key = some row) :
    key ≠ entry.1 ∧ (key = place ∧ row = succ ∨ now.get? key = some row) := by
  rw [hsent.get?] at hrow
  split at hrow
  · cases hrow
  · next hkey =>
    split at hrow
    · next hplace => exact ⟨hkey, .inl ⟨hplace, (Option.some.inj hrow).symm⟩⟩
    · exact ⟨hkey, .inr hrow⟩

theorem holds {item : Kind × String} {payload : String} (h : now.Holds item payload) : after.Holds item payload := by
  rw [holds_iff] at h ⊢
  obtain ⟨key, old, hold, hitem, hpayload⟩ := h
  by_cases hkey : key = entry.1
  · subst hkey
    refine ⟨place, succ, hsent.get?_place, hsent.item.trans hitem, ?_⟩
    rw [hsent.payload, ← hsent.source old hold, hpayload]
  · obtain ⟨row, hrow, hsame, -⟩ := hsent.stays hkey hold
    exact ⟨key, row, hrow, hitem, hsame.trans hpayload⟩

end Sent

theorem Walk.move (h : Walk sha256 uploader cache done (entry :: todo) now) {place : CacheKey} {succ : CacheRow}
    {after : CacheStore} (hsent : Sent sha256 uploader cache now entry place succ after) :
    Walk sha256 uploader cache (done ++ [entry]) todo after := by
  refine { listed := (append_cons done entry todo).symm.trans h.listed, waiting := fun e he => ?_,
           origin := fun key row hrow => ?_, kept := fun e he => hsent.holds (h.kept e he),
           known := fun key row hrow hacked => ?_ }
  · obtain ⟨old, hold, hp, hc⟩ := h.waiting e (mem_cons_of_mem _ he)
    obtain ⟨row, hrow, hsame, hrold⟩ := hsent.stays (h.ne_of_mem he) hold
    refine ⟨row, hrow, hsame.trans hp, ?_⟩
    rcases hrold with rfl | ⟨hkey, rfl⟩
    · exact hc
    · have hitem : entry.1.item = e.1.item := by rw [hkey, hsent.item]
      have hpayload : entry.2.payload = e.2.payload := by rw [← hp, ← hsame, hsent.payload]
      refine .inr ⟨hsent.checksum, ?_, entry, h.listed ▸ mem_append_right _ mem_cons_self, hitem, hpayload, ?_⟩
      · rw [← hitem, ← hpayload]
        exact hsent.answered
      · rw [hkey]
        exact named_of_target hsent.target
  · obtain ⟨hkey, ⟨rfl, rfl⟩ | hold⟩ := hsent.back hrow
    · have hmem : entry ∈ done ++ [entry] := mem_append_right _ mem_cons_self
      exact ⟨entry, mem_append_left _ hmem, hsent.item.symm, hsent.payload.symm, .inr ⟨hmem, hsent.target⟩⟩
    · exact (h.origin key row hold).turn fun heq => absurd heq.symm hkey
  · obtain ⟨-, ⟨rfl, rfl⟩ | hold⟩ := hsent.back hrow
    · right
      rw [hsent.item, hsent.payload]
      exact hsent.answered
    · exact h.known key row hold hacked

theorem Walk.not_leaves (h : Walk sha256 uploader cache done (entry :: todo) now) (hcached : entry.2.state = .cached)
    (hanswer : uploader.resolveVersion entry.1 entry.2.checksum = .conflict newVersion)
    (happly : applyConflictNewVersion sha256 clock now entry.1 newVersion = none) : ¬ Leaves sha256 uploader entry := by
  rintro ⟨hsome, hintact⟩
  obtain ⟨row, hrow, hpayload, hchecksum⟩ := h.waiting entry mem_cons_self
  have hrowIntact : intact sha256 row = true := by
    rcases hchecksum with hchecksum | ⟨hchecksum, -⟩
    · simpa only [intact, hpayload, hchecksum] using hintact
    · exact decide_eq_true hchecksum.symm
  rw [named?, if_pos hcached, hanswer] at hsome
  have happlied := @applyConflict_isSome sha256 clock _ _ _ _ hsome hrow hrowIntact
  rw [happly] at happlied
  cases happlied

variable {s : CacheStore × ReconcileReport}

theorem Walk.step (horderly : Orderly sha256 uploader cache) (h : Walk sha256 uploader cache done (entry :: todo) s.1) :
    Walk sha256 uploader cache (done ++ [entry]) todo (resolveEntry sha256 uploader clock s entry).1 := by
  have hlisted : entry ∈ cache.listAll := h.listed ▸ mem_append_right _ mem_cons_self
  unfold resolveEntry
  split
  · next hacked => exact h.stay fun hleaves => by simp [Leaves, named?, hacked] at hleaves
  · next hcached =>
    replace hcached := not_not.mp hcached
    split
    · next hanswer => exact h.stay fun hleaves => by simp [Leaves, named?, hanswer] at hleaves
    · next hanswer =>
      have hintact := horderly.1 entry hlisted hcached hanswer
      refine (h.stay fun hleaves => by simp [Leaves, named?, hanswer] at hleaves).markAcked fun row hrow => .inr ?_
      obtain ⟨found, hfound, hpayload, -⟩ := h.waiting entry mem_cons_self
      cases hrow.symm.trans hfound
      rw [hpayload]
      exact ⟨entry, hlisted, hcached, rfl, (of_decide_eq_true hintact).symm, by rw [hanswer]; rfl⟩
    · next hanswer => exact h.stay fun hleaves => by simp [Leaves, named?, hanswer] at hleaves
    · next newVersion hanswer =>
      split
      · next after happly =>
        obtain ⟨place, succ, hsent⟩ := h.sent horderly.2 hcached hanswer happly
        exact h.move hsent
      · next happly => exact h.stay (h.not_leaves hcached hanswer happly)

theorem Walk.run (horderly : Orderly sha256 uploader cache) (h : Walk sha256 uploader cache done todo s.1) :
    Walk sha256 uploader cache cache.listAll [] (todo.foldl (resolveEntry sha256 uploader clock) s).1 := by
  induction todo generalizing done s with
  | nil =>
    have hdone : done = cache.listAll := by rw [← h.listed, append_nil]
    exact hdone ▸ h
  | cons entry todo ih => exact ih (h.step horderly)

end Walk

open CacheStore

def twoCached : CacheStore :=
  insertOrReplace id (insertOrReplace id ∅ ⟨.sequence, "s", "1"⟩ "a" 0) ⟨.sequence, "s", "2"⟩ "b" 1

def corrupt : CacheStore := (∅ : CacheStore).set ⟨.sequence, "s", "1"⟩ ⟨"b", "a", .cached, 0, 1⟩

def stationOf (cache : CacheStore) : Station := ⟨.new 1, cache, [], ∅⟩

def answering (answer : String → VersionAnswer) : Uploader := ⟨fun _ _ => .accepted, fun key _ => answer key.version⟩

def shifting : Uploader := answering fun version => .conflict (some (if version = "2" then "3" else "2"))

def overwriting : Uploader := answering fun version => if version = "1" then .conflict (some "2") else .unknown

def confirming : Uploader := answering fun _ => .confirmed

def atTwo : Clock := ⟨fun _ => 2, fun _ => 2⟩

end AteStudio.Offline
