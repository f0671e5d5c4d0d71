import AteStudio.Lib.Dict
import AteStudio.Lib.Except

/-!
# The cache store (`offline/cache_store.py`)

Only an acknowledged row whose checksum fits its payload is usable offline.
-/

namespace AteStudio.Offline

open List

inductive Kind where
  | sequence
  | topology
deriving DecidableEq

inductive CacheState where
  | cached
  | acked
deriving DecidableEq

structure CacheKey where
  kind : Kind
  id : String
  version : String
deriving DecidableEq

structure CacheRow where
  payload : String
  checksum : String
  state : CacheState
  createdAt : Rat
  rowid : Nat
deriving DecidableEq

abbrev CacheStore := Dict CacheKey CacheRow

inductive CacheError where
  | valueError
  | miss
  | versionMismatch
  | corruption
  | notAcked
deriving DecidableEq

namespace CacheStore

def age (row : CacheRow) : Rat ×ₗ Nat := toLex (row.createdAt, row.rowid)

def Before (a b : CacheKey × CacheRow) : Prop := a.1.id < b.1.id ∨ a.1.id = b.1.id ∧ age b.2 ≤ age a.2

instance (a b : CacheKey × CacheRow) : Decidable (Before a b) := inferInstanceAs (Decidable (_ ∨ _))

variable (sha256 : String → String) (cache : CacheStore) (kind : Kind)

def listCached : List (CacheKey × CacheRow) :=
  (cache.entries.filter (·.1.kind = kind)).insertionSort Before

def listAll : List (CacheKey × CacheRow) := cache.listCached .sequence ++ cache.listCached .topology

def rowsOf (id : String) : List (CacheKey × CacheRow) :=
  (cache.listCached kind).filter (·.1.id = id)

def select (id : String) : Option String → Except CacheError CacheRow
  | none =>
    match (cache.rowsOf kind id).head? with
    | some entry => .ok entry.2
    | none => .error .miss
  | some version =>
    match cache.get? ⟨kind, id, version⟩ with
    | some row => .ok row
    | none => .error (if (cache.rowsOf kind id).isEmpty then .miss else .versionMismatch)

def nextRowid : Nat :=
  ((cache.listCached kind).map (·.2.rowid)).foldr max 0 + 1

def markAcked (key : CacheKey) : CacheStore := cache.update key ({ · with state := .acked })

def delete (key : CacheKey) : CacheStore := cache.erase key

def doomed (keepLastN : Int) (key : CacheKey) : Bool :=
  key.kind = kind && ((cache.rowsOf kind key.id).drop keepLastN.toNat).any (·.1 = key)

def prune (keepLastN : Int) : Except CacheError CacheStore :=
  if keepLastN < 1 then .error .valueError
  else .ok (cache.filter fun key _ => !cache.doomed kind keepLastN key)

def intact (row : CacheRow) : Bool := sha256 row.payload = row.checksum

def getUsable (id : String) (version : Option String) (requireAcked : Bool) : Except CacheError String := do
  let row ← cache.select kind id version
  if !intact sha256 row then
    .error .corruption
  else if requireAcked && row.state ≠ .acked then
    .error .notAcked
  else
    .ok row.payload

def unchanged (key : CacheKey) (payload : String) : Bool :=
  (cache.get? key).any fun row => row.payload = payload && row.checksum = sha256 payload

def insertOrReplace (key : CacheKey) (payload : String) (now : Rat) : CacheStore :=
  cache.set key ⟨payload, sha256 payload, .cached, now, cache.nextRowid key.kind⟩

/-- `_store`. The same payload again keeps the row and its state. -/
def store (key : CacheKey) (payload : String) (checksum : Option String) (now : Rat) :
    Except CacheError CacheStore :=
  if checksum.any (· ≠ sha256 payload) then .error .valueError
  else if cache.unchanged sha256 key payload then .ok cache
  else .ok (cache.insertOrReplace sha256 key payload now)

/-! ## What is listed and what is read -/

variable {cache : CacheStore} {kind : Kind} {id : String} {entry : CacheKey × CacheRow}

theorem mem_listCached : entry ∈ cache.listCached kind ↔ entry.1.kind = kind ∧ cache.get? entry.1 = some entry.2 := by
  rw [listCached, mem_insertionSort, mem_filter, Dict.get?_eq_some_iff, decide_eq_true_iff, and_comm]

theorem mem_listAll : entry ∈ cache.listAll ↔ cache.get? entry.1 = some entry.2 := by
  rw [listAll, mem_append, mem_listCached, mem_listCached]
  cases entry.1.kind <;> simp

theorem nodup_listCached (cache : CacheStore) (kind : Kind) : ((cache.listCached kind).map Prod.fst).Nodup :=
  ((perm_insertionSort _ _).map Prod.fst).nodup_iff.mpr ((filter_sublist.map _).nodup cache.nodup)

theorem nodup_listAll (cache : CacheStore) : (cache.listAll.map Prod.fst).Nodup := by
  rw [listAll, map_append, nodup_append]
  refine ⟨cache.nodup_listCached _, cache.nodup_listCached _, ?_⟩
  rintro _ hsequence _ htopology rfl
  obtain ⟨first, hfirst, hkey⟩ := mem_map.mp hsequence
  obtain ⟨second, hsecond, hkey'⟩ := mem_map.mp htopology
  have hkind := (mem_listCached.mp hfirst).1
  rw [hkey, ← hkey', (mem_listCached.mp hsecond).1] at hkind
  cases hkind

theorem select_version {version : String} {row : CacheRow} :
    cache.select kind id (some version) = .ok row ↔ cache.get? ⟨kind, id, version⟩ = some row := by
  unfold select
  dsimp only
  split
  · next found hfound => rw [hfound, Except.ok.injEq, Option.some.injEq]
  · next hnone => simp [hnone]

variable {sha256 : String → String}

theorem store_eq (key : CacheKey) (payload : String) (checksum : Option String) (now : Rat) :
    cache.store sha256 key payload checksum now =
      if checksum.all (· = sha256 payload) then
        .ok (if cache.unchanged sha256 key payload then cache else cache.insertOrReplace sha256 key payload now)
      else .error .valueError := by
  have hnot : checksum.any (· ≠ sha256 payload) = !checksum.all (· = sha256 payload) := by
    cases checksum <;> simp
  unfold store
  rw [hnot]
  cases Option.all (fun c => decide (c = sha256 payload)) checksum with
  | false => rfl
  | true => exact (apply_ite Except.ok _ _ _).symm

theorem getUsable_ok {version : Option String} {requireAcked : Bool} {payload : String}
    (h : cache.getUsable sha256 kind id version requireAcked = .ok payload) :
    ∃ row, cache.select kind id version = .ok row ∧ intact sha256 row = true ∧
      (requireAcked = true → row.state = .acked) ∧ row.payload = payload := by
  obtain ⟨row, hrow, h⟩ := bind_eq_ok.mp h
  split at h
  · cases h
  · next hintact =>
    split at h
    · cases h
    · next hacked =>
      cases h
      refine ⟨row, hrow, by simpa using hintact, fun hrequire => ?_, rfl⟩
      simpa [hrequire] using hacked

end CacheStore

end AteStudio.Offline
