import AteStudio.Lib.Runs
import AteStudio.Lib.Scan

/-!
# Settings of the workers (`ate_cloud/services/config_distribution.py`, `script_versioning.py`)

A key is made of the worker and its own key with dots between them, and a worker's entries are found by the beginning
of their keys.
-/

namespace AteStudio.Distribution

open List

abbrev Text := List Char

/-- `_worker_config_prefix`, and the prefix of `check_worker_version` and `sync_worker` -/
def workerPrefix (worker : Text) : Text := "workers.".toList ++ worker ++ ['.']

/-- `_worker_config_key`, and the key of `tag_worker` -/
def workerKey (worker key : Text) : Text := workerPrefix worker ++ key

def slashed (path : Text) : Text := path.map fun c => if c = '\\' then '/' else c

structure Tag where
  workerId : Text
  scriptPath : Text
  commitHash : Text
deriving DecidableEq

structure Store where
  configs : Dict Text Text := ∅
  tags : Dict Text Tag := ∅

/-- An entry can be deleted only in its bucket. -/
inductive Op where
  | putConfig (worker key value : Text)
  | deleteConfig (worker key : Text)
  | tagWorker (scriptPath worker commitHash : Text)
  | deleteTag (worker scriptPath : Text)

namespace Op

def worker : Op → Text
  | .putConfig w _ _ => w
  | .deleteConfig w _ => w
  | .tagWorker _ w _ => w
  | .deleteTag w _ => w

def key : Op → Text
  | .putConfig _ k _ => k
  | .deleteConfig _ k => k
  | .tagWorker path _ _ => slashed path
  | .deleteTag _ path => slashed path

def fullKey (op : Op) : Text := workerKey op.worker op.key

end Op

namespace Store

section Puts

/- The keys that a bucket takes. `put` and `get` raise for the others. -/
variable (accepts : Text → Bool)

def step (s : Store) (op : Op) : Store :=
  match op with
  | .putConfig _ _ value =>
    if accepts op.fullKey then { s with configs := s.configs.set op.fullKey value } else s
  | .deleteConfig _ _ => { s with configs := s.configs.erase op.fullKey }
  | .tagWorker _ w commitHash =>
    if accepts op.fullKey then { s with tags := s.tags.set op.fullKey ⟨w, op.key, commitHash⟩ } else s
  | .deleteTag _ _ => { s with tags := s.tags.erase op.fullKey }

/-- `put_batch` stops at the first key that the bucket does not take. -/
def putBatch (worker : Text) : Store → List (Text × Text) → Store
  | s, [] => s
  | s, (key, value) :: configs =>
    if accepts (workerKey worker key) then putBatch worker (s.step accepts (.putConfig worker key value)) configs else s

/-- `none` is the `RuntimeError` for a key that the bucket does not take. -/
def getConfig (s : Store) (worker key : Text) : Option (Option Text) :=
  if accepts (workerKey worker key) then some (s.configs.get? (workerKey worker key)) else none

end Puts

def getAllConfig (s : Store) (worker : Text) : List (Text × Text) :=
  s.configs.scan (workerPrefix worker <+: ·) fun key value => (key.drop (workerPrefix worker).length, value)

structure VersionDiff where
  scriptPath : Text
  taggedHash : Text
  currentHash : Text
  needsUpdate : Bool
deriving DecidableEq

section Versions

/- `get_head_commit_hash` -/
variable (head : Text → Option Text)

def versionDiff (tag : Tag) : VersionDiff where
  scriptPath := tag.scriptPath
  taggedHash := tag.commitHash
  currentHash := (head tag.scriptPath).getD tag.commitHash
  needsUpdate := ∃ h ∈ head tag.scriptPath, h ≠ tag.commitHash

def checkWorkerVersion (s : Store) (worker : Text) : List VersionDiff :=
  s.tags.scan (workerPrefix worker <+: ·) fun _ tag => versionDiff head tag

/-- The loop of `sync_worker`. A tag that cannot be written raises and ends it. -/
def syncKeys (accepts : Text → Bool) (worker : Text) : Store → List Text → Store
  | s, [] => s
  | s, key :: keys =>
    match (s.tags.get? key).bind fun tag => (head tag.scriptPath).filter (· ≠ tag.commitHash) |>.map fun h => (tag, h) with
    | none => syncKeys accepts worker s keys
    | some (tag, h) =>
      if accepts (workerKey worker (slashed tag.scriptPath)) then
        syncKeys accepts worker (s.step accepts (.tagWorker tag.scriptPath worker h)) keys
      else s

def syncWorker (accepts : Text → Bool) (s : Store) (worker : Text) : Store :=
  syncKeys head accepts worker s (s.tags.keys.filter (workerPrefix worker <+: ·))

end Versions

end Store

/-! ## Keys that clash -/

/-- With dots between its parts, the key of one worker begins like the keys of another. -/
def Clash (worker key reader : Text) : Prop :=
  reader ++ ['.'] <+: worker ∨ ∃ rest, reader = worker ++ '.' :: rest ∧ rest ++ ['.'] <+: key

theorem prefix_workerKey_iff {worker key reader : Text} (hne : worker ≠ reader) :
    workerPrefix reader <+: workerKey worker key ↔ Clash worker key reader := by
  have hdots : workerPrefix reader <+: workerKey worker key ↔ reader ++ ['.'] <+: worker ++ '.' :: key := by
    unfold workerKey workerPrefix
    generalize "workers.".toList = start
    rw [append_assoc, append_assoc, append_assoc, prefix_append_right_inj, singleton_append]
  rw [hdots]
  constructor
  · rintro ⟨z, hz⟩
    rw [append_assoc] at hz
    rcases append_eq_append_iff.mp hz with ⟨x, rfl, hx⟩ | ⟨x, rfl, hx⟩
    · cases x with
      | nil => simp at hne
      | cons c x =>
        obtain ⟨rfl, -⟩ := List.cons.inj hx
        exact Or.inl ⟨x, by simp⟩
    · cases x with
      | nil => simp at hne
      | cons c x =>
        obtain ⟨rfl, rfl⟩ := List.cons.inj hx
        exact Or.inr ⟨x, rfl, z, by simp⟩
  · rintro (⟨x, rfl⟩ | ⟨rest, rfl, z, rfl⟩)
    · exact ⟨x ++ '.' :: key, by simp⟩
    · exact ⟨z, by simp⟩

theorem workerKey_inj {worker key key' : Text} (h : workerKey worker key = workerKey worker key') : key = key' :=
  append_cancel_left h

theorem prefix_workerKey (worker key : Text) : workerPrefix worker <+: workerKey worker key := prefix_append _ _

/-! ## Isolation -/

open Store

section Isolation

variable (accepts : Text → Bool) (head : Text → Option Text) (reader : Text) (s : Store) (op : Op)

/-- What an operation leaves as it was: every other pair, and the listings of every other worker. -/
structure Isolated : Prop where
  config : ∀ key, (reader, key) ≠ (op.worker, op.key) →
    (s.step accepts op).getConfig accepts reader key = s.getConfig accepts reader key
  configs : reader ≠ op.worker → ((s.step accepts op).getAllConfig reader).Perm (s.getAllConfig reader)
  versions : reader ≠ op.worker → ∀ head,
    ((s.step accepts op).checkWorkerVersion head reader).Perm (s.checkWorkerVersion head reader)

/-- The entry is what the operation makes of it, or the bucket refuses the key. -/
def Idle : Prop :=
  match op with
  | .putConfig _ _ value => accepts op.fullKey → s.configs.get? op.fullKey = some value
  | .deleteConfig _ _ => s.configs.get? op.fullKey = none
  | .tagWorker _ _ commitHash => accepts op.fullKey →
    (s.tags.get? op.fullKey).map (fun tag => (tag.scriptPath, tag.commitHash)) = some (op.key, commitHash)
  | .deleteTag _ _ => s.tags.get? op.fullKey = none

/-- The operation is the reader's own, changes nothing, or its key does not clash. -/
def Apart : Prop :=
  op.worker = reader ∨ Idle accepts s op ∨ ¬ Clash op.worker op.key reader

variable {accepts}

theorem configs_step_of_ne {key : Text} (h : key ≠ op.fullKey) :
    (s.step accepts op).configs.get? key = s.configs.get? key := by
  cases op with
  | putConfig w k v =>
    simp only [step]
    split
    · exact Dict.get?_set_of_ne _ _ h
    · rfl
  | deleteConfig w k => simp only [step, Dict.get?_erase, if_neg h]
  | tagWorker path w c =>
    simp only [step]
    split <;> rfl
  | deleteTag w path => rfl

theorem tags_step_of_ne {key : Text} (h : key ≠ op.fullKey) :
    (s.step accepts op).tags.get? key = s.tags.get? key := by
  cases op with
  | putConfig w k v =>
    simp only [step]
    split <;> rfl
  | deleteConfig w k => rfl
  | tagWorker path w c =>
    simp only [step]
    split
    · exact Dict.get?_set_of_ne _ _ h
    · rfl
  | deleteTag w path => simp only [step, Dict.get?_erase, if_neg h]

theorem versionDiff_eq_iff (tag tag' : Tag) :
    versionDiff head tag = versionDiff head tag' ↔
      (tag.scriptPath, tag.commitHash) = (tag'.scriptPath, tag'.commitHash) := by
  constructor
  · intro h
    exact Prod.ext (congrArg VersionDiff.scriptPath h) (congrArg VersionDiff.taggedHash h)
  · intro h
    obtain ⟨hpath, hhash⟩ := Prod.ext_iff.mp h
    simp only at hpath hhash
    simp only [versionDiff, hpath, hhash]

theorem map_versionDiff_eq_iff (o o' : Option Tag) :
    o.map (versionDiff head) = o'.map (versionDiff head) ↔
      o.map (fun tag => (tag.scriptPath, tag.commitHash)) = o'.map (fun tag => (tag.scriptPath, tag.commitHash)) := by
  cases o <;> cases o' <;> simp [versionDiff_eq_iff]

theorem idle_iff :
    Idle accepts s op ↔ (s.step accepts op).configs.get? op.fullKey = s.configs.get? op.fullKey ∧
      ((s.step accepts op).tags.get? op.fullKey).map (fun tag => (tag.scriptPath, tag.commitHash)) =
        (s.tags.get? op.fullKey).map (fun tag => (tag.scriptPath, tag.commitHash)) := by
  cases op with
  | putConfig w k v =>
    simp only [Idle, step]
    split
    · next h => simpa [h] using eq_comm
    · next h => simp [h]
  | deleteConfig w k => simpa [Idle, step, Dict.get?_erase] using eq_comm
  | tagWorker path w c =>
    simp only [Idle, step]
    split
    · next h =>
      rw [Dict.get?_set_self, Option.map_some, forall_prop_of_true h]
      exact eq_comm.trans (and_iff_right rfl).symm
    · next h => simp [h]
  | deleteTag w path => cases h : s.tags.get? (Op.deleteTag w path).fullKey <;> simp [Idle, step, Dict.get?_erase, h]

theorem getAllConfig_perm_iff :
    ((s.step accepts op).getAllConfig reader).Perm (s.getAllConfig reader) ↔
      (workerPrefix reader <+: op.fullKey →
        (s.step accepts op).configs.get? op.fullKey = s.configs.get? op.fullKey) := by
  rw [getAllConfig, getAllConfig, Dict.scan_perm_iff fun key h => configs_step_of_ne s op h, decide_eq_true_eq]
  refine imp_congr_right fun _ => ?_
  exact (Option.map_injective fun v v' h => (Prod.mk.inj h).2).eq_iff

theorem checkWorkerVersion_perm_iff :
    ((s.step accepts op).checkWorkerVersion head reader).Perm (s.checkWorkerVersion head reader) ↔
      (workerPrefix reader <+: op.fullKey →
        ((s.step accepts op).tags.get? op.fullKey).map (fun tag => (tag.scriptPath, tag.commitHash)) =
          (s.tags.get? op.fullKey).map (fun tag => (tag.scriptPath, tag.commitHash))) := by
  rw [checkWorkerVersion, checkWorkerVersion, Dict.scan_perm_iff fun key h => tags_step_of_ne s op h, decide_eq_true_eq,
    map_versionDiff_eq_iff]

theorem isolated_iff :
    Isolated accepts reader s op ↔ Apart accepts reader s op := by
  constructor
  · intro h
    by_cases hworker : op.worker = reader
    · exact Or.inl hworker
    · refine Or.inr (or_iff_not_imp_right.mpr fun hclash => ?_)
      have hfound := (prefix_workerKey_iff hworker).mpr (not_not.mp hclash)
      refine (idle_iff s op).mpr ⟨?_, ?_⟩
      · exact (getAllConfig_perm_iff reader s op).mp (h.configs (Ne.symm hworker)) hfound
      · exact (checkWorkerVersion_perm_iff _ reader s op).mp (h.versions (Ne.symm hworker) fun _ => none) hfound
  · intro h
    -- another worker's entry that is found under the reader's prefix is left as it is
    have hkept : reader ≠ op.worker → workerPrefix reader <+: op.fullKey → Idle accepts s op := by
      intro hne hfound
      rcases h with hworker | hidle | hclash
      · exact absurd hworker.symm hne
      · exact hidle
      · exact absurd ((prefix_workerKey_iff (Ne.symm hne)).mp hfound) hclash
    refine ⟨fun key hpair => ?_, fun hne => ?_, fun hne head => ?_⟩
    · unfold getConfig
      by_cases hkey : workerKey reader key = op.fullKey
      · have hne : reader ≠ op.worker := by
          rintro rfl
          exact hpair (Prod.ext rfl (workerKey_inj hkey))
        have hidle := hkept hne (hkey ▸ prefix_workerKey reader key)
        rw [hkey, ((idle_iff s op).mp hidle).1]
      · rw [configs_step_of_ne s op hkey]
    · exact (getAllConfig_perm_iff reader s op).mpr fun hfound => ((idle_iff s op).mp (hkept hne hfound)).1
    · exact (checkWorkerVersion_perm_iff head reader s op).mpr fun hfound => ((idle_iff s op).mp (hkept hne hfound)).2

theorem isolation_iff (accepts : Text → Bool) (reader : Text) (ops : List Op) :
    Runs.Meets (step accepts) (Isolated accepts reader) {} ops ↔ Runs.Meets (step accepts) (Apart accepts reader) {} ops :=
  Runs.meets_congr fun s op => isolated_iff reader s op

/-! ## Batches and syncs -/

theorem putBatch_eq_run (worker : Text) (s : Store) (configs : List (Text × Text)) :
    ∃ ops : List Op, (∀ op ∈ ops, op.worker = worker) ∧ s.putBatch accepts worker configs = Runs.run (step accepts) s ops := by
  induction configs generalizing s with
  | nil => exact ⟨[], by simp, rfl⟩
  | cons e configs ih =>
    unfold putBatch
    split
    · obtain ⟨ops, hops, heq⟩ := ih (s.step accepts (.putConfig worker e.1 e.2))
      exact ⟨.putConfig worker e.1 e.2 :: ops, by simpa [Op.worker] using hops, heq⟩
    · exact ⟨[], by simp, rfl⟩

theorem syncKeys_eq_run (head : Text → Option Text) (worker : Text) (s : Store) (keys : List Text) :
    ∃ ops : List Op, (∀ op ∈ ops, op.worker = worker) ∧
      s.syncKeys head accepts worker keys = Runs.run (step accepts) s ops := by
  induction keys generalizing s with
  | nil => exact ⟨[], by simp, rfl⟩
  | cons key keys ih =>
    unfold syncKeys
    split
    · exact ih s
    · next tag h _ =>
      split
      · obtain ⟨ops, hops, heq⟩ := ih (s.step accepts (.tagWorker tag.scriptPath worker h))
        exact ⟨.tagWorker tag.scriptPath worker h :: ops, by simpa [Op.worker] using hops, heq⟩
      · exact ⟨[], by simp, rfl⟩

/-- The worker `cell.1` is configured, and the worker `cell` finds the setting among its own. -/
theorem not_isolated_cell :
    (step (fun _ => true) {} (.putConfig "cell.1".toList "rate".toList "10".toList)).getConfig (fun _ => true)
        "cell".toList "1.rate".toList = some (some "10".toList) ∧
      ¬ Runs.Meets (step fun _ => true) (Isolated (fun _ => true) "cell".toList) {}
        [.putConfig "cell.1".toList "rate".toList "10".toList] := by
  have hread : (step (fun _ => true) {} (.putConfig "cell.1".toList "rate".toList "10".toList)).getConfig (fun _ => true)
      "cell".toList "1.rate".toList = some (some "10".toList) := by decide +kernel
  refine ⟨hread, fun h => ?_⟩
  have hconfig := h.1.config "1.rate".toList (by decide +kernel)
  rw [hread] at hconfig
  revert hconfig
  decide +kernel

end Isolation

end AteStudio.Distribution
