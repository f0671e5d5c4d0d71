import AteStudio.Offline.Locks
import AteStudio.Offline.UploadQueue

/-!
# The reconciliation (`offline/reconciliation.py`)

Nothing is offered twice in one reconciliation, so what the uploader answers is a function of what it is asked.
-/

namespace AteStudio.Offline

inductive UploadAnswer where
  | accepted
  | rejected
  | raised
deriving DecidableEq

inductive VersionAnswer where
  | confirmed
  | conflict (newVersion : Option String)
  -- any other outcome
  | unknown
  | raised
deriving DecidableEq

/-- The transport. What `report_script` answers is not looked at. -/
structure Uploader where
  uploadRecord : Nat → UploadRecord → UploadAnswer
  resolveVersion : CacheKey → String → VersionAnswer

/-- When a record is acknowledged, and when a successor is stored. -/
structure Clock where
  ackedAt : Nat → Rat
  storedAt : CacheKey → Rat

structure QuarantinedItem where
  reason : String
  stationId : Option String := none
  executionId : Option String := none
  seqNo : Option Int := none
  kind : Option String := none
  entryId : Option String := none
  version : Option String := none
  detail : String
deriving DecidableEq

structure ReconcileReport where
  uploaded : Nat := 0
  acked : Nat := 0
  confirmedEntries : Nat := 0
  conflictsResolved : Nat := 0
  quarantined : Nat := 0
  locksReleased : Nat := 0
  quarantine : List QuarantinedItem := []
deriving DecidableEq

structure ScriptStatus where
  scriptId : String
  version : String
  intact : Bool
deriving DecidableEq

structure Station where
  queue : UploadQueue
  cache : CacheStore
  scripts : List ScriptStatus
  locks : Dict (Kind × String) VersionLock
deriving DecidableEq

def Kind.name : Kind → String
  | .sequence => "sequence"
  | .topology => "topology"

def ReconcileReport.isolate (report : ReconcileReport) (item : QuarantinedItem) : ReconcileReport :=
  { report with quarantine := report.quarantine ++ [item], quarantined := report.quarantined + 1 }

/-! ## The upload queue -/

def recordQuarantined (reason : String) (record : UploadRecord) : QuarantinedItem where
  reason := reason
  stationId := some record.stationId
  executionId := some record.executionId
  seqNo := some record.seqNo
  detail := "payload preserved at " ++ record.payloadPath

def flushRecord (uploader : Uploader) (clock : Clock) (s : UploadQueue × ReconcileReport) (entry : Nat × UploadRecord) :
    UploadQueue × ReconcileReport :=
  let (id, record) := entry
  match uploader.uploadRecord id record with
  | .accepted =>
    let queue := s.1.markUploaded id
    let acked := if queue.acks id then s.2.acked + 1 else s.2.acked
    (queue.markAcked id (clock.ackedAt id), { s.2 with acked, uploaded := s.2.uploaded + 1 })
  | .rejected => (s.1.recordRetry id, s.2.isolate (recordQuarantined "upload_rejected" record))
  | .raised => (s.1.recordRetry id, s.2.isolate (recordQuarantined "upload_transport_error" record))

def flushUploadQueue (uploader : Uploader) (clock : Clock) (queue : UploadQueue) (report : ReconcileReport) :
    UploadQueue × ReconcileReport :=
  queue.listPending.foldl (flushRecord uploader clock) (queue, report)

/-! ## The cached versions -/

def entryQuarantined (key : CacheKey) : QuarantinedItem where
  reason := "version_conflict"
  kind := some key.kind.name
  entryId := some key.id
  version := some key.version
  detail := "server conflict without usable new_version; local row preserved"

def usableVersion? (key : CacheKey) (newVersion : Option String) : Option String :=
  newVersion.filter fun new => new ≠ "" ∧ new ≠ key.version

section Code

variable (sha256 : String → String) (uploader : Uploader) (clock : Clock)

def applyConflictNewVersion (cache : CacheStore) (key : CacheKey) (newVersion : Option String) : Option CacheStore :=
  match usableVersion? key newVersion with
  | none => none
  | some new =>
    match cache.getUsable sha256 key.kind key.id (some key.version) false with
    | .error _ => none
    | .ok payload =>
      match cache.store sha256 { key with version := new } payload none (clock.storedAt key) with
      | .error _ => none
      | .ok stored => some ((stored.markAcked { key with version := new }).delete key)

/-- One entry of the listing, which is not read again while the cache changes. -/
def resolveEntry (s : CacheStore × ReconcileReport) (entry : CacheKey × CacheRow) : CacheStore × ReconcileReport :=
  if entry.2.state ≠ .cached then s
  else
    match uploader.resolveVersion entry.1 entry.2.checksum with
    | .raised => s
    | .confirmed => (s.1.markAcked entry.1, { s.2 with confirmedEntries := s.2.confirmedEntries + 1 })
    | .unknown => s
    | .conflict newVersion =>
      match applyConflictNewVersion sha256 clock s.1 entry.1 newVersion with
      | some cache => (cache, { s.2 with conflictsResolved := s.2.conflictsResolved + 1 })
      | none => (s.1, s.2.isolate (entryQuarantined entry.1))

def resolveCacheVersions (cache : CacheStore) (report : ReconcileReport) : CacheStore × ReconcileReport :=
  cache.listAll.foldl (resolveEntry sha256 uploader clock) (cache, report)

/-! ## The scripts, and all four -/

def scriptQuarantined (script : ScriptStatus) : QuarantinedItem where
  reason := "script_corrupt"
  kind := some "script"
  entryId := some script.scriptId
  version := some script.version
  detail := "read-time SHA256 verification failed; files preserved on disk"

def sweepScripts (scripts : List ScriptStatus) (report : ReconcileReport) : ReconcileReport :=
  scripts.foldl (fun report script => if script.intact then report else report.isolate (scriptQuarantined script)) report

def reconcile (station : Station) : Station × ReconcileReport :=
  let (queue, report) := flushUploadQueue uploader clock station.queue {}
  let (cache, report) := resolveCacheVersions sha256 uploader clock station.cache report
  let report := sweepScripts station.scripts report
  ({ station with queue, cache, locks := ∅ }, { report with locksReleased := station.locks.entries.length })

end Code

end AteStudio.Offline
