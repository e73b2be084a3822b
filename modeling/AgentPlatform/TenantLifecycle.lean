/-
**The tenant lifecycle: legal holds, tenant deletion and the outbox of object deletions.**
-/

import AgentPlatform.DomainValues
import AgentPlatform.KeyedTable

namespace AgentPlatform

inductive ObjectKey where
  | sourceSnapshot (tenantId workspaceId snapshotId : Uuid)
  | workspaceCheckpoint (tenantId workspaceId runId checkpointId : Uuid)
  | finalPatch (tenantId workspaceId runId : Uuid) (executionEpoch : ℕ)
  | auditExport (tenantId exportId : Uuid)
  deriving DecidableEq

def ObjectKey.tenantId : ObjectKey → Uuid
  | sourceSnapshot t _ _ | workspaceCheckpoint t _ _ _ | finalPatch t _ _ _ | auditExport t _ => t

def ObjectKey.isAuditExport : ObjectKey → Bool
  | auditExport _ _ => true
  | _ => false

structure LegalHold where
  id : Uuid
  tenantId : Uuid
  reason : String
  placedBy : String
  placedAt : Timestamp
  expiresAt : Option Timestamp := none
  release : Option (String × Timestamp) := none
  expiry_follows : ∀ t ∈ expiresAt, placedAt < t := by simp
  release_follows : ∀ r ∈ release, placedAt ≤ r.2 := by simp
  deriving DecidableEq

def LegalHold.active (h : LegalHold) (at' : Timestamp) : Bool :=
  h.release.isNone && h.expiresAt.all fun t => decide (at' < t)

inductive ObjectDeletionReason where
  | retentionExpired | tenantDeletion
  deriving DecidableEq

inductive DeletionState where
  | pending (error : Option ErrorDetail)
  | running (workerId : String) (leaseToken : Uuid) (expiresAt : Timestamp)
  | completed (outcomeToken : Uuid) (completedAt : Timestamp)
  | failed (outcomeToken : Uuid) (error : ErrorDetail)
  deriving DecidableEq

def DeletionState.isPending : DeletionState → Bool
  | pending _ => true
  | _ => false

def DeletionState.isRunning : DeletionState → Bool
  | running _ _ _ => true
  | _ => false

def DeletionState.isCompleted : DeletionState → Bool
  | completed _ _ => true
  | _ => false

def DeletionState.isCompletedBy (token : Uuid) : DeletionState → Bool
  | completed outcome _ => decide (outcome = token)
  | _ => false

def DeletionState.isFailedBy (token : Uuid) : DeletionState → Bool
  | failed outcome _ => decide (outcome = token)
  | _ => false

structure ObjectDeletionJob where
  objectKey : ObjectKey
  artifactId : Option Uuid
  reason : ObjectDeletionReason
  state : DeletionState := .pending none
  leaseGeneration : ℕ := 0
  attempt : ℕ := 0
  createdAt : Timestamp
  updatedAt : Timestamp
  deriving DecidableEq

structure ObjectDeletionLease where
  objectKey : ObjectKey
  artifactId : Option Uuid
  reason : ObjectDeletionReason
  workerId : String
  leaseToken : Uuid
  leaseGeneration : ℕ
  attempt : ℕ
  expiresAt : Timestamp
  deriving DecidableEq

inductive ArtifactKind where
  | sourceSnapshot | workspaceCheckpoint | finalPatch | commandLog | evaluationReport
  deriving DecidableEq

def ArtifactKind.retentionSafe : ArtifactKind → Bool
  | finalPatch | commandLog | evaluationReport => true
  | sourceSnapshot | workspaceCheckpoint => false

structure ArtifactRecord where
  id : Uuid
  objectKey : ObjectKey
  kind : ArtifactKind
  expiresAt : Option Timestamp := none
  deriving DecidableEq

structure SourceSnapshotRecord where
  id : Uuid
  objectKey : ObjectKey
  deriving DecidableEq

structure DeletionRequest where
  requestId : Uuid
  requestedBy : String
  requestedAt : Timestamp
  deleteAfter : Timestamp
  auditExportId : Uuid
  deriving DecidableEq

inductive TenantStatus where
  | active
  | deletionRequested (request : DeletionRequest)
  | deleting (request : DeletionRequest) (startedAt : Timestamp)
  | deleted (request : DeletionRequest) (startedAt deletedAt : Timestamp)
  deriving DecidableEq

def TenantStatus.isActive : TenantStatus → Bool
  | active => true
  | _ => false

def TenantStatus.isDeleted : TenantStatus → Bool
  | deleted _ _ _ => true
  | _ => false

structure TenantLifecycle where
  tenantId : Uuid
  status : TenantStatus
  updatedAt : Timestamp
  deriving DecidableEq

structure AuditExport where
  id : Uuid
  tenantId : Uuid
  cutoffAt : Timestamp
  deriving DecidableEq

structure TenantRun where
  id : Uuid
  tenantId : Uuid
  status : RunStatus
  deriving DecidableEq

def RunStatus.nonterminal : RunStatus → Bool
  | .queued | .leased | .running | .waitingApproval | .retryPending | .lost => true
  | .completed | .failed | .cancelled => false

structure LifecycleStore where
  holds : List LegalHold := []
  jobs : List ObjectDeletionJob := []
  artifacts : List ArtifactRecord := []
  snapshots : List SourceSnapshotRecord := []
  tenants : List TenantLifecycle := []
  exports : List AuditExport := []
  runs : List TenantRun := []
  deriving DecidableEq

namespace LifecycleStore

variable (s : LifecycleStore)

def hasActiveHold (tenantId : Uuid) (occurredAt : Timestamp) : Bool :=
  s.holds.any fun h => decide (h.tenantId = tenantId) && h.active occurredAt

def requireNoHold (tenantId : Uuid) (occurredAt : Timestamp) : Except Failure Unit :=
  if s.hasActiveHold tenantId occurredAt then
    domainError "tenant_legal_hold_active" "tenant data is under an active legal hold"
  else .ok ()

def requireNoRunningDeletions (tenantId : Uuid) : Except Failure Unit :=
  if s.jobs.any fun j => decide (j.objectKey.tenantId = tenantId) && j.state.isRunning then
    domainError "legal_hold_cleanup_in_progress"
      "a legal hold cannot begin while object deletion is in progress"
  else .ok ()

def requireNoActiveRuns (tenantId : Uuid) : Except Failure Unit :=
  if s.runs.any fun r => decide (r.tenantId = tenantId) && r.status.nonterminal then
    domainError "tenant_runs_active" "tenant deletion requires every run to be terminal"
  else .ok ()

def hasJob (key : ObjectKey) : Bool := s.jobs.any fun j => decide (j.objectKey = key)

def requireObjectsDeleted (tenantId : Uuid) : Except Failure Unit :=
  let incomplete := s.jobs.any fun j =>
    decide (j.objectKey.tenantId = tenantId) && !j.state.isCompleted
  let unqueuedArtifact := s.artifacts.any fun a =>
    decide (a.objectKey.tenantId = tenantId) && !s.hasJob a.objectKey
  let unqueuedSnapshot := s.snapshots.any fun a =>
    decide (a.objectKey.tenantId = tenantId) && !s.hasJob a.objectKey
  if incomplete || unqueuedArtifact || unqueuedSnapshot then
    domainError "tenant_objects_not_deleted" "tenant object deletion is incomplete"
  else .ok ()

def tenant? (tenantId : Uuid) : Option TenantLifecycle :=
  KeyedTable.lookup TenantLifecycle.tenantId tenantId s.tenants

def status? (tenantId : Uuid) : Option TenantStatus :=
  (s.tenant? tenantId).map TenantLifecycle.status

def setTenant (row : TenantLifecycle) : LifecycleStore :=
  { s with tenants := KeyedTable.upsert TenantLifecycle.tenantId row s.tenants }

def job? (key : ObjectKey) : Option ObjectDeletionJob :=
  KeyedTable.lookup ObjectDeletionJob.objectKey key s.jobs

def setJob (row : ObjectDeletionJob) : LifecycleStore :=
  { s with jobs := KeyedTable.upsert ObjectDeletionJob.objectKey row s.jobs }

def placeLegalHold (hold : LegalHold) : Except Failure LifecycleStore := do
  s.requireNoRunningDeletions hold.tenantId
  if (s.tenant? hold.tenantId).any (·.status.isDeleted) then
    domainError "tenant_deleted" "a deleted tenant cannot receive a legal hold"
  else
    match KeyedTable.lookup LegalHold.id hold.id s.holds with
    | none => .ok { s with holds := s.holds ++ [hold] }
    | some row =>
      if row ≠ hold then
        domainError "legal_hold_conflict" "legal hold identity is already in use"
      else .ok s

def releaseLegalHold (tenantId holdId : Uuid) (releasedBy : String) (releasedAt : Timestamp) :
    Except Failure LifecycleStore :=
  match KeyedTable.lookup LegalHold.id holdId s.holds with
  | none => domainError "legal_hold_not_found" "legal hold does not exist"
  | some row =>
    if row.tenantId ≠ tenantId then
      domainError "legal_hold_not_found" "legal hold does not exist"
    else
      match row.release with
      | some (actor, _) =>
        if actor ≠ releasedBy then
          domainError "legal_hold_conflict" "legal hold was already released"
        else .ok s
      | none =>
        if h : releasedAt < row.placedAt then
          .error (.validation "legal-hold release may not precede placement")
        else
          let released : LegalHold :=
            { row with
              release := some (releasedBy, releasedAt)
              release_follows := by simpa using h }
          .ok { s with holds := KeyedTable.upsert LegalHold.id released s.holds }

def requestTenantDeletion (tenantId : Uuid) (request : DeletionRequest) :
    Except Failure LifecycleStore := do
  if request.deleteAfter < request.requestedAt then
    .error (.validation "delete_after may not precede requested_at")
  else
    match s.status? tenantId with
    | some (.deletionRequested current) | some (.deleting current _)
    | some (.deleted current _ _) =>
      if current = request then .ok s
      else domainError "tenant_deletion_conflict" "tenant deletion is already requested"
    | some .active | none =>
      s.requireNoHold tenantId request.requestedAt
      s.requireNoActiveRuns tenantId
      if s.exports.any fun e => decide (e.id = request.auditExportId) &&
          decide (e.tenantId = tenantId) && decide (e.cutoffAt = request.requestedAt) then
        .ok (s.setTenant
          { tenantId := tenantId, status := .deletionRequested request,
            updatedAt := request.requestedAt })
      else
        domainError "audit_export_required"
          "tenant deletion requires a completed audit export at the request cutoff"

def beginTenantDeletion (tenantId : Uuid) (occurredAt : Timestamp) :
    Except Failure LifecycleStore := do
  match s.status? tenantId with
  | none => domainError "tenant_deletion_not_requested" "tenant deletion is not requested"
  | some (.deleting _ _) => .ok s
  | some .active | some (.deleted _ _ _) =>
    domainError "tenant_deletion_conflict" "tenant cannot begin deletion"
  | some (.deletionRequested request) =>
    if occurredAt < request.deleteAfter then
      domainError "tenant_deletion_cooling_off"
        "tenant deletion cooling-off period has not completed"
    else
      s.requireNoHold tenantId occurredAt
      s.requireNoActiveRuns tenantId
      if s.exports.any fun e => decide (e.id = request.auditExportId) then
        .ok (s.setTenant
          { tenantId := tenantId, status := .deleting request occurredAt,
            updatedAt := occurredAt })
      else domainError "audit_export_required" "tenant audit export is not complete"

def insertDeletionJobs (candidates : List ObjectDeletionJob) : LifecycleStore :=
  { s with
    jobs := candidates.foldl (fun jobs c =>
      if jobs.any fun j => decide (j.objectKey = c.objectKey) then jobs else jobs ++ [c]) s.jobs }

def batchSizeError (limit : ℕ) : Option Failure :=
  if limit < 1 ∨ 1000 < limit then
    some (.validation "batch size must be between 1 and 1000")
  else none

def tenantCleanupAllowed (tenantId : Uuid) (occurredAt : Timestamp) : Bool :=
  !s.hasActiveHold tenantId occurredAt && (s.tenant? tenantId).all (·.status.isActive)

def enqueueExpiredArtifacts (occurredAt : Timestamp) (limit : ℕ) : Except Failure LifecycleStore :=
  match batchSizeError limit with
  | some e => .error e
  | none =>
    let expired := s.artifacts.filter fun a =>
      a.expiresAt.any (fun t => decide (t ≤ occurredAt)) && a.kind.retentionSafe &&
        s.tenantCleanupAllowed a.objectKey.tenantId occurredAt && !s.hasJob a.objectKey
    let rows := (expired.insertionSort fun a b =>
      a.expiresAt.getD 0 < b.expiresAt.getD 0 ∨
        a.expiresAt.getD 0 = b.expiresAt.getD 0 ∧ a.id ≤ b.id).take limit
    .ok (s.insertDeletionJobs (rows.map fun a =>
      { objectKey := a.objectKey, artifactId := some a.id, reason := .retentionExpired,
        createdAt := occurredAt, updatedAt := occurredAt }))

def enqueueTenantObjects (tenantId : Uuid) (limit : ℕ) (databaseNow : Timestamp) :
    Except Failure LifecycleStore := do
  match batchSizeError limit with
  | some e => .error e
  | none =>
    match s.tenant? tenantId with
    | some { status := .deleting _ _, updatedAt := updatedAt, .. } =>
      s.requireNoHold tenantId databaseNow
      let artifacts := ((s.artifacts.filter fun a =>
        decide (a.objectKey.tenantId = tenantId) && !s.hasJob a.objectKey).insertionSort
          fun a b => a.id ≤ b.id).take limit
      let queued := s.insertDeletionJobs (artifacts.map fun a =>
        { objectKey := a.objectKey, artifactId := some a.id, reason := .tenantDeletion,
          createdAt := updatedAt, updatedAt := updatedAt })
      let snapshots := ((queued.snapshots.filter fun a =>
        decide (a.objectKey.tenantId = tenantId) && !queued.hasJob a.objectKey).insertionSort
          fun a b => a.id ≤ b.id).take (limit - artifacts.length)
      .ok (queued.insertDeletionJobs (snapshots.map fun a =>
        { objectKey := a.objectKey, artifactId := none, reason := .tenantDeletion,
          createdAt := updatedAt, updatedAt := updatedAt }))
    | _ => domainError "tenant_deletion_not_started" "tenant deletion has not started"

def finalizeTenantDeletion (tenantId : Uuid) (occurredAt : Timestamp) :
    Except Failure LifecycleStore := do
  match s.status? tenantId with
  | none | some .active | some (.deletionRequested _) =>
    domainError "tenant_deletion_not_started" "tenant deletion has not started"
  | some (.deleted _ _ _) => .ok s
  | some (.deleting request startedAt) =>
    s.requireNoHold tenantId occurredAt
    s.requireNoActiveRuns tenantId
    s.requireObjectsDeleted tenantId
    let emptied : LifecycleStore :=
      { s with
        jobs := s.jobs.map fun j =>
          if j.objectKey.tenantId = tenantId then { j with artifactId := none } else j
        runs := s.runs.filter (·.tenantId ≠ tenantId)
        snapshots := s.snapshots.filter (·.objectKey.tenantId ≠ tenantId)
        artifacts := s.artifacts.filter (·.objectKey.tenantId ≠ tenantId) }
    .ok (emptied.setTenant
      { tenantId := tenantId, status := .deleted request startedAt occurredAt,
        updatedAt := occurredAt })

end LifecycleStore

def maxLifecycleAttempts : ℕ := 100

def ObjectDeletionJob.recover (occurredAt : Timestamp) (j : ObjectDeletionJob) :
    ObjectDeletionJob :=
  match j.state with
  | .running _ token expiresAt =>
    if expiresAt ≤ occurredAt then
      { j with
        state :=
          if j.attempt < maxLifecycleAttempts then
            .pending (some
              { code := "object_deletion_lease_expired"
                message := "the prior object deletion lease expired", retryable := true })
          else
            .failed token
              { code := "object_deletion_attempts_exhausted"
                message := "object deletion exhausted its retry limit" }
        updatedAt := occurredAt }
    else j
  | _ => j

def ObjectDeletionJob.claim (workerId : String) (token : Uuid) (occurredAt expiresAt : Timestamp)
    (j : ObjectDeletionJob) : ObjectDeletionJob :=
  { j with
    state := .running workerId token expiresAt
    leaseGeneration := j.leaseGeneration + 1
    attempt := j.attempt + 1
    updatedAt := occurredAt }

def ObjectDeletionJob.leased (workerId : String) (token : Uuid) (expiresAt : Timestamp)
    (j : ObjectDeletionJob) : ObjectDeletionLease :=
  { objectKey := j.objectKey, artifactId := j.artifactId, reason := j.reason
    workerId := workerId, leaseToken := token, leaseGeneration := j.leaseGeneration + 1
    attempt := j.attempt + 1, expiresAt := expiresAt }

def ObjectDeletionJob.matchesLease (j : ObjectDeletionJob) (lease : ObjectDeletionLease) : Bool :=
  decide (j.state = .running lease.workerId lease.leaseToken lease.expiresAt) &&
  decide (j.leaseGeneration = lease.leaseGeneration) && decide (j.attempt = lease.attempt) &&
  decide (j.artifactId = lease.artifactId) && decide (j.objectKey = lease.objectKey) &&
  decide (j.reason = lease.reason)

namespace LifecycleStore

variable (s : LifecycleStore)

def claimError (workerId : String) (leaseSeconds limit : ℕ) : Option Failure :=
  if pythonStrip workerId = "" ∨ 255 < workerId.utf8ByteSize ∨ '\x00' ∈ workerId.toList then
    some (.validation "worker_id must be nonempty and at most 255 UTF-8 bytes")
  else if leaseSeconds < 1 ∨ 300 < leaseSeconds then
    some (.validation "lease seconds must be between 1 and 300")
  else batchSizeError limit

/-- The oldest claimable jobs; `jobs` stands in the order of the ids, which decides between equals. -/
def claimable (jobs : List ObjectDeletionJob) (locked : List ObjectKey) (occurredAt : Timestamp)
    (limit : ℕ) : List ObjectDeletionJob :=
  ((jobs.filter fun j =>
    j.state.isPending && decide (j.attempt < maxLifecycleAttempts) &&
      decide (j.objectKey ∉ locked) &&
      !s.hasActiveHold j.objectKey.tenantId occurredAt).insertionSort
        fun a b => a.createdAt ≤ b.createdAt).take limit

def claimObjectDeletions (workerId : String) (occurredAt : Timestamp) (leaseSeconds limit : ℕ)
    (locked : List ObjectKey) (token : ObjectKey → Uuid) :
    Except Failure (List ObjectDeletionLease × LifecycleStore) :=
  match claimError workerId leaseSeconds limit with
  | some e => .error e
  | none =>
    let recovered := s.jobs.map (ObjectDeletionJob.recover occurredAt)
    let rows := s.claimable recovered locked occurredAt limit
    let expiresAt := occurredAt + leaseSeconds
    .ok (rows.map fun j => j.leased workerId (token j.objectKey) expiresAt,
      { s with
        jobs := recovered.map fun j =>
          if j ∈ rows then j.claim workerId (token j.objectKey) occurredAt expiresAt else j })

def leaseLost {α : Type} (message : String) : Except Failure α :=
  domainError "object_deletion_lease_lost" message

def completeObjectDeletion (lease : ObjectDeletionLease) (databaseNow : Timestamp) :
    Except Failure LifecycleStore :=
  match s.job? lease.objectKey with
  | none => leaseLost "object deletion lease is no longer valid"
  | some row =>
    if DeletionState.isCompletedBy lease.leaseToken row.state then .ok s
    else if row.matchesLease lease = false then
      leaseLost "object deletion lease is no longer valid"
    else if lease.expiresAt ≤ databaseNow then leaseLost "object deletion lease expired"
    else if databaseNow < row.createdAt then .error (.integrity "lifecycle")
    else
      let completed : ObjectDeletionJob :=
        { row with
          state := .completed lease.leaseToken databaseNow
          updatedAt := databaseNow
          artifactId := if row.reason = .retentionExpired then none else row.artifactId }
      let artifacts :=
        if row.reason = .retentionExpired then
          s.artifacts.filter fun a =>
            !(decide (a.objectKey.tenantId = lease.objectKey.tenantId) &&
              decide (some a.id = row.artifactId))
        else s.artifacts
      .ok ({ s with artifacts := artifacts }.setJob completed)

def failObjectDeletion (lease : ObjectDeletionLease) (error : ErrorDetail)
    (occurredAt databaseNow : Timestamp) : Except Failure LifecycleStore :=
  match s.job? lease.objectKey with
  | none => leaseLost "object deletion lease is no longer valid"
  | some row =>
    if DeletionState.isFailedBy lease.leaseToken row.state then .ok s
    else if row.matchesLease lease = false then
      leaseLost "object deletion lease is no longer valid"
    else if lease.expiresAt ≤ databaseNow ∨ occurredAt < row.updatedAt ∨
        lease.expiresAt ≤ occurredAt then
      leaseLost "object deletion lease expired"
    else
      let retry := error.retryable && decide (row.attempt < maxLifecycleAttempts)
      .ok (s.setJob
        { row with
          state := if retry then .pending (some error) else .failed lease.leaseToken error
          updatedAt := databaseNow })

end LifecycleStore

inductive LifecycleOp where
  | placeHold (hold : LegalHold)
  | releaseHold (tenantId holdId : Uuid) (releasedBy : String) (releasedAt : Timestamp)
  | requestDeletion (tenantId : Uuid) (request : DeletionRequest)
  | beginDeletion (tenantId : Uuid) (occurredAt : Timestamp)
  | enqueueExpired (occurredAt : Timestamp) (limit : ℕ)
  | enqueueTenant (tenantId : Uuid) (limit : ℕ) (databaseNow : Timestamp)
  | finalize (tenantId : Uuid) (occurredAt : Timestamp)
  | createArtifact (artifact : ArtifactRecord)
  | createSnapshot (snapshot : SourceSnapshotRecord)
  | recordExport (entry : AuditExport)
  | saveRun (run : TenantRun)

def insertUnlessTaken {α : Type} (taken : Bool) (row : α) (rows : List α) :
    Except Failure (List α) :=
  if taken then .error (.integrity "object_key") else .ok (rows ++ [row])

def LifecycleStore.perform (s : LifecycleStore) : LifecycleOp → Except Failure LifecycleStore
  | .placeHold hold => s.placeLegalHold hold
  | .releaseHold tenantId holdId by' at' => s.releaseLegalHold tenantId holdId by' at'
  | .requestDeletion tenantId request => s.requestTenantDeletion tenantId request
  | .beginDeletion tenantId at' => s.beginTenantDeletion tenantId at'
  | .enqueueExpired at' limit => s.enqueueExpiredArtifacts at' limit
  | .enqueueTenant tenantId limit now => s.enqueueTenantObjects tenantId limit now
  | .finalize tenantId at' => s.finalizeTenantDeletion tenantId at'
  | .createArtifact a => do
      let taken := s.artifacts.any fun b =>
        decide (b.id = a.id) || decide (b.objectKey = a.objectKey)
      return { s with artifacts := ← insertUnlessTaken taken a s.artifacts }
  | .createSnapshot a => do
      let taken := s.snapshots.any fun b =>
        decide (b.id = a.id) || decide (b.objectKey = a.objectKey)
      return { s with snapshots := ← insertUnlessTaken taken a s.snapshots }
  | .recordExport e => .ok { s with exports := s.exports ++ [e] }
  | .saveRun run => .ok { s with runs := KeyedTable.upsert TenantRun.id run s.runs }

end AgentPlatform
