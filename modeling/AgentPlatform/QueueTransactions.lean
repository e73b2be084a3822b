/-
**The queue's transactions, statement by statement.**
-/

import AgentPlatform.Fleet
import AgentPlatform.RowLocking

namespace AgentPlatform

open RowLocking

inductive RunPriorityClass where
  | interactive | background | evaluation
  deriving DecidableEq

structure TenantQuota where
  maxActiveRuns : ℕ := 4
  maxQueuedRuns : ℕ := 100
  deriving DecidableEq

structure TenantQuotaRecord where
  tenantId : Uuid
  quota : TenantQuota
  deriving DecidableEq

structure RunColumns where
  tenantId : Uuid
  runId : Uuid
  sessionId : Uuid
  idempotencyKey : String
  creationHash : String
  priorityClass : RunPriorityClass
  priority : ℤ
  deriving DecidableEq

structure SessionRecord where
  tenantId : Uuid
  id : Uuid
  workspaceId : Uuid
  deriving DecidableEq

structure QueueAdmissionRecord where
  globalQueueLimit : ℕ
  retryAfter : ℕ
  updatedAt : Timestamp
  deriving DecidableEq

structure QueueTables where
  fleet : Fleet := {}
  columns : List RunColumns := []
  quotas : List TenantQuotaRecord := []
  sessions : List SessionRecord := []
  admission : Option QueueAdmissionRecord := none
  deriving DecidableEq

inductive QueueRow where
  | worker (workerId : String)
  | run (key : Uuid × Uuid)
  | lease (key : Uuid × Uuid)
  | workspace (key : Uuid × Uuid)
  | quota (tenantId : Uuid)
  | session (key : Uuid × Uuid)
  | admission
  deriving DecidableEq

namespace QueueTables

def quota? (t : QueueTables) (tenantId : Uuid) : Option TenantQuotaRecord :=
  KeyedTable.lookup TenantQuotaRecord.tenantId tenantId t.quotas

def session? (t : QueueTables) (key : Uuid × Uuid) : Option SessionRecord :=
  t.sessions.find? fun s => s.tenantId = key.1 && s.id = key.2

def creationRecord (t : QueueTables) (tenantId sessionId : Uuid) (key : String) :
    Option RunColumns :=
  t.columns.find? fun c => c.tenantId = tenantId && c.sessionId = sessionId && c.idempotencyKey = key

def activeRuns (t : QueueTables) (tenantId : Uuid) : ℕ :=
  t.fleet.runs.countP fun r => r.store.lease.any (·.tenantId = tenantId)

def workspaceOf (t : QueueTables) (token : Uuid) : Option WorkspaceLeaseRecord :=
  t.fleet.workspaces.find? fun w => w.owner.any (·.runLeaseToken = token)

end QueueTables

structure ClaimCall where
  workerId : String
  token : Uuid
  workspaceToken : Uuid
  occurredAt : Timestamp
  expiresAt : Timestamp
  defaultQuota : TenantQuota := {}
  priorityAging : ℕ := 300
  deriving DecidableEq

structure Candidate where
  tenantId : Uuid
  runId : Uuid
  workspaceId : Uuid
  deriving DecidableEq

def Candidate.key (c : Candidate) : Uuid × Uuid := (c.tenantId, c.runId)

def Candidate.workspaceKey (c : Candidate) : Uuid × Uuid := (c.tenantId, c.workspaceId)

inductive ClaimStage where
  | lockWorker
  | selectCandidate
  | insertQuota (c : Candidate)
  | lockQuota (c : Candidate)
  | countActive (c : Candidate)
  | insertWorkspace (c : Candidate)
  | lockWorkspace (c : Candidate)
  | take (c : Candidate)
  deriving DecidableEq

structure ClaimState where
  stage : ClaimStage := .lockWorker
  skipped : List (Uuid × Uuid) := []
  quotas : List TenantQuotaRecord := []
  workspaces : List WorkspaceLeaseRecord := []
  held : List QueueRow := []
  deriving DecidableEq

def maxClaimCandidates : ℕ := 1000

def RunPriorityClass.rank : RunPriorityClass → ℕ
  | .interactive => 2
  | .background => 1
  | .evaluation => 0

def ageBoost (aging : ℕ) (now createdAt : Timestamp) : ℕ := min 2 ((now - createdAt) / aging)

def QueueTables.ranksBefore (t : QueueTables) (aging : ℕ) (now : Timestamp) (a b : FleetRun) : Bool :=
  let columns (r : FleetRun) := t.columns.find? fun c => (c.tenantId, c.runId) = r.key
  let score (r : FleetRun) :=
    (columns r).elim 0 (·.priorityClass.rank) + ageBoost aging now r.store.run.createdAt
  let priority (r : FleetRun) : ℤ := (columns r).elim 0 (·.priority)
  if score a ≠ score b then score b < score a
  else if priority a ≠ priority b then priority b < priority a
  else if a.store.run.createdAt ≠ b.store.run.createdAt then
    a.store.run.createdAt < b.store.run.createdAt
  else a.store.run.id ≤ b.store.run.id

def QueueTables.claimable (t : QueueTables) (r : FleetRun) : Bool :=
  r.store.run.status = .queued && !r.store.run.cancellationRequested &&
    !(t.fleet.workspace? r.store.run.tenantId r.store.run.workspaceId).any (·.owner.isSome)

def QueueTables.candidate? (t : QueueTables) (locked : QueueRow → Bool) (call : ClaimCall)
    (skipped : List (Uuid × Uuid)) : Option Candidate :=
  let selectable := t.fleet.runs.filter fun r =>
    t.claimable r && !locked (.run r.key) && !skipped.contains r.key
  let ranked := selectable.insertionSort fun a b =>
    t.ranksBefore call.priorityAging call.occurredAt a b = true
  ranked.head?.map fun r =>
    { tenantId := r.store.run.tenantId, runId := r.store.run.id
      workspaceId := r.store.run.workspaceId }

namespace ClaimState

def view (st : ClaimState) (t : QueueTables) : QueueTables :=
  { t with
    quotas := t.quotas ++ st.quotas
    fleet := { t.fleet with workspaces := t.fleet.workspaces ++ st.workspaces } }

def request (st : ClaimState) (t : QueueTables) (call : ClaimCall) : Option QueueRow :=
  match st.stage with
  | .lockWorker => (t.fleet.worker? call.workerId).map fun _ => .worker call.workerId
  | .insertQuota c =>
    if ((st.view t).quota? c.tenantId).isSome then none else some (.quota c.tenantId)
  | .lockQuota c => some (.quota c.tenantId)
  | .insertWorkspace c =>
    if ((st.view t).fleet.workspace? c.tenantId c.workspaceId).isSome then none
    else some (.workspace c.workspaceKey)
  | .selectCandidate | .countActive _ | .lockWorkspace _ | .take _ => none

def skip (st : ClaimState) (c : Candidate) : ClaimState :=
  { st with stage := .selectCandidate, skipped := c.key :: st.skipped }

def execute (st : ClaimState) (t : QueueTables) (locked : QueueRow → Bool) (call : ClaimCall) :
    Outcome QueueTables ClaimState :=
  match st.stage with
  | .lockWorker =>
    match t.fleet.worker? call.workerId with
    | none => .rolledBack
    | some worker =>
      if worker.status ≠ .active ∨ worker.availableSlots = 0 then .committed t
      else .running { st with stage := .selectCandidate, held := .worker call.workerId :: st.held }
  | .selectCandidate =>
    if maxClaimCandidates ≤ st.skipped.length then .committed (st.view t)
    else
      match t.candidate? locked call st.skipped with
      | none => .committed (st.view t)
      | some c => .running { st with stage := .insertQuota c, held := .run c.key :: st.held }
  | .insertQuota c =>
    if ((st.view t).quota? c.tenantId).isSome then .running { st with stage := .lockQuota c }
    else
      .running { st with
        stage := .lockQuota c
        quotas := st.quotas ++ [{ tenantId := c.tenantId, quota := call.defaultQuota }]
        held := .quota c.tenantId :: st.held }
  | .lockQuota c =>
    match (st.view t).quota? c.tenantId with
    | none => .rolledBack
    | some _ => .running { st with stage := .countActive c, held := .quota c.tenantId :: st.held }
  | .countActive c =>
    match (st.view t).quota? c.tenantId with
    | none => .rolledBack
    | some row =>
      if row.quota.maxActiveRuns ≤ t.activeRuns c.tenantId then .running (st.skip c)
      else .running { st with stage := .insertWorkspace c }
  | .insertWorkspace c =>
    if ((st.view t).fleet.workspace? c.tenantId c.workspaceId).isSome then
      .running { st with stage := .lockWorkspace c }
    else
      .running { st with
        stage := .lockWorkspace c
        workspaces := st.workspaces ++ [{ tenantId := c.tenantId, workspaceId := c.workspaceId }]
        held := .workspace c.workspaceKey :: st.held }
  | .lockWorkspace c =>
    if locked (.workspace c.workspaceKey) then .running (st.skip c)
    else
      match (st.view t).fleet.workspace? c.tenantId c.workspaceId with
      | none => .running (st.skip c)
      | some w =>
        let st' := { st with held := .workspace c.workspaceKey :: st.held }
        if w.owner.isSome then .running (st'.skip c)
        else .running { st' with stage := .take c }
  | .take c =>
    -- the unique constraint on the lease token
    if t.fleet.runs.any fun r => r.store.lease.any (·.leaseToken = call.token) then .rolledBack
    else
      match (st.view t).fleet.claim call.workerId c.tenantId c.runId call.token
          call.workspaceToken call.occurredAt call.expiresAt with
      | .ok (some _, f) => .committed { st.view t with fleet := f }
      | _ => .rolledBack

end ClaimState

structure CreateCall where
  submission : Submission
  withTask : Bool := true
  idempotencyKey : String
  creationHash : String
  priorityClass : RunPriorityClass := .interactive
  priority : ℤ := 0
  defaultQuota : TenantQuota := {}
  globalQueueLimit : ℕ := 10000
  retryAfter : ℕ := 1

inductive CreateStage where
  | findExisting
  | lockSession
  | insertQuota
  | lockQuota
  | recheck
  | insertAdmission
  | lockAdmission
  | insertRun
  deriving DecidableEq

structure CreateState where
  stage : CreateStage := .findExisting
  quotas : List TenantQuotaRecord := []
  admission : Option QueueAdmissionRecord := none
  held : List QueueRow := []
  deriving DecidableEq

def CreateCall.store (call : CreateCall) : RunStore :=
  if call.withTask then submit call.submission
  else { submit call.submission with messages := [], taskPlans := [] }

def RunStatus.waitsInQueue : RunStatus → Bool
  | .queued | .waitingApproval | .retryPending | .lost => true
  | _ => false

namespace CreateState

def view (st : CreateState) (t : QueueTables) : QueueTables :=
  { t with quotas := t.quotas ++ st.quotas, admission := st.admission <|> t.admission }

def existing (t : QueueTables) (call : CreateCall) : Option RunColumns :=
  t.creationRecord call.submission.tenantId call.submission.sessionId call.idempotencyKey

def admitted (st : CreateState) (t : QueueTables) (call : CreateCall) : Bool :=
  let queued (p : FleetRun → Bool) :=
    t.fleet.runs.countP fun r => r.store.run.status.waitsInQueue && p r
  ((st.view t).quota? call.submission.tenantId).any
      (fun row => queued (·.store.run.tenantId = call.submission.tenantId) < row.quota.maxQueuedRuns) &&
    (st.view t).admission.any (fun row => queued (fun _ => true) < row.globalQueueLimit)

def session (t : QueueTables) (call : CreateCall) : Option SessionRecord :=
  (t.session? (call.submission.tenantId, call.submission.sessionId)).filter
    (·.workspaceId = call.submission.workspaceId)

def request (st : CreateState) (t : QueueTables) (call : CreateCall) : Option QueueRow :=
  match st.stage with
  | .findExisting | .recheck => (existing t call).map fun c => .run (c.tenantId, c.runId)
  | .lockSession =>
    (t.session? (call.submission.tenantId, call.submission.sessionId)).map fun _ =>
      .session (call.submission.tenantId, call.submission.sessionId)
  | .insertQuota =>
    if ((st.view t).quota? call.submission.tenantId).isSome then none
    else some (.quota call.submission.tenantId)
  | .lockQuota => some (.quota call.submission.tenantId)
  | .insertAdmission => if (st.view t).admission.isSome then none else some .admission
  | .lockAdmission => some .admission
  | .insertRun =>
    if st.admitted t call && (session t call).isSome && !call.withTask then
      some (.session (call.submission.tenantId, call.submission.sessionId))
    else none

def execute (st : CreateState) (t : QueueTables) (call : CreateCall) :
    Outcome QueueTables CreateState :=
  match st.stage with
  | .findExisting =>
    match existing t call with
    | some _ => .committed t
    | none =>
      .running { st with stage := if call.withTask then .lockSession else .insertQuota }
  | .lockSession =>
    match session t call with
    | none => .rolledBack
    | some _ =>
      .running { st with
        stage := .insertQuota
        held := .session (call.submission.tenantId, call.submission.sessionId) :: st.held }
  | .insertQuota =>
    if ((st.view t).quota? call.submission.tenantId).isSome then
      .running { st with stage := .lockQuota }
    else
      .running { st with
        stage := .lockQuota
        quotas := st.quotas ++
          [{ tenantId := call.submission.tenantId, quota := call.defaultQuota }]
        held := .quota call.submission.tenantId :: st.held }
  | .lockQuota =>
    match (st.view t).quota? call.submission.tenantId with
    | none => .rolledBack
    | some _ =>
      .running { st with stage := .recheck, held := .quota call.submission.tenantId :: st.held }
  | .recheck =>
    match existing t call with
    | some _ => .committed (st.view t)
    | none => .running { st with stage := .insertAdmission }
  | .insertAdmission =>
    if (st.view t).admission.isSome then .running { st with stage := .lockAdmission }
    else
      .running { st with
        stage := .lockAdmission
        admission := some
          { globalQueueLimit := call.globalQueueLimit, retryAfter := call.retryAfter
            updatedAt := call.submission.createdAt }
        held := .admission :: st.held }
  | .lockAdmission =>
    match (st.view t).admission with
    | none => .rolledBack
    | some row =>
      let st' := { st with stage := .insertRun, held := .admission :: st.held }
      if row.globalQueueLimit ≠ call.globalQueueLimit ∨ row.retryAfter ≠ call.retryAfter then
        if call.submission.createdAt < row.updatedAt then .rolledBack
        else
          .running { st' with
            admission := some
              { globalQueueLimit := call.globalQueueLimit, retryAfter := call.retryAfter
                updatedAt := call.submission.createdAt } }
      else .running st'
  | .insertRun =>
    if !st.admitted t call then .rolledBack
    else if (existing t call).isSome then .committed (st.view t)
    else if (t.fleet.runs.any fun r => r.store.run.id = call.submission.runId) ∨
        (session t call).isNone then .rolledBack
    else
      .committed { st.view t with
        fleet := { t.fleet with runs := t.fleet.runs ++ [{ store := call.store }] }
        columns := t.columns ++
          [{ tenantId := call.submission.tenantId, runId := call.submission.runId
             sessionId := call.submission.sessionId, idempotencyKey := call.idempotencyKey
             creationHash := call.creationHash, priorityClass := call.priorityClass
             priority := call.priority }] }

end CreateState

structure FinishCall where
  lease : RunLease
  result : RunExecutionResult
  occurredAt : Timestamp
  deriving DecidableEq

def FinishCall.key (call : FinishCall) : Uuid × Uuid := (call.lease.tenantId, call.lease.runId)

inductive FinishStage where
  | lockLease
  | lockRun
  | lockWorkspace
  | lockWorker
  deriving DecidableEq

structure FinishState where
  stage : FinishStage := .lockLease
  held : List QueueRow := []
  deriving DecidableEq

namespace FinishState

def leaseRow (t : QueueTables) (call : FinishCall) : Option RunLeaseRecord :=
  (t.fleet.run? call.lease.tenantId call.lease.runId).bind fun r =>
    r.store.lease.filter (·.matches call.lease)

def request (st : FinishState) (t : QueueTables) (call : FinishCall) : Option QueueRow :=
  match st.stage with
  | .lockLease => (leaseRow t call).map fun _ => .lease call.key
  | .lockRun => (t.fleet.run? call.lease.tenantId call.lease.runId).map fun _ => .run call.key
  | .lockWorkspace => (t.workspaceOf call.lease.leaseToken).map fun w => .workspace w.key
  | .lockWorker => (t.fleet.worker? call.lease.workerId).map fun _ => .worker call.lease.workerId

/-- A statement of `PostgresRunQueue.finish`. -/
def execute (st : FinishState) (t : QueueTables) (call : FinishCall) :
    Outcome QueueTables FinishState :=
  match st.stage with
  | .lockLease =>
    match leaseRow t call with
    | none => .rolledBack
    | some _ => .running { stage := .lockRun, held := .lease call.key :: st.held }
  | .lockRun =>
    match t.fleet.run? call.lease.tenantId call.lease.runId with
    | none => .rolledBack
    | some r =>
      match AgentPlatform.finish r.store call.lease call.result call.occurredAt with
      | .error _ => .rolledBack
      | .ok _ => .running { stage := .lockWorkspace, held := .run call.key :: st.held }
  | .lockWorkspace =>
    match t.workspaceOf call.lease.leaseToken with
    | none => .running { st with stage := .lockWorker }
    | some w => .running { stage := .lockWorker, held := .workspace w.key :: st.held }
  | .lockWorker =>
    match t.fleet.finish call.lease call.result call.occurredAt with
    | .error _ => .rolledBack
    | .ok (_, f) => .committed { t with fleet := f }

end FinishState

structure RecoverCall where
  occurredAt : Timestamp
  limit : ℕ
  deriving DecidableEq

inductive RecoverStage where
  | lockRetries
  | lockLeases
  | lockRun (rest : List (Uuid × Uuid))
  | lockWorkspace (key : Uuid × Uuid) (rest : List (Uuid × Uuid))
  | lockWorker (key : Uuid × Uuid) (rest : List (Uuid × Uuid))
  deriving DecidableEq

structure RecoverState where
  stage : RecoverStage := .lockRetries
  retries : List (Uuid × Uuid) := []
  leases : List (Uuid × Uuid) := []
  held : List QueueRow := []
  deriving DecidableEq

def oldestFirst (a b : Timestamp × Uuid) : Bool := a.1 < b.1 || (a.1 = b.1 && a.2 ≤ b.2)

def QueueTables.dueRetries (t : QueueTables) (locked : QueueRow → Bool) (call : RecoverCall) :
    List (Uuid × Uuid) :=
  let due := t.fleet.runs.filter fun r =>
    r.store.run.status = .retryPending && r.store.run.retryReadyAt.any (· ≤ call.occurredAt) &&
      !locked (.run r.key)
  let sorted := due.insertionSort fun a b =>
    oldestFirst (a.store.run.retryReadyAt.getD 0, a.store.run.id)
      (b.store.run.retryReadyAt.getD 0, b.store.run.id) = true
  (sorted.take call.limit).map FleetRun.key

def QueueTables.expiredLeases (t : QueueTables) (locked : QueueRow → Bool) (call : RecoverCall)
    (recovered : ℕ) : List (Uuid × Uuid) :=
  let expired := t.fleet.runs.filter fun r =>
    r.store.lease.any (·.expiresAt ≤ call.occurredAt) && !locked (.lease r.key)
  let sorted := expired.insertionSort fun a b =>
    oldestFirst (a.store.lease.elim 0 (·.expiresAt), a.store.run.id)
      (b.store.lease.elim 0 (·.expiresAt), b.store.run.id) = true
  (sorted.take (call.limit - recovered)).map FleetRun.key

namespace RecoverState

def leaseRow (t : QueueTables) (key : Uuid × Uuid) : Option RunLeaseRecord :=
  (t.fleet.run? key.1 key.2).bind (·.store.lease)

def workspace (t : QueueTables) (key : Uuid × Uuid) : Option WorkspaceLeaseRecord :=
  (leaseRow t key).bind fun row => t.workspaceOf row.leaseToken

def worker (t : QueueTables) (key : Uuid × Uuid) : Option WorkerRecord :=
  (leaseRow t key).bind fun row => t.fleet.worker? row.workerId

def request (st : RecoverState) (t : QueueTables) : Option QueueRow :=
  match st.stage with
  | .lockRetries | .lockLeases | .lockRun [] => none
  | .lockRun (key :: _) => (t.fleet.run? key.1 key.2).map fun _ => .run key
  | .lockWorkspace key _ => (workspace t key).map fun w => .workspace w.key
  | .lockWorker key _ => (worker t key).map fun w => .worker w.workerId

def execute (st : RecoverState) (t : QueueTables) (locked : QueueRow → Bool) (call : RecoverCall) :
    Outcome QueueTables RecoverState :=
  match st.stage with
  | .lockRetries =>
    let retries := t.dueRetries locked call
    match t.fleet.recoverExpired call.occurredAt retries with
    | .error _ => .rolledBack
    | .ok _ =>
      .running { st with
        stage := .lockLeases, retries := retries, held := retries.map .run ++ st.held }
  | .lockLeases =>
    let leases := t.expiredLeases locked call st.retries.length
    .running { st with
      stage := .lockRun leases, leases := leases, held := leases.map .lease ++ st.held }
  | .lockRun [] =>
    match t.fleet.recoverExpired call.occurredAt (st.retries ++ st.leases) with
    | .error _ => .rolledBack
    | .ok f => .committed { t with fleet := f }
  | .lockRun (key :: rest) =>
    match t.fleet.recoverRun call.occurredAt key with
    | .error _ => .rolledBack
    | .ok _ =>
      .running { st with
        stage := .lockWorkspace key rest
        held := ((t.fleet.run? key.1 key.2).map fun _ => QueueRow.run key).toList ++ st.held }
  | .lockWorkspace key rest =>
    .running { st with
      stage := .lockWorker key rest
      held := ((workspace t key).map fun w => QueueRow.workspace w.key).toList ++ st.held }
  | .lockWorker key rest =>
    .running { st with
      stage := .lockRun rest
      held := ((worker t key).map fun w => QueueRow.worker w.workerId).toList ++ st.held }

end RecoverState

inductive QueueCall where
  | claim (call : ClaimCall)
  | create (call : CreateCall)
  | finish (call : FinishCall)
  | recoverExpired (call : RecoverCall)

inductive QueueTxn where
  | claim (call : ClaimCall) (st : ClaimState)
  | create (call : CreateCall) (st : CreateState)
  | finish (call : FinishCall) (st : FinishState)
  | recoverExpired (call : RecoverCall) (st : RecoverState)

namespace QueueTxn

def start : QueueCall → QueueTxn
  | .claim call => .claim call {}
  | .create call => .create call {}
  | .finish call => .finish call {}
  | .recoverExpired call => .recoverExpired call {}

def held : QueueTxn → List QueueRow
  | .claim _ st => st.held
  | .create _ st => st.held
  | .finish _ st => st.held
  | .recoverExpired _ st => st.held

def request (t : QueueTables) : QueueTxn → Option QueueRow
  | .claim call st => st.request t call
  | .create call st => st.request t call
  | .finish call st => st.request t call
  | .recoverExpired _ st => st.request t

def execute (t : QueueTables) (locked : QueueRow → Bool) : QueueTxn → Outcome QueueTables QueueTxn
  | .claim call st => (st.execute t locked call).map (.claim call)
  | .create call st => (st.execute t call).map (.create call)
  | .finish call st => (st.execute t call).map (.finish call)
  | .recoverExpired call st => (st.execute t locked call).map (.recoverExpired call)

end QueueTxn

/-- **The four transactions of the queue**. -/
def queueProtocol : Protocol QueueCall QueueRow QueueTables QueueTxn where
  start := QueueTxn.start
  held := QueueTxn.held
  request := QueueTxn.request
  execute := QueueTxn.execute

abbrev QueueDatabase := Database QueueRow QueueTables QueueTxn

def QueueDatabase.apply (d : QueueDatabase) (op : Op QueueCall) : QueueDatabase :=
  Database.apply queueProtocol d op

end AgentPlatform
