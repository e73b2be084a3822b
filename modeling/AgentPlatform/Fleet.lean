/-
**The queue over many runs: workers, workspaces and the event log.**
-/

import AgentPlatform.LoopTypes
import AgentPlatform.StoreHistory

namespace AgentPlatform

inductive WorkerStatus where
  | active | draining | offline
  deriving DecidableEq

structure WorkerRecord where
  workerId : String
  totalSlots : ℕ
  availableSlots : ℕ
  status : WorkerStatus
  registeredAt : Timestamp
  lastHeartbeatAt : Timestamp
  deriving DecidableEq

structure WorkspaceOwner where
  runId : Uuid
  workerId : String
  runLeaseToken : Uuid
  leaseToken : Uuid
  acquiredAt : Timestamp
  expiresAt : Timestamp
  deriving DecidableEq

structure WorkspaceLeaseRecord where
  tenantId : Uuid
  workspaceId : Uuid
  generation : ℕ := 0
  owner : Option WorkspaceOwner := none
  deriving DecidableEq

structure WorkspaceWriterLease where
  tenantId : Uuid
  workspaceId : Uuid
  runId : Uuid
  workerId : String
  runLeaseToken : Uuid
  leaseToken : Uuid
  generation : ℕ
  acquiredAt : Timestamp
  expiresAt : Timestamp
  deriving DecidableEq

structure AgentEventRecord where
  executionEpoch : ℕ
  sequence : ℕ
  deliveryKey : Option String
  body : EventBody
  createdAt : Timestamp
  deriving DecidableEq

structure FleetRun where
  store : RunStore
  events : List AgentEventRecord := []
  nextEventSequence : ℕ := 1
  deriving DecidableEq

structure Fleet where
  runs : List FleetRun := []
  workers : List WorkerRecord := []
  workspaces : List WorkspaceLeaseRecord := []
  deriving DecidableEq

def FleetRun.key (r : FleetRun) : Uuid × Uuid := (r.store.run.tenantId, r.store.run.id)

def WorkerRecord.key (w : WorkerRecord) : String := w.workerId

def WorkspaceLeaseRecord.key (w : WorkspaceLeaseRecord) : Uuid × Uuid := (w.tenantId, w.workspaceId)

def Fleet.run? (f : Fleet) (tenantId runId : Uuid) : Option FleetRun :=
  KeyedTable.lookup FleetRun.key (tenantId, runId) f.runs

def Fleet.setRun (f : Fleet) (r : FleetRun) : Fleet :=
  { f with runs := KeyedTable.upsert FleetRun.key r f.runs }

def Fleet.worker? (f : Fleet) (workerId : String) : Option WorkerRecord :=
  KeyedTable.lookup WorkerRecord.key workerId f.workers

def Fleet.setWorker (f : Fleet) (w : WorkerRecord) : Fleet :=
  { f with workers := KeyedTable.upsert WorkerRecord.key w f.workers }

def Fleet.workspace? (f : Fleet) (tenantId workspaceId : Uuid) : Option WorkspaceLeaseRecord :=
  KeyedTable.lookup WorkspaceLeaseRecord.key (tenantId, workspaceId) f.workspaces

/-- The row of a workspace after `INSERT … ON CONFLICT DO NOTHING` with generation 0. -/
def Fleet.workspaceRow (f : Fleet) (tenantId workspaceId : Uuid) : WorkspaceLeaseRecord :=
  (f.workspace? tenantId workspaceId).getD { tenantId := tenantId, workspaceId := workspaceId }

def Fleet.setWorkspace (f : Fleet) (w : WorkspaceLeaseRecord) : Fleet :=
  { f with workspaces := KeyedTable.upsert WorkspaceLeaseRecord.key w f.workspaces }

def Fleet.activeWorkerLeases (f : Fleet) (workerId : String) : ℕ :=
  f.runs.countP fun r => r.store.lease.any (·.workerId = workerId)

def workerNotRegistered {α : Type} (workerId : String) : Except Failure α :=
  domainError "worker_not_registered" "the worker is not registered" false
    (.ofList [("worker_id", .str workerId)])

def workerHeartbeatStale {α : Type} (message workerId : String) : Except Failure α :=
  domainError "worker_heartbeat_stale" message false (.ofList [("worker_id", .str workerId)])

def Fleet.registerWorker (f : Fleet) (w : WorkerRecord) : Except Failure (WorkerRecord × Fleet) :=
  match f.worker? w.workerId with
  | none => .ok (w, f.setWorker w)
  | some row =>
    if w.lastHeartbeatAt < row.lastHeartbeatAt then
      workerHeartbeatStale "worker registration may not move liveness backward" row.workerId
    else
      let active := f.activeWorkerLeases row.workerId
      if w.totalSlots < active then
        domainError "worker_capacity_conflict"
          "worker capacity may not be reduced below active leases" false
          (.ofList [("worker_id", .str row.workerId), ("active_leases", .num (Nat.repr active))])
      else
        let row' := { row with
          totalSlots := w.totalSlots
          availableSlots := min w.availableSlots (w.totalSlots - active)
          status := w.status
          lastHeartbeatAt := w.lastHeartbeatAt }
        .ok (row', f.setWorker row')

def Fleet.heartbeatWorker (f : Fleet) (workerId : String) (occurredAt : Timestamp)
    (availableSlots : ℕ) : Except Failure (WorkerRecord × Fleet) :=
  match f.worker? workerId with
  | none => workerNotRegistered workerId
  | some row =>
    if occurredAt < row.lastHeartbeatAt then
      workerHeartbeatStale "worker heartbeat may not move liveness backward" workerId
    else if row.totalSlots < availableSlots then
      domainError "worker_capacity_invalid"
        "available worker slots are outside the registered capacity" false
        (.ofList [("worker_id", .str workerId)])
    else
      let active := f.activeWorkerLeases workerId
      if row.totalSlots < active then .error (.integrity "ck_workers_available_slots")
      else
        let row' := { row with
          availableSlots := min availableSlots (row.totalSlots - active)
          lastHeartbeatAt := occurredAt }
        .ok (row', f.setWorker row')

def Fleet.setWorkerDraining (f : Fleet) (workerId : String) (draining : Bool)
    (occurredAt : Timestamp) : Except Failure (WorkerRecord × Fleet) :=
  match f.worker? workerId with
  | none => workerNotRegistered workerId
  | some row =>
    if occurredAt < row.lastHeartbeatAt then
      workerHeartbeatStale "worker drain state may not move liveness backward" workerId
    else
      let row' := { row with
        status := if draining then .draining else .active
        lastHeartbeatAt := occurredAt }
      .ok (row', f.setWorker row')

def Fleet.returnWorkerSlot (f : Fleet) (workerId : String) : Fleet :=
  match f.worker? workerId with
  | none => f
  | some w => f.setWorker { w with availableSlots := min w.totalSlots (w.availableSlots + 1) }

/-- The owner columns `claim` and `acquire` write. -/
def WorkspaceLeaseRecord.takenBy (w : WorkspaceLeaseRecord) (o : WorkspaceOwner) :
    WorkspaceLeaseRecord :=
  { w with owner := some o, generation := w.generation + 1 }

def WorkspaceLeaseRecord.cleared (w : WorkspaceLeaseRecord) : WorkspaceLeaseRecord :=
  { w with owner := none }

def Fleet.releaseWorkspaceForRun (f : Fleet) (token : Uuid) : Fleet :=
  { f with
    workspaces := f.workspaces.map fun w =>
      if w.owner.any (·.runLeaseToken = token) then w.cleared else w }

/-- `PostgresRunQueue.claim` on the candidate its ranking selected; `none` when there is none. -/
def Fleet.claim (f : Fleet) (workerId : String) (tenantId runId token workspaceToken : Uuid)
    (occurredAt expiresAt : Timestamp) : Except Failure (Option RunLease × Fleet) :=
  match f.worker? workerId with
  | none => workerNotRegistered workerId
  | some worker =>
    if worker.status ≠ .active ∨ worker.availableSlots = 0 then .ok (none, f)
    else
      match f.run? tenantId runId with
      | none => .ok (none, f)
      | some r =>
        let row := f.workspaceRow tenantId r.store.run.workspaceId
        if row.owner ≠ none then .ok (none, f)
        else
          match AgentPlatform.claim r.store workerId token occurredAt expiresAt with
          | .error e => .error e
          | .ok (none, _) => .ok (none, f)
          | .ok (some lease, s) =>
            .ok (some lease, ((f.setRun { r with store := s }).setWorkspace (row.takenBy
                { runId := runId, workerId := workerId, runLeaseToken := token
                  leaseToken := workspaceToken, acquiredAt := occurredAt
                  expiresAt := expiresAt })).setWorker
                { worker with availableSlots := worker.availableSlots - 1 })

def Fleet.onRun {α : Type} (f : Fleet) (tenantId runId : Uuid)
    (missing : Except Failure (α × Fleet)) (transaction : RunStore → Except Failure (α × RunStore)) :
    Except Failure (α × Fleet) :=
  match f.run? tenantId runId with
  | none => missing
  | some r =>
    match transaction r.store with
    | .error e => .error e
    | .ok (a, s) => .ok (a, f.setRun { r with store := s })

/-- `_assert_matching_run_lease` found no row. -/
def runLeaseLost {α : Type} (lease : RunLease) : Except Failure α :=
  domainError "run_lease_lost" "the run lease is no longer owned by this worker" true
    (.ofList [("run_id", .str (uuidText lease.runId))])

def Fleet.start (f : Fleet) (lease : RunLease) (occurredAt : Timestamp) :
    Except Failure (RunLease × Fleet) :=
  f.onRun lease.tenantId lease.runId (runLeaseLost lease)
    (AgentPlatform.start · lease occurredAt)

def Fleet.heartbeat (f : Fleet) (lease : RunLease) (occurredAt expiresAt : Timestamp) :
    Except Failure (Bool × Fleet) :=
  f.onRun lease.tenantId lease.runId (runLeaseLost lease)
    (AgentPlatform.heartbeat · lease occurredAt expiresAt)

/-- `PostgresRunQueue.finish`: the run is released together with its workspace and its slot. -/
def Fleet.finish (f : Fleet) (lease : RunLease) (result : RunExecutionResult)
    (occurredAt : Timestamp) : Except Failure (RunStatus × Fleet) :=
  match f.onRun lease.tenantId lease.runId (runLeaseLost lease)
      (AgentPlatform.finish · lease result occurredAt) with
  | .error e => .error e
  | .ok (status, f') =>
    .ok (status, (f'.releaseWorkspaceForRun lease.leaseToken).returnWorkerSlot lease.workerId)

def Fleet.recoverRun (occurredAt : Timestamp) (f : Fleet) (key : Uuid × Uuid) :
    Except Failure Fleet :=
  match f.run? key.1 key.2 with
  | none => .ok f
  | some r =>
    match AgentPlatform.recoverExpired r.store occurredAt with
    | .error e => .error e
    | .ok s =>
      let f' := f.setRun { r with store := s }
      match r.store.lease, s.lease with
      | some row, none =>
        .ok ((f'.releaseWorkspaceForRun row.leaseToken).returnWorkerSlot row.workerId)
      | _, _ => .ok f'

def Fleet.recoverExpired (f : Fleet) (occurredAt : Timestamp) :
    List (Uuid × Uuid) → Except Failure Fleet
  | [] => .ok f
  | key :: rest =>
    match f.recoverRun occurredAt key with
    | .error e => .error e
    | .ok f' => f'.recoverExpired occurredAt rest

def workspaceLeaseDomain (w : WorkspaceLeaseRecord) (o : WorkspaceOwner) : WorkspaceWriterLease :=
  { tenantId := w.tenantId, workspaceId := w.workspaceId, runId := o.runId, workerId := o.workerId
    runLeaseToken := o.runLeaseToken, leaseToken := o.leaseToken, generation := w.generation
    acquiredAt := o.acquiredAt, expiresAt := o.expiresAt }

def Fleet.acquire (f : Fleet) (lease : RunLease) (token : Uuid) (occurredAt expiresAt : Timestamp) :
    Except Failure (Option WorkspaceWriterLease × Fleet) :=
  match f.run? lease.tenantId lease.runId with
  | none => runLeaseLost lease
  | some r =>
    match r.store.lease with
    | none => runLeaseLost lease
    | some row =>
      if ¬ row.matches lease then runLeaseLost lease
      else if row.expiresAt ≤ occurredAt then
        domainError "run_lease_expired" "the run lease expired before the operation" true
          (.ofList [("run_id", .str (uuidText lease.runId))])
      else
        let expiry := min expiresAt row.expiresAt
        if expiry ≤ occurredAt then
          domainError "workspace_lease_invalid"
            "workspace lease cannot outlive an expired run lease"
        else
          let w := f.workspaceRow lease.tenantId lease.workspaceId
          match w.owner with
          | some o =>
            if o.runLeaseToken = lease.leaseToken ∧ o.runId = lease.runId ∧
                o.workerId = lease.workerId then
              let o' := { o with expiresAt := expiry }
              .ok (some (workspaceLeaseDomain w o'), f.setWorkspace { w with owner := some o' })
            else .ok (none, f)
          | none =>
            if r.store.run.workspaceId ≠ lease.workspaceId then
              .error (.integrity "fk_workspace_writer_leases_runs")
            else
              let o : WorkspaceOwner :=
                { runId := lease.runId, workerId := lease.workerId
                  runLeaseToken := lease.leaseToken, leaseToken := token
                  acquiredAt := occurredAt, expiresAt := expiry }
              let w' := w.takenBy o
              .ok (some (workspaceLeaseDomain w' o), f.setWorkspace w')

def WorkspaceLeaseRecord.ownedBy (w : WorkspaceLeaseRecord) (lease : WorkspaceWriterLease) : Bool :=
  w.generation = lease.generation && w.owner.any fun o =>
    o.runId = lease.runId && o.workerId = lease.workerId && o.leaseToken = lease.leaseToken &&
      o.runLeaseToken = lease.runLeaseToken

def workspaceLeaseLost {α : Type} (message : String) (lease : WorkspaceWriterLease) :
    Except Failure α :=
  domainError "workspace_lease_lost" message true
    (.ofList [("workspace_id", .str (uuidText lease.workspaceId))])

def Fleet.heartbeatWorkspace (f : Fleet) (lease : WorkspaceWriterLease)
    (occurredAt expiresAt : Timestamp) : Except Failure (WorkspaceWriterLease × Fleet) :=
  match (f.run? lease.tenantId lease.runId).bind (·.store.lease),
      f.workspace? lease.tenantId lease.workspaceId with
  | some row, some w =>
    if row.leaseToken = lease.runLeaseToken ∧ row.tenantId = lease.tenantId ∧
        row.workerId = lease.workerId ∧ row.runId = lease.runId ∧ occurredAt < row.expiresAt ∧
        w.ownedBy lease then
      let expiry := min expiresAt row.expiresAt
      if expiry ≤ occurredAt then
        domainError "workspace_lease_lost" "the owning run lease has expired" true
      else
        match w.owner with
        | none => workspaceLeaseLost "the workspace writer lease is no longer owned" lease
        | some o =>
          let o' := { o with expiresAt := expiry }
          .ok (workspaceLeaseDomain w o', f.setWorkspace { w with owner := some o' })
    else workspaceLeaseLost "the workspace writer lease is no longer owned" lease
  | _, _ => workspaceLeaseLost "the workspace writer lease is no longer owned" lease

def Fleet.release (f : Fleet) (lease : WorkspaceWriterLease) : Except Failure (Unit × Fleet) :=
  match f.workspace? lease.tenantId lease.workspaceId with
  | none => workspaceLeaseLost "the workspace writer lease is no longer owned" lease
  | some w =>
    if w.owner = none then
      if w.generation = lease.generation then .ok ((), f)
      else workspaceLeaseLost "the workspace writer lease is no longer owned" lease
    else if ¬ w.ownedBy lease then
      workspaceLeaseLost "a stale worker may not release a successor workspace lease" lease
    else .ok ((), f.setWorkspace w.cleared)

structure SandboxRequest where
  tenantId : Uuid
  runId : Uuid
  sessionId : Uuid
  workspaceId : Uuid
  workerId : String
  leaseToken : Uuid
  generation : ℕ
  executionEpoch : ℕ := 1
  deriving DecidableEq

/-- The row `authorize_sandbox_lease` selects. -/
def Fleet.authorized (f : Fleet) (q : SandboxRequest) (occurredAt : Timestamp) : Bool :=
  match f.run? q.tenantId q.runId, f.workspace? q.tenantId q.workspaceId with
  | some r, some w =>
    r.store.lease.any (fun row =>
      row.tenantId = q.tenantId && row.runId = q.runId && row.workerId = q.workerId &&
        row.leaseToken = q.leaseToken && row.generation = q.generation &&
        occurredAt < row.expiresAt) &&
    r.store.run.sessionId = q.sessionId && r.store.run.workspaceId = q.workspaceId &&
    r.store.run.executionEpoch = q.executionEpoch && r.store.run.status = .running &&
    r.store.run.assignedWorkerId = some q.workerId && !r.store.run.cancellationRequested &&
    w.owner.any (fun o =>
      o.runId = q.runId && o.workerId = q.workerId && o.runLeaseToken = q.leaseToken &&
        occurredAt < o.expiresAt)
  | _, _ => false

def Fleet.authorizeSandboxLease (f : Fleet) (q : SandboxRequest) (occurredAt : Timestamp) :
    Except Failure Unit :=
  if f.authorized q occurredAt then .ok ()
  else
    domainError "sandbox_lease_unauthorized"
      "the sandbox request does not own current run and workspace leases" true
      (.ofList [("run_id", .str (uuidText q.runId))])

def FleetRun.appendIdempotent (r : FleetRun) (key : String) (body : EventBody)
    (createdAt : Timestamp) : Except Failure (AgentEventRecord × FleetRun) :=
  match r.events.find? fun e =>
      e.executionEpoch = r.store.run.executionEpoch && e.deliveryKey = some key with
  | some existing =>
    if existing.body ≠ body then
      domainError "event_delivery_conflict"
        "the event delivery key belongs to different event data" false
        (.ofList [("run_id", .str (uuidText r.store.run.id)), ("delivery_key", .str key)])
    else .ok (existing, r)
  | none =>
    let row : AgentEventRecord :=
      { executionEpoch := r.store.run.executionEpoch, sequence := r.nextEventSequence
        deliveryKey := some key, body := body, createdAt := createdAt }
    .ok (row, { r with
      events := r.events ++ [row], nextEventSequence := r.nextEventSequence + 1 })

def Fleet.appendIdempotentFenced (f : Fleet) (lease : RunLease) (now : Timestamp) (key : String)
    (body : EventBody) (createdAt : Timestamp) : Except Failure (AgentEventRecord × Fleet) :=
  match f.run? lease.tenantId lease.runId with
  | none => .error (leaseLost lease)
  | some r =>
    match assertActiveRunLease r.store lease now with
    | .error e => .error e
    | .ok () =>
      match r.appendIdempotent key body createdAt with
      | .error e => .error e
      | .ok (event, r') => .ok (event, f.setRun r')

inductive FencedWrite where
  | saveToolCall (call : ToolCall)
  | createApproval (approval : ApprovalRecord)
  | createCheckpoint (checkpoint : Checkpoint)
  | completeCheckpoint (id : Uuid) (snapshot : SnapshotReference) (revision : String)
  | appendTranscript (codec : StoreCodec) (startIndex : ℕ) (messages : List GatewayMessage)
      (occurredAt : Timestamp)

def FencedWrite.transaction (write : FencedWrite) (lease : RunLease) (now : Timestamp)
    (s : RunStore) : Except Failure (Unit × RunStore) :=
  match write with
  | .saveToolCall c => (saveToolCallFenced s lease now c).map fun p => ((), p.2)
  | .createApproval a => (createApprovalFenced s lease now a).map fun p => ((), p.2)
  | .createCheckpoint c => (createCheckpointFenced s lease now c).map fun p => ((), p.2)
  | .completeCheckpoint id snapshot revision =>
    completeCheckpointFenced s lease now id snapshot revision
  | .appendTranscript codec startIndex messages occurredAt =>
    appendTranscriptFenced codec s lease now startIndex messages occurredAt

inductive ControlOp where
  | requestCancel (occurredAt : Timestamp)
  | decide (approvalId : Uuid) (decision : ApprovalDecision)
  | rewind (checkpointId : Uuid) (now : Timestamp)

def ControlOp.transaction (op : ControlOp) (s : RunStore) : Except Failure (Unit × RunStore) :=
  match op with
  | .requestCancel at' => (AgentPlatform.requestCancel s at').map ((), ·)
  | .decide id d => (decideApproval s id d).map fun p => ((), p.2)
  | .rewind id now => (AgentPlatform.rewind s id now).map fun p => ((), p.2)

inductive FleetOp where
  | submit (x : Submission)
  | registerWorker (worker : WorkerRecord)
  | heartbeatWorker (workerId : String) (occurredAt : Timestamp) (availableSlots : ℕ)
  | setWorkerDraining (workerId : String) (draining : Bool) (occurredAt : Timestamp)
  | claim (workerId : String) (tenantId runId token workspaceToken : Uuid)
      (occurredAt expiresAt : Timestamp)
  | start (lease : RunLease) (occurredAt : Timestamp)
  | heartbeat (lease : RunLease) (occurredAt expiresAt : Timestamp)
  | finish (lease : RunLease) (result : RunExecutionResult) (occurredAt : Timestamp)
  | recoverExpired (occurredAt : Timestamp) (selected : List (Uuid × Uuid))
  | control (tenantId runId : Uuid) (op : ControlOp)
  | acquire (lease : RunLease) (token : Uuid) (occurredAt expiresAt : Timestamp)
  | heartbeatWorkspace (lease : WorkspaceWriterLease) (occurredAt expiresAt : Timestamp)
  | release (lease : WorkspaceWriterLease)
  | appendEvent (lease : RunLease) (now : Timestamp) (key : String) (body : EventBody)
      (createdAt : Timestamp)
  | write (lease : RunLease) (now : Timestamp) (write : FencedWrite)
  | authorize (request : SandboxRequest) (occurredAt : Timestamp)

def Fleet.perform (f : Fleet) : FleetOp → Except Failure Fleet
  | .submit x =>
    if f.runs.any (·.store.run.id = x.runId) then .error (.integrity "pk_runs")
    else .ok (f.setRun { store := AgentPlatform.submit x })
  | .registerWorker w => (f.registerWorker w).map Prod.snd
  | .heartbeatWorker id at' slots => (f.heartbeatWorker id at' slots).map Prod.snd
  | .setWorkerDraining id draining at' => (f.setWorkerDraining id draining at').map Prod.snd
  | .claim w tenant run token wsToken at' ex =>
    (f.claim w tenant run token wsToken at' ex).map Prod.snd
  | .start l at' => (f.start l at').map Prod.snd
  | .heartbeat l at' ex => (f.heartbeat l at' ex).map Prod.snd
  | .finish l r at' => (f.finish l r at').map Prod.snd
  | .recoverExpired at' selected => f.recoverExpired at' selected
  | .control tenant run op => (f.onRun tenant run (.ok ((), f)) op.transaction).map Prod.snd
  | .acquire l token at' ex => (f.acquire l token at' ex).map Prod.snd
  | .heartbeatWorkspace l at' ex => (f.heartbeatWorkspace l at' ex).map Prod.snd
  | .release l => (f.release l).map Prod.snd
  | .appendEvent l now key body at' => (f.appendIdempotentFenced l now key body at').map Prod.snd
  | .write l now w =>
    (f.onRun l.tenantId l.runId (.error (leaseLost l)) (w.transaction l now)).map Prod.snd
  | .authorize q at' => (f.authorizeSandboxLease q at').map fun _ => f

def Fleet.apply (f : Fleet) (op : FleetOp) : Fleet :=
  match f.perform op with
  | .ok f' => f'
  | .error _ => f

end AgentPlatform
