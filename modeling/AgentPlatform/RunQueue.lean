/-
**Leasing, finishing, cancelling, deciding and rewinding a run.**
-/

import AgentPlatform.RunStore

namespace AgentPlatform

open ApprovalRecord KeyedTable

/-! ### Claiming and starting -/

/-- `_run_lease_domain`: the lease as the worker sees it. -/
def runLeaseDomain (row : RunLeaseRecord) (s : RunStore) : RunLease :=
  { tenantId := row.tenantId
    runId := row.runId
    sessionId := s.run.sessionId
    workspaceId := s.run.workspaceId
    workerId := row.workerId
    routeName := s.routeName
    leaseToken := row.leaseToken
    generation := row.generation
    attempt := s.run.attempt
    executionEpoch := s.run.executionEpoch
    acquiredAt := row.acquiredAt
    expiresAt := row.expiresAt
    checkpointId := s.run.lastCheckpointId
    cancellationRequested := s.run.cancellationRequested }

/-- The part of `PostgresRunQueue.claim` that concerns the run it selected; `none` when the run is
not a candidate: it is not queued, its cancellation was requested, or a lease of it still holds its
workspace. -/
def claim (s : RunStore) (workerId : String) (token : Uuid) (occurredAt expiresAt : Timestamp) :
    Except Failure (Option RunLease × RunStore) :=
  if s.run.status ≠ .queued ∨ s.run.cancellationRequested ∨ s.lease ≠ none then .ok (none, s)
  else
    match transitionRun s.run .leased occurredAt (some workerId) (some expiresAt) with
    | .error f => .error f
    | .ok run =>
      let row : RunLeaseRecord :=
        { tenantId := run.tenantId, runId := run.id, workerId := workerId, leaseToken := token
          generation := s.run.leaseGeneration + 1, acquiredAt := occurredAt
          lastHeartbeatAt := occurredAt, expiresAt := expiresAt }
      let s' := { s with
        run := { run with leaseGeneration := s.run.leaseGeneration + 1 }
        lease := some row }
      .ok (some (runLeaseDomain row s'), s')

def lockedLeaseState (s : RunStore) (lease : RunLease) : Except Failure RunLeaseRecord :=
  match s.lease with
  | none =>
    domainError "run_lease_lost" "the run lease is no longer owned by this worker" true
      (.ofList [("run_id", .str (uuidText lease.runId))])
  | some row =>
    if ¬ row.matches lease then
      domainError "run_lease_lost" "the run lease is no longer owned by this worker" true
        (.ofList [("run_id", .str (uuidText lease.runId))])
    else if s.run.tenantId ≠ lease.tenantId ∨ s.run.id ≠ lease.runId ∨
        s.run.leaseGeneration ≠ lease.generation ∨ s.run.assignedWorkerId ≠ some lease.workerId ∨
        s.run.executionEpoch ≠ lease.executionEpoch then
      domainError "run_lease_lost" "the run ownership fence no longer matches" true
        (.ofList [("run_id", .str (uuidText lease.runId))])
    else .ok row

/-- `_require_unexpired`, after the lease rows were locked. -/
def ownedLeaseRow (s : RunStore) (lease : RunLease) (occurredAt : Timestamp) :
    Except Failure RunLeaseRecord :=
  match lockedLeaseState s lease with
  | .error f => .error f
  | .ok row =>
    if row.expiresAt ≤ occurredAt then
      domainError "run_lease_expired" "the run lease expired before the operation" true
        (.ofList [("run_id", .str (uuidText lease.runId))])
    else .ok row

def start (s : RunStore) (lease : RunLease) (occurredAt : Timestamp) :
    Except Failure (RunLease × RunStore) :=
  match ownedLeaseRow s lease occurredAt with
  | .error f => .error f
  | .ok row =>
    if s.run.status ≠ .leased then
      domainError "run_state_conflict" "only a leased run may start" false
        (.ofList [("run_id", .str (uuidText lease.runId)), ("status", .str s.run.status.value)])
    else
      match transitionRun s.run .running occurredAt with
      | .error f => .error f
      | .ok run =>
        let s' := { s with run := run }
        .ok (runLeaseDomain row s', s')

def heartbeat (s : RunStore) (lease : RunLease) (occurredAt expiresAt : Timestamp) :
    Except Failure (Bool × RunStore) :=
  match ownedLeaseRow s lease occurredAt with
  | .error f => .error f
  | .ok row =>
    if s.run.status ≠ .leased ∧ s.run.status ≠ .running then
      domainError "run_lease_lost" "the run no longer accepts lease heartbeats" true
        (.ofList [("run_id", .str (uuidText lease.runId))])
    else
      .ok (s.run.cancellationRequested, { s with
        lease := some { row with lastHeartbeatAt := occurredAt, expiresAt := expiresAt }
        run := { s.run with leaseExpiresAt := some expiresAt } })

structure RunExecutionResult where
  status : RunStatus
  lastCheckpointId : Option Uuid := none
  error : Option ErrorDetail := none
  retryDelay : Option ℕ := none
  deriving DecidableEq

/-- `PostgresRunQueue.finish`: a requested cancellation overrides the reported status, and only a
reported checkpoint replaces the selected one. -/
def finish (s : RunStore) (lease : RunLease) (result : RunExecutionResult) (occurredAt : Timestamp) :
    Except Failure (RunStatus × RunStore) :=
  match ownedLeaseRow s lease occurredAt with
  | .error f => .error f
  | .ok _ =>
    let desired := if s.run.cancellationRequested then .cancelled else result.status
    match transitionRun s.run desired occurredAt with
    | .error f => .error f
    | .ok run =>
      .ok (desired, { s with
        run := { run with
          lastCheckpointId := result.lastCheckpointId <|> run.lastCheckpointId
          retryReadyAt :=
            if desired = .retryPending then result.retryDelay.map (occurredAt + ·) else none }
        lease := none })

/-- `PostgresRunQueue.recover_expired` on this run. -/
def recoverExpired (s : RunStore) (occurredAt : Timestamp) : Except Failure RunStore :=
  if s.run.status = .retryPending ∧ s.run.retryReadyAt.any (· ≤ occurredAt) then
    match transitionRun s.run .queued occurredAt with
    | .error f => .error f
    | .ok run => .ok { s with run := { run with retryReadyAt := none } }
  else
    match s.lease with
    | none => .ok s
    | some row =>
      if occurredAt < row.expiresAt then .ok s
      else if s.run.leaseGeneration = row.generation ∧ s.run.assignedWorkerId = some row.workerId ∧
          (s.run.status = .leased ∨ s.run.status = .running) then
        if s.run.cancellationRequested then
          match transitionRun s.run .cancelled occurredAt with
          | .error f => .error f
          | .ok run => .ok { s with run := run, lease := none }
        else
          match transitionRun s.run .lost occurredAt with
          | .error f => .error f
          | .ok lost =>
            match transitionRun lost .queued occurredAt with
            | .error f => .error f
            | .ok run => .ok { s with run := run, lease := none }
      else .ok { s with lease := none }

/-! ### The control plane -/

def requestCancel (s : RunStore) (occurredAt : Timestamp) : Except Failure RunStore :=
  match s.run.status with
  | .completed | .failed | .cancelled => .ok s
  | .queued | .waitingApproval | .retryPending | .lost =>
    match transitionRun s.run .cancelled occurredAt with
    | .error f => .error f
    | .ok run => .ok { s with run := run }
  | .leased | .running =>
    match ({ s.run with cancellationRequested := true } : Run).validate with
    | .error f => .error f
    | .ok run => .ok { s with run := run }

structure ApprovalDecision where
  approved : Bool
  decidedBy : String
  decidedAt : Timestamp
  response : Option String := none
  deriving DecidableEq

def ApprovalDecision.status (d : ApprovalDecision) : ApprovalStatus :=
  if d.approved then .approved else .rejected

def ApprovalRecord.decided (a : ApprovalRecord) (d : ApprovalDecision) : ApprovalRecord :=
  { a with
    status := d.status, decidedBy := some d.decidedBy, decidedAt := some d.decidedAt,
    response := d.response }

def RunStore.pendingApprovals (s : RunStore) (epoch : ℕ) : List ApprovalRecord :=
  s.approvals.filter fun a => a.executionEpoch = epoch && a.status = .pending

/-- `PostgresApprovalRepository.decide`. -/
def decideApproval (s : RunStore) (approvalId : Uuid) (d : ApprovalDecision) :
    Except Failure (Option ApprovalRecord × RunStore) :=
  match KeyedTable.lookup ApprovalRecord.key approvalId s.approvals with
  | none => .ok (none, s)
  | some row =>
    if row.executionEpoch ≠ s.run.executionEpoch then .ok (none, s)
    else if d.approved ∧ d.response = none ∧
        ((s.toolCall? row.executionEpoch row.toolCallId).any (·.toolName = "ask_user")) then
      domainError "interaction_response_required"
        "ask_user approval requires a non-empty response"
    else if row.status ≠ .pending then
      if row.status ≠ d.status ∨ row.decidedBy ≠ some d.decidedBy ∨ row.response ≠ d.response then
        domainError "approval_decision_conflict"
          "the approval already has a different durable decision" false
          (.ofList [("approval_id", .str (uuidText approvalId))])
      else .ok (some row, s)
    else
      let decidedRow := row.decided d
      let s' := { s with
        approvals := KeyedTable.upsert ApprovalRecord.key decidedRow s.approvals }
      match decidedRow.constraintViolation with
      | some constraint => .error (.integrity constraint)
      | none =>
        if s.run.status = .waitingApproval ∧ s'.pendingApprovals row.executionEpoch = [] then
          match transitionRun s.run .queued d.decidedAt with
          | .error f => .error f
          | .ok run => .ok (some decidedRow, { s' with run := run })
        else .ok (some decidedRow, s')

/-- The rows a rewind to `c` may copy: the messages of the checkpoint's epoch that existed when it was
taken, without those at transcript positions after it. -/
def rewindRows (s : RunStore) (c : Checkpoint) : List MessageRecord :=
  s.messages.filter fun m =>
    m.executionEpoch = c.executionEpoch && m.createdAt ≤ c.createdAt

/-- The retained rows of `_seed_rewind_branch`. -/
def retainedRows (c : Checkpoint) : List ℕ → List MessageRecord → Except Failure (List MessageRecord)
  | _, [] => .ok []
  | seen, m :: rest =>
    match m.transcriptIndex with
    | none => (retainedRows c seen rest).map (m :: ·)
    | some index =>
      if index < 1 then
        domainError "rewind_message_invalid"
          "a durable rewind message has an invalid transcript position"
      else if index ≤ c.messageSequence then
        if index ∈ seen then
          domainError "rewind_message_invalid"
            "durable rewind transcript positions are not unique"
        else (retainedRows c (index :: seen) rest).map (m :: ·)
      else retainedRows c seen rest

def rewoundCopies (epoch : ℕ) (now : Timestamp) : ℕ → List MessageRecord → List MessageRecord
  | _, [] => []
  | sequence, m :: rest =>
    { m with
      id := .rewound epoch m.id, executionEpoch := epoch, sequence := sequence,
      createdAt := now } :: rewoundCopies epoch now (sequence + 1) rest

/-- `PostgresRunRepository.rewind` with `_seed_rewind_branch`. -/
def rewind (s : RunStore) (checkpointId : Uuid) (now : Timestamp) :
    Except Failure (Option Run × RunStore) :=
  match s.checkpoint? checkpointId with
  | none => .ok (none, s)
  | some record =>
    let c := record.checkpoint
    match rewindRun s.run checkpointId with
    | .error f => .error f
    | .ok run =>
      if 4096 < c.messageSequence then
        domainError "rewind_checkpoint_invalid"
          "the checkpoint message sequence exceeds the rewind limit"
      else if 4096 < (rewindRows s c).length then
        domainError "rewind_context_limit" "the rewind branch seed exceeds the message limit"
      else
        match retainedRows c [] (rewindRows s c) with
        | .error f => .error f
        | .ok retained =>
          .ok (some run, { s with
            run := { run with retryReadyAt := none }
            messages := s.messages ++ rewoundCopies run.executionEpoch now s.nextSequence retained
            taskPlans := s.taskPlans ++
              [{ executionEpoch := run.executionEpoch, version := 1, plan := c.taskPlan }] })

/-! ### What the operations change -/

structure RunStore.SameTables (s s' : RunStore) : Prop where
  approvalMode : s'.approvalMode = s.approvalMode
  messages : s'.messages = s.messages
  toolCalls : s'.toolCalls = s.toolCalls
  approvals : s'.approvals = s.approvals
  checkpoints : s'.checkpoints = s.checkpoints

theorem RunStore.SameTables.refl (s : RunStore) : s.SameTables s := ⟨rfl, rfl, rfl, rfl, rfl⟩

section Operations

variable {s s' : RunStore} {lease : RunLease} {at' ex : Timestamp}

theorem claim_ok {w : String} {t : Uuid} {lease? : Option RunLease}
    (h : claim s w t at' ex = .ok (lease?, s')) : lease? = none ∧ s' = s ∨
      ∃ run, s.run.status = .queued ∧ s.run.cancellationRequested = false ∧ s.lease = none ∧
        transitionRun s.run .leased at' (some w) (some ex) = .ok run ∧ ∃ row : RunLeaseRecord,
          row = { tenantId := run.tenantId, runId := run.id, workerId := w, leaseToken := t
                  generation := s.run.leaseGeneration + 1, acquiredAt := at'
                  lastHeartbeatAt := at', expiresAt := ex } ∧
          s' = { s with
            run := { run with leaseGeneration := s.run.leaseGeneration + 1 }, lease := some row } ∧
          lease? = some (runLeaseDomain row s') := by
  unfold claim at h
  split at h
  · cases h
    exact .inl ⟨rfl, rfl⟩
  rename_i hc
  simp only [not_or, not_not, not_eq_true] at hc
  obtain ⟨hq, hf, hfr⟩ := hc
  split at h
  · cases h
  next run hrun =>
    cases h
    exact .inr ⟨run, hq, hf, hfr, hrun, _, rfl, rfl, rfl⟩

theorem claim_inv {w : String} {t : Uuid} {lease? : Option RunLease}
    (h : claim s w t at' ex = .ok (lease?, s')) : lease? = none ∧ s' = s ∨
      ∃ lease, lease? = some lease ∧ s.run.status = .queued ∧ s'.run.status = .leased ∧
        s.SameTables s' ∧ s'.run.executionEpoch = s.run.executionEpoch ∧
        s'.run.lastCheckpointId = s.run.lastCheckpointId ∧
        lease.executionEpoch = s.run.executionEpoch ∧ lease.checkpointId = s.run.lastCheckpointId ∧
        s'.run.leaseGeneration = s.run.leaseGeneration + 1 ∧
        lease.generation = s'.run.leaseGeneration := by
  obtain hn | ⟨run, hq, -, -, hrun, _, rfl, rfl, rfl⟩ := claim_ok h
  · exact .inl hn
  · obtain ⟨hst, hid⟩ := transitionRun_frame hrun
    exact .inr ⟨_, rfl, hq, hst, ⟨rfl, rfl, rfl, rfl, rfl⟩, hid.executionEpoch,
      hid.lastCheckpointId, hid.executionEpoch, hid.lastCheckpointId, rfl, rfl⟩

theorem ownedLeaseRow_ok {row : RunLeaseRecord} (h : ownedLeaseRow s lease at' = .ok row) :
    s.lease = some row ∧ row.matches lease ∧ s.run.leaseGeneration = lease.generation ∧
      lease.executionEpoch = s.run.executionEpoch := by
  unfold ownedLeaseRow lockedLeaseState at h
  split at h
  · cases h
  rename_i row' hl
  split at hl
  · cases hl
  rename_i stored hs
  split at hl
  · cases hl
  rename_i hm
  split at hl
  · cases hl
  rename_i hf
  cases hl
  simp only [not_or, not_not] at hm hf
  split at h
  · cases h
  · cases h
    exact ⟨hs, hm, hf.2.2.1, hf.2.2.2.2.symm⟩

theorem RunLeaseRecord.matches_generation {row : RunLeaseRecord} (h : row.matches lease) :
    row.generation = lease.generation := by
  simp only [RunLeaseRecord.matches, and_eq_true, decide_eq_true_eq] at h
  exact h.2

theorem start_ok {lease' : RunLease} (h : start s lease at' = .ok (lease', s')) :
    ∃ row run, ownedLeaseRow s lease at' = .ok row ∧ s.run.status = .leased ∧
      transitionRun s.run .running at' = .ok run ∧ s' = { s with run := run } ∧
      lease' = runLeaseDomain row s' := by
  unfold start at h
  split at h
  · cases h
  rename_i row hown
  split at h
  · cases h
  rename_i hl
  split at h
  · cases h
  next run hrun =>
    cases h
    exact ⟨row, run, hown, not_not.1 hl, hrun, rfl, rfl⟩

theorem start_inv {lease' : RunLease} (h : start s lease at' = .ok (lease', s')) :
    s'.run.status = .running ∧ s.SameTables s' ∧ s.run.SameIdentity s'.run ∧
      lease'.executionEpoch = s.run.executionEpoch ∧
      lease'.checkpointId = s.run.lastCheckpointId ∧ lease'.generation = lease.generation ∧
      lease.executionEpoch = s.run.executionEpoch := by
  obtain ⟨_, run, hown, -, hrun, rfl, rfl⟩ := start_ok h
  obtain ⟨-, hm, -, hep⟩ := ownedLeaseRow_ok hown
  obtain ⟨hst, hid⟩ := transitionRun_frame hrun
  exact ⟨hst, ⟨rfl, rfl, rfl, rfl, rfl⟩, hid, hid.executionEpoch, hid.lastCheckpointId,
    RunLeaseRecord.matches_generation hm, hep⟩

theorem heartbeat_ok {c : Bool} (h : heartbeat s lease at' ex = .ok (c, s')) :
    ∃ row, ownedLeaseRow s lease at' = .ok row ∧
      (s.run.status = .leased ∨ s.run.status = .running) ∧
      s' = { s with
        lease := some { row with lastHeartbeatAt := at', expiresAt := ex }
        run := { s.run with leaseExpiresAt := some ex } } := by
  unfold heartbeat at h
  split at h
  · cases h
  rename_i row hown
  split at h
  · cases h
  next ha =>
    cases h
    refine ⟨row, hown, ?_, rfl⟩
    by_contra hn
    exact ha (not_or.1 hn)

theorem heartbeat_inv {c : Bool} (h : heartbeat s lease at' ex = .ok (c, s')) :
    s'.run.status = s.run.status ∧ s.SameTables s' ∧ s.run.SameIdentity s'.run := by
  obtain ⟨_, -, -, rfl⟩ := heartbeat_ok h
  exact ⟨rfl, ⟨rfl, rfl, rfl, rfl, rfl⟩, ⟨rfl, rfl, rfl, rfl, rfl, rfl, rfl, rfl⟩⟩

theorem finish_ok {result : RunExecutionResult} {status : RunStatus}
    (h : finish s lease result at' = .ok (status, s')) :
    ∃ row run, ownedLeaseRow s lease at' = .ok row ∧
      status = (if s.run.cancellationRequested then .cancelled else result.status) ∧
      transitionRun s.run status at' = .ok run ∧
      s' = { s with
        run := { run with
          lastCheckpointId := result.lastCheckpointId <|> run.lastCheckpointId
          retryReadyAt :=
            if status = .retryPending then result.retryDelay.map (at' + ·) else none }
        lease := none } := by
  unfold finish at h
  split at h
  · cases h
  rename_i row hown
  dsimp only at h
  split at h
  · cases h
  next run hrun =>
    cases h
    exact ⟨row, run, hown, rfl, hrun, rfl⟩

theorem finish_inv {result : RunExecutionResult} {status : RunStatus}
    (h : finish s lease result at' = .ok (status, s')) :
    status = (if s.run.cancellationRequested then .cancelled else result.status) ∧
      status ∈ allowedRunTransitions s.run.status ∧ s'.run.status = status ∧ s.SameTables s' ∧
      s'.run.executionEpoch = s.run.executionEpoch ∧
      s'.run.lastCheckpointId = (result.lastCheckpointId <|> s.run.lastCheckpointId) ∧
      s'.lease = none ∧ s'.run.leaseGeneration = s.run.leaseGeneration ∧
      lease.executionEpoch = s.run.executionEpoch := by
  obtain ⟨_, run, hown, hs, hrun, rfl⟩ := finish_ok h
  obtain ⟨-, -, -, hep⟩ := ownedLeaseRow_ok hown
  obtain ⟨hst, hid⟩ := transitionRun_frame hrun
  refine ⟨hs, transitionRun_allowed hrun, hst, ⟨rfl, rfl, rfl, rfl, rfl⟩,
    hid.executionEpoch, ?_, rfl, hid.leaseGeneration, hep⟩
  rw [← hid.lastCheckpointId]

/-- **Everything a recovery pass can do to a run.** -/
inductive Recovered (s : RunStore) (at' : Timestamp) : RunStore → Prop
  | kept : Recovered s at' s
  | retried {run : Run} (pending : s.run.status = .retryPending)
      (moved : transitionRun s.run .queued at' = .ok run) :
      Recovered s at' { s with run := { run with retryReadyAt := none } }
  | cancelled {row : RunLeaseRecord} {run : Run} (held : s.lease = some row)
      (expired : row.expiresAt ≤ at') (assigned : s.run.status = .leased ∨ s.run.status = .running)
      (requested : s.run.cancellationRequested = true)
      (moved : transitionRun s.run .cancelled at' = .ok run) :
      Recovered s at' { s with run := run, lease := none }
  | requeued {row : RunLeaseRecord} {lost run : Run} (held : s.lease = some row)
      (expired : row.expiresAt ≤ at') (assigned : s.run.status = .leased ∨ s.run.status = .running)
      (unrequested : s.run.cancellationRequested = false)
      (moved : transitionRun s.run .lost at' = .ok lost)
      (moved' : transitionRun lost .queued at' = .ok run) :
      Recovered s at' { s with run := run, lease := none }
  | discarded {row : RunLeaseRecord} (held : s.lease = some row)
      (foreign : ¬ (s.run.leaseGeneration = row.generation ∧
        s.run.assignedWorkerId = some row.workerId ∧
        (s.run.status = .leased ∨ s.run.status = .running))) :
      Recovered s at' { s with lease := none }

theorem recoverExpired_ok (h : recoverExpired s at' = .ok s') : Recovered s at' s' := by
  unfold recoverExpired at h
  split at h
  next hr =>
    split at h
    · cases h
    next run hrun =>
      cases h
      exact .retried hr.1 hrun
  · split at h
    · cases h
      exact .kept
    rename_i row hrow
    split at h
    · cases h
      exact .kept
    rename_i he
    split at h
    next hown =>
      split at h
      next hreq =>
        split at h
        · cases h
        next run hrun =>
          cases h
          exact .cancelled hrow (not_lt.1 he) hown.2.2 hreq hrun
      next hreq =>
        split at h
        · cases h
        rename_i lost hl
        split at h
        · cases h
        next run hrun =>
          cases h
          exact .requeued hrow (not_lt.1 he) hown.2.2 (by simpa using hreq)
            hl hrun
    next hf =>
      cases h
      exact .discarded hrow hf

theorem recoverExpired_inv (h : recoverExpired s at' = .ok s') :
    s.SameTables s' ∧ s.run.SameIdentity s'.run ∧
      (s'.run.status = s.run.status ∨ s'.run.status = .queued ∨ s'.run.status = .cancelled) := by
  cases recoverExpired_ok h with
  | kept => exact ⟨.refl s, .refl _, .inl rfl⟩
  | retried _ moved =>
    obtain ⟨hst, hid⟩ := transitionRun_frame moved
    exact ⟨⟨rfl, rfl, rfl, rfl, rfl⟩,
      ⟨hid.1, hid.2, hid.3, hid.4, hid.5, hid.6, hid.7, hid.8⟩, .inr (.inl hst)⟩
  | cancelled _ _ _ _ moved =>
    obtain ⟨hst, hid⟩ := transitionRun_frame moved
    exact ⟨⟨rfl, rfl, rfl, rfl, rfl⟩, hid, .inr (.inr hst)⟩
  | requeued _ _ _ _ moved moved' =>
    obtain ⟨-, hid⟩ := transitionRun_frame moved
    obtain ⟨hst, hid'⟩ := transitionRun_frame moved'
    exact ⟨⟨rfl, rfl, rfl, rfl, rfl⟩, hid.trans hid', .inr (.inl hst)⟩
  | discarded => exact ⟨⟨rfl, rfl, rfl, rfl, rfl⟩, .refl _, .inl rfl⟩

/-- **Everything the request of a cancellation can do.** -/
inductive CancelRequested (s : RunStore) (at' : Timestamp) : RunStore → Prop
  | kept (terminal : s.run.status.terminal = true) : CancelRequested s at' s
  | cancelled {run : Run} (idle : s.run.status.unassigned = true)
      (moved : transitionRun s.run .cancelled at' = .ok run) :
      CancelRequested s at' { s with run := run }
  | cancelling (assigned : s.run.status.assigned = true)
      (valid : ({ s.run with cancellationRequested := true } : Run).invalidity = none) :
      CancelRequested s at' { s with run := { s.run with cancellationRequested := true } }

theorem requestCancel_ok (h : requestCancel s at' = .ok s') : CancelRequested s at' s' := by
  unfold requestCancel at h
  split at h
  iterate 3
    next hst =>
      cases h
      exact .kept (by rw [hst]; rfl)
  iterate 4
    next hst =>
      split at h
      · cases h
      next run hrun =>
        cases h
        exact .cancelled (by rw [hst]; rfl) hrun
  all_goals
    rename_i hst
    split at h
    · cases h
    next run hrun =>
      obtain ⟨rfl, hval⟩ := Run.validate_eq_ok hrun
      cases h
      exact .cancelling (by rw [hst]; rfl) hval

theorem requestCancel_inv (h : requestCancel s at' = .ok s') :
    s.SameTables s' ∧ s.run.SameIdentity s'.run ∧ (s'.run.status = .cancelled ∨
        s'.run.status = s.run.status ∧ s.run.status ≠ .waitingApproval) := by
  cases requestCancel_ok h with
  | kept terminal =>
    exact ⟨.refl _, .refl _, .inr ⟨rfl, fun hst => by rw [hst] at terminal; cases terminal⟩⟩
  | cancelled _ moved =>
    obtain ⟨hst, hid⟩ := transitionRun_frame moved
    exact ⟨⟨rfl, rfl, rfl, rfl, rfl⟩, hid, .inl hst⟩
  | cancelling assigned =>
    exact ⟨⟨rfl, rfl, rfl, rfl, rfl⟩, ⟨rfl, rfl, rfl, rfl, rfl, rfl, rfl, rfl⟩,
      .inr ⟨rfl, fun hst => by rw [hst] at assigned; cases assigned⟩⟩

/-- **Everything a decision can do**. -/
theorem decideApproval_ok {id : Uuid} {d : ApprovalDecision} {a? : Option ApprovalRecord}
    (h : decideApproval s id d = .ok (a?, s')) :
    s' = s ∨ ∃ row run, lookup key id s.approvals = some row ∧
      row.executionEpoch = s.run.executionEpoch ∧ row.status = .pending ∧
      s' = { s with
        approvals := upsert key (row.decided d) s.approvals
        run := run } ∧
      (s.run.status = .waitingApproval ∧ s'.pendingApprovals s.run.executionEpoch = [] ∧
          transitionRun s.run .queued d.decidedAt = .ok run ∨
        ¬ (s.run.status = .waitingApproval ∧ s'.pendingApprovals s.run.executionEpoch = []) ∧
          run = s.run) := by
  unfold decideApproval at h
  split at h
  · cases h
    exact .inl rfl
  rename_i row hrow
  split at h
  · cases h
    exact .inl rfl
  rename_i hep
  have hep : row.executionEpoch = s.run.executionEpoch := not_not.1 hep
  split at h
  · cases h
  split at h
  · split at h
    · cases h
    · cases h
      exact .inl rfl
  rename_i hp
  dsimp only at h
  split at h
  · cases h
  rw [hep] at h
  split at h
  next hl =>
    split at h
    · cases h
    next run hrun =>
      cases h
      exact .inr ⟨row, run, hrow, hep, not_not.1 hp, rfl, .inl ⟨hl.1, hl.2, hrun⟩⟩
  next hm =>
    cases h
    exact .inr ⟨row, s.run, hrow, hep, not_not.1 hp, rfl, .inr ⟨hm, rfl⟩⟩

theorem decideApproval_inv {id : Uuid} {d : ApprovalDecision} {a? : Option ApprovalRecord}
    (h : decideApproval s id d = .ok (a?, s')) :
    s' = s ∨ ∃ row, lookup key id s.approvals = some row ∧
      row.executionEpoch = s.run.executionEpoch ∧ row.status = .pending ∧
      s'.approvals = upsert key (row.decided d) s.approvals ∧
      s'.approvalMode = s.approvalMode ∧ s'.messages = s.messages ∧
      s'.toolCalls = s.toolCalls ∧ s'.checkpoints = s.checkpoints ∧ s.run.SameIdentity s'.run ∧
      (s.run.status = .waitingApproval ∧ s'.pendingApprovals s.run.executionEpoch = [] ∧
          s'.run.status = .queued ∨
        ¬ (s.run.status = .waitingApproval ∧ s'.pendingApprovals s.run.executionEpoch = []) ∧
          s'.run = s.run) := by
  obtain hs | ⟨row, run, hrow, hep, hp, rfl, ⟨hw, hl, hrun⟩ | ⟨hm, rfl⟩⟩ :=
    decideApproval_ok h
  · exact .inl hs
  · obtain ⟨hst, hid⟩ := transitionRun_frame hrun
    exact .inr ⟨row, hrow, hep, hp, rfl, rfl, rfl, rfl, rfl, hid, .inl ⟨hw, hl, hst⟩⟩
  · exact .inr ⟨row, hrow, hep, hp, rfl, rfl, rfl, rfl, rfl, .refl _, .inr ⟨hm, rfl⟩⟩

theorem rewind_ok {id : Uuid} {now : Timestamp} {r? : Option Run}
    (h : rewind s id now = .ok (r?, s')) :
    r? = none ∧ s' = s ∨ ∃ record retained run, r? = some run ∧ s.checkpoint? id = some record ∧
      rewindRun s.run id = .ok run ∧
      retainedRows record.checkpoint [] (rewindRows s record.checkpoint) = .ok retained ∧
      s' = { s with
        run := { run with retryReadyAt := none }
        messages := s.messages ++ rewoundCopies run.executionEpoch now s.nextSequence retained
        taskPlans := s.taskPlans ++ [{ executionEpoch := run.executionEpoch, version := 1
                                       plan := record.checkpoint.taskPlan }] } := by
  unfold rewind at h
  split at h
  · cases h
    exact .inl ⟨rfl, rfl⟩
  rename_i record hrec
  dsimp only at h
  split at h
  · cases h
  rename_i run hrun
  split at h
  · cases h
  split at h
  · cases h
  split at h
  · cases h
  next retained hr =>
    cases h
    exact .inr ⟨record, retained, run, rfl, hrec, hrun, hr, rfl⟩

end Operations

theorem retainedRows_eq_filter {c : Checkpoint} {rows kept : List MessageRecord} {seen : List ℕ}
    (h : retainedRows c seen rows = .ok kept) :
    kept = rows.filter fun m => m.transcriptIndex.all (· ≤ c.messageSequence) := by
  induction rows generalizing seen kept with
  | nil =>
    cases h
    rfl
  | cons m rest ih =>
    have hk : ∀ {seen'}, (retainedRows c seen' rest).map (m :: ·) = .ok kept →
        kept = m :: rest.filter fun m => m.transcriptIndex.all (· ≤ c.messageSequence) := by
      intro seen' hmap
      obtain ⟨kept', hr, rfl⟩ := except_map_ok hmap
      rw [ih hr]
    unfold retainedRows at h
    rw [List.filter_cons]
    cases hind : m.transcriptIndex with
    | none =>
      rw [hind] at h
      exact hk h
    | some =>
      rw [hind] at h
      dsimp only at h
      split at h
      · cases h
      split at h
      next hle =>
        split at h
        · cases h
        rw [all_some, if_pos (decide_eq_true hle)]
        exact hk h
      next hle =>
        rw [all_some, if_neg (by simpa using hle)]
        exact ih h

theorem mem_rewoundCopies {epoch : ℕ} {now : Timestamp} {m : MessageRecord} :
    ∀ {rows : List MessageRecord} {sequence : ℕ}, m ∈ rewoundCopies epoch now sequence rows →
      m.executionEpoch = epoch ∧ m.createdAt = now ∧ ∃ source ∈ rows, m.message = source.message := by
  intro rows
  induction rows with
  | nil => intro sequence h; simp [rewoundCopies] at h
  | cons r _ ih =>
    intro sequence h
    rcases mem_cons.1 h with rfl | h
    · exact ⟨rfl, rfl, r, mem_cons_self .., rfl⟩
    · obtain ⟨he, hc, source, hs, hm⟩ := ih h
      exact ⟨he, hc, source, mem_cons_of_mem _ hs, hm⟩

theorem rewind_inv {s s' : RunStore} {id : Uuid} {now : Timestamp} {r? : Option Run}
    (h : rewind s id now = .ok (r?, s')) :
    s' = s ∨ ∃ record, s.checkpoint? id = some record ∧ s.run.status.rewindable ∧
      s'.run.status = .queued ∧ s'.run.executionEpoch = s.run.executionEpoch + 1 ∧
      s'.run.lastCheckpointId = some id ∧ s'.lease = s.lease ∧ s'.toolCalls = s.toolCalls ∧
      s'.approvals = s.approvals ∧ s'.checkpoints = s.checkpoints ∧
      s'.approvalMode = s.approvalMode ∧ s'.run.leaseGeneration = s.run.leaseGeneration ∧
      ∃ copies, s'.messages = s.messages ++ copies ∧
        ∀ m ∈ copies, m.executionEpoch = s.run.executionEpoch + 1 ∧ m.createdAt = now ∧
          ∃ source ∈ s.messages, source.executionEpoch = record.checkpoint.executionEpoch ∧
            source.createdAt ≤ record.checkpoint.createdAt ∧ m.message = source.message := by
  obtain ⟨-, hsa⟩ | ⟨record, _, run, -, hrec, hrun, hk, rfl⟩ := rewind_ok h
  · exact .inl hsa
  obtain ⟨hr, rfl⟩ := rewindRun_eq hrun
  refine .inr
    ⟨record, hrec, hr, rfl, rfl, rfl, rfl, rfl, rfl, rfl, rfl, rfl, _, rfl, ?_⟩
  intro m hm
  obtain ⟨he, hc, source, hs, hms⟩ := mem_rewoundCopies hm
  rw [retainedRows_eq_filter hk] at hs
  have hrow := (mem_filter.1 hs).1
  simp only [rewindRows, mem_filter, and_eq_true, decide_eq_true_eq] at hrow
  exact ⟨he, hc, source, hrow.1, hrow.2.1, hrow.2.2, hms⟩

end AgentPlatform
