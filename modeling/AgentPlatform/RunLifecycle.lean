/-
**Runs: their validator and the central transition policy.**
-/

import AgentPlatform.DomainValues

namespace AgentPlatform

/-- A durable attempt to execute agent work for a session. -/
structure Run where
  tenantId : Uuid
  id : Uuid
  sessionId : Uuid
  workspaceId : Uuid
  status : RunStatus
  attempt : ℕ := 1
  executionEpoch : ℕ := 1
  assignedWorkerId : Option String := none
  leaseExpiresAt : Option Timestamp := none
  lastCheckpointId : Option Uuid := none
  cancellationRequested : Bool := false
  createdAt : Timestamp
  startedAt : Option Timestamp := none
  completedAt : Option Timestamp := none
  leaseGeneration : ℕ := 0
  retryReadyAt : Option Timestamp := none
  deriving DecidableEq

def RunStatus.terminal : RunStatus → Bool
  | .completed | .failed | .cancelled => true
  | _ => false

def RunStatus.started : RunStatus → Bool
  | .running | .waitingApproval | .retryPending | .completed | .failed => true
  | _ => false

def RunStatus.assigned : RunStatus → Bool
  | .leased | .running => true
  | _ => false

def RunStatus.unassigned : RunStatus → Bool
  | .queued | .waitingApproval | .retryPending | .lost => true
  | _ => false

def Run.comparisonStart (r : Run) : Timestamp := r.startedAt.getD r.createdAt

/-- `Run.validate_execution_epoch` and `Run.validate_lifecycle`. -/
def Run.invalidity (r : Run) : Option String :=
  if r.attempt < r.executionEpoch then
    some "execution_epoch may not exceed the run attempt"
  else if r.startedAt.any (· < r.createdAt) then
    some "started_at may not precede created_at"
  else if r.completedAt.any (· < r.comparisonStart) then
    some "completed_at may not precede the run start"
  else if r.status.started && r.startedAt.isNone then
    some (r.status.value ++ " run must have started_at")
  else if r.status.assigned && r.assignedWorkerId.isNone then
    some (r.status.value ++ " run must have assigned_worker_id")
  else if r.status.assigned && r.leaseExpiresAt.isNone then
    some (r.status.value ++ " run must have lease_expires_at")
  else if r.status.unassigned && (r.assignedWorkerId.isSome || r.leaseExpiresAt.isSome) then
    some (r.status.value ++ " run may not retain a worker lease")
  else if r.status.terminal && r.completedAt.isNone then
    some (r.status.value ++ " run must have completed_at")
  else if !r.status.terminal && r.completedAt.isSome then
    some "non-terminal run may not have completed_at"
  else none

def Run.validate (r : Run) : Except Failure Run :=
  match r.invalidity with
  | some message => .error (.validation message)
  | none => .ok r

variable {r r' : Run} {new : RunStatus} {at' : Timestamp} {w : Option String} {e : Option Timestamp}

theorem Run.validate_eq_ok (h : r.validate = .ok r') : r' = r ∧ r.invalidity = none := by
  unfold Run.validate at h
  cases hi : r.invalidity with
  | some => rw [hi] at h; cases h
  | none => rw [hi] at h; cases h; exact ⟨rfl, rfl⟩

def allowedRunTransitions : RunStatus → List RunStatus
  | .queued => [.leased, .cancelled]
  | .leased => [.running, .queued, .cancelled, .lost]
  | .running => [.waitingApproval, .retryPending, .completed, .failed, .cancelled, .lost]
  | .waitingApproval => [.queued, .failed, .cancelled]
  | .retryPending => [.queued, .failed, .cancelled]
  | .lost => [.queued, .cancelled]
  | .completed => []
  | .failed => []
  | .cancelled => []

def invalidRunTransition (current requested : RunStatus) : Failure :=
  .domain
    { code := "invalid_run_transition"
      message := "run cannot transition from " ++ current.value ++ " to " ++ requested.value
      details := .ofList
        [("current_status", .str current.value), ("requested_status", .str requested.value),
          ("allowed_statuses", .arr (.ofList
            ((((allowedRunTransitions current).map RunStatus.value).insertionSort
              (· ≤ ·)).map Json.str)))] }

def transitionData (r : Run) (new : RunStatus) (at' : Timestamp) (workerId : Option String)
    (leaseExpiresAt : Option Timestamp) : Except Failure Run :=
  match new with
  | .leased =>
    let normalized := pythonStrip (workerId.getD "")
    match leaseExpiresAt with
    | none =>
      domainError "invalid_run_lease" "leasing a run requires worker_id and lease_expires_at"
        false (.ofList [("run_id", .str (uuidText r.id))])
    | some expiry =>
      if normalized = "" then
        domainError "invalid_run_lease" "leasing a run requires worker_id and lease_expires_at"
          false (.ofList [("run_id", .str (uuidText r.id))])
      else if expiry ≤ at' then
        domainError "invalid_run_lease" "lease_expires_at must follow the lease timestamp"
          false (.ofList [("run_id", .str (uuidText r.id))])
      else
        .ok { r with
          status := .leased, assignedWorkerId := some normalized,
          leaseExpiresAt := some expiry }
  | .running => .ok { r with status := .running, startedAt := some (r.startedAt.getD at') }
  | .waitingApproval | .retryPending | .lost =>
    .ok { r with status := new, assignedWorkerId := none, leaseExpiresAt := none }
  | .queued =>
    .ok { r with
      status := .queued, assignedWorkerId := none, leaseExpiresAt := none,
      attempt :=
        if r.status = .retryPending ∨ r.status = .lost then r.attempt + 1 else r.attempt }
  | .completed | .failed =>
    .ok { r with
      status := new, completedAt := some at', assignedWorkerId := none,
      leaseExpiresAt := none }
  | .cancelled =>
    .ok { r with
      status := .cancelled, completedAt := some at', assignedWorkerId := none,
      leaseExpiresAt := none, cancellationRequested := true }

def transitionRun (r : Run) (new : RunStatus) (occurredAt : Timestamp)
    (workerId : Option String := none) (leaseExpiresAt : Option Timestamp := none) :
    Except Failure Run :=
  if new ∉ allowedRunTransitions r.status then
    .error (invalidRunTransition r.status new)
  else if occurredAt < r.comparisonStart then
    domainError "invalid_run_transition_timestamp"
      "transition timestamp may not precede the current run lifecycle" false
      (.ofList [("run_id", .str (uuidText r.id))])
  else
    match transitionData r new occurredAt workerId leaseExpiresAt with
    | .error f => .error f
    | .ok data => data.validate

def RunStatus.rewindable : RunStatus → Bool
  | .waitingApproval | .retryPending | .completed | .failed | .cancelled | .lost => true
  | .queued | .leased | .running => false

def rewindRun (r : Run) (checkpointId : Uuid) : Except Failure Run :=
  if r.status.rewindable then
    Run.validate { r with
      status := .queued
      attempt := r.attempt + 1
      executionEpoch := r.executionEpoch + 1
      assignedWorkerId := none
      leaseExpiresAt := none
      lastCheckpointId := some checkpointId
      cancellationRequested := false
      completedAt := none }
  else
    domainError "run_rewind_state_conflict" "only suspended or terminal runs may be rewound" false
      (.ofList [("run_id", .str (uuidText r.id)), ("status", .str r.status.value)])

structure Run.SameIdentity (r r' : Run) : Prop where
  tenantId : r'.tenantId = r.tenantId
  id : r'.id = r.id
  sessionId : r'.sessionId = r.sessionId
  workspaceId : r'.workspaceId = r.workspaceId
  executionEpoch : r'.executionEpoch = r.executionEpoch
  lastCheckpointId : r'.lastCheckpointId = r.lastCheckpointId
  leaseGeneration : r'.leaseGeneration = r.leaseGeneration
  createdAt : r'.createdAt = r.createdAt

theorem Run.SameIdentity.refl (r : Run) : r.SameIdentity r :=
  ⟨rfl, rfl, rfl, rfl, rfl, rfl, rfl, rfl⟩

theorem Run.SameIdentity.trans {a b c : Run} (h : a.SameIdentity b) (h' : b.SameIdentity c) :
    a.SameIdentity c :=
  ⟨h'.1.trans h.1, h'.2.trans h.2, h'.3.trans h.3, h'.4.trans h.4, h'.5.trans h.5,
    h'.6.trans h.6, h'.7.trans h.7, h'.8.trans h.8⟩

theorem transitionData_frame (h : transitionData r new at' w e = .ok r') :
    r'.status = new ∧ r.SameIdentity r' := by
  cases new with
  | leased =>
    cases e with
    | none => simp [transitionData, domainError] at h
    | some =>
      simp only [transitionData] at h
      split at h
      · simp [domainError] at h
      · split at h
        · simp [domainError] at h
        · cases h
          exact ⟨rfl, ⟨rfl, rfl, rfl, rfl, rfl, rfl, rfl, rfl⟩⟩
  | _ =>
    simp only [transitionData, Except.ok.injEq] at h
    subst h
    exact ⟨rfl, ⟨rfl, rfl, rfl, rfl, rfl, rfl, rfl, rfl⟩⟩

theorem transitionRun_inv (h : transitionRun r new at' w e = .ok r') :
    new ∈ allowedRunTransitions r.status ∧ transitionData r new at' w e = .ok r' := by
  unfold transitionRun at h
  split at h
  · cases h
  rename_i hall
  split at h
  · simp [domainError] at h
  cases hd : transitionData r new at' w e with
  | error => rw [hd] at h; cases h
  | ok =>
    rw [hd] at h
    obtain ⟨rfl, -⟩ := Run.validate_eq_ok h
    exact ⟨not_not.1 hall, rfl⟩

theorem transitionRun_allowed (h : transitionRun r new at' w e = .ok r') :
    new ∈ allowedRunTransitions r.status :=
  (transitionRun_inv h).1

theorem transitionRun_frame (h : transitionRun r new at' w e = .ok r') :
    r'.status = new ∧ r.SameIdentity r' :=
  transitionData_frame (transitionRun_inv h).2

theorem rewindRun_eq {c : Uuid} (h : rewindRun r c = .ok r') :
    r.status.rewindable ∧ r' = { r with
      status := .queued, attempt := r.attempt + 1, executionEpoch := r.executionEpoch + 1,
      assignedWorkerId := none, leaseExpiresAt := none, lastCheckpointId := some c,
      cancellationRequested := false, completedAt := none } := by
  unfold rewindRun at h
  split at h
  next hr => exact ⟨hr, (Run.validate_eq_ok h).1⟩
  · simp [domainError] at h

end AgentPlatform
