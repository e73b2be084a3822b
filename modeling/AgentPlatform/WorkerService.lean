/-
**The worker service: one claimed attempt and the tasks around it.**
-/

import AgentPlatform.Fleet
import AgentPlatform.Recovery

namespace AgentPlatform

/-- What an awaited call raises. -/
inductive Raised where
  | cancelled
  | timeout
  | domain (error : ErrorDetail)
  | other
  deriving DecidableEq

inductive Phase where
  | load | slot | restore | execute
  deriving DecidableEq

inductive PhaseResult where
  | recovered (recovery : RunRecoveryState)
  | acquired
  | restored
  | executed (result : RunExecutionResult)
  deriving DecidableEq

structure Operation where
  phase : Phase
  registered : Bool := false
  cancelRequested : Bool := false
  outcome : Option (Except Raised PhaseResult) := none
  deriving DecidableEq

inductive HeartbeatTask where
  | absent
  | beating
  | stopped (error : Option Raised)
  deriving DecidableEq

/-- Where a call of `queue.finish` stands. -/
inductive FinishSite where
  | body
  | handler
  deriving DecidableEq

inductive ProcessPoint where
  | starting
  | acquiring
  | waiting
  | reaping (error : Option Raised)
  | finishing (site : FinishSite)
  | stoppingHeartbeat
  | releasingWorkspace
  | ended
  deriving DecidableEq

/-- What the log of an attempt keeps. -/
inductive AttemptEvent where
  | executionStarted
  | effect
  | executionEnded
  | finishCalled (result : RunExecutionResult)
  deriving DecidableEq

structure WorkerAttempt where
  lease : RunLease
  point : ProcessPoint := .starting
  operation : Option Operation := none
  heartbeat : HeartbeatTask := .absent
  workspaceLease : Option WorkspaceWriterLease := none
  sandboxSlot : Bool := false
  recovery : Option RunRecoveryState := none
  log : List AttemptEvent := []
  deriving DecidableEq

/-- `AgentLoopRunExecutor.cancel`. -/
def WorkerAttempt.cancelExecutor (a : WorkerAttempt) : WorkerAttempt :=
  { a with operation := a.operation.map fun op =>
      if op.phase = .execute ∧ op.registered then { op with cancelRequested := true } else op }

/-- The end of the `finally` block. -/
def WorkerAttempt.releaseWorkspace (a : WorkerAttempt) : WorkerAttempt :=
  { a with point := if a.workspaceLease.isSome then .releasingWorkspace else .ended }

/-- The `finally` block. -/
def WorkerAttempt.leave (a : WorkerAttempt) : WorkerAttempt :=
  let a := { a with sandboxSlot := false }
  match a.heartbeat with
  | .absent => a.releaseWorkspace
  | _ => { a with point := .stoppingHeartbeat }

/-- A call of `queue.finish`. -/
def WorkerAttempt.finish (a : WorkerAttempt) (site : FinishSite) (result : RunExecutionResult) :
    WorkerAttempt :=
  { a with point := .finishing site, log := a.log ++ [.finishCalled result] }

def failedResult (error : ErrorDetail) : RunExecutionResult :=
  { status := .failed, error := some error }

def runTimeout : ErrorDetail :=
  { code := "run_timeout"
    message := "the run attempt exceeded its wall-clock limit"
    retryable := true }

def workerExecutionFailed : ErrorDetail :=
  { code := "worker_execution_failed"
    message := "the worker could not complete the run attempt"
    retryable := true }

/-- The `except` clauses of `_process_owned`. -/
def WorkerAttempt.handle (a : WorkerAttempt) : Raised → WorkerAttempt
  | .cancelled => a.cancelExecutor.leave
  | .timeout => a.cancelExecutor.finish .handler (failedResult runTimeout)
  | .domain error =>
    if error.code = "run_lease_lost" ∨ error.code = "run_lease_expired" then
      a.cancelExecutor.leave
    else if error.code = "run_cancellation_requested" then
      a.cancelExecutor.finish .handler { status := .cancelled }
    else a.finish .handler (failedResult error)
  | .other => a.finish .handler (failedResult workerExecutionFailed)

def requireWorkspaceLease (workspaceLease : Option WorkspaceWriterLease) (lease : RunLease) :
    Except Raised WorkspaceWriterLease :=
  match workspaceLease with
  | none =>
    .error (.domain {
      code := "workspace_lease_conflict"
      message := "the claimed run does not own its workspace writer lease"
      retryable := true
      details := .ofList [("workspace_id", .str (uuidText lease.workspaceId))] })
  | some w =>
    if w.tenantId ≠ lease.tenantId ∨ w.workspaceId ≠ lease.workspaceId ∨
        w.runId ≠ lease.runId ∨ w.workerId ≠ lease.workerId ∨
        w.runLeaseToken ≠ lease.leaseToken ∨ lease.expiresAt < w.expiresAt then
      .error (.domain {
        code := "workspace_lease_invalid"
        message := "the workspace writer lease does not match the active run lease"
        retryable := true
        details := .ofList [("workspace_id", .str (uuidText lease.workspaceId))] })
    else .ok w

def WorkerAttempt.await (a : WorkerAttempt) (phase : Phase) : WorkerAttempt :=
  { a with
    point := .waiting
    operation := some { phase := phase }
    log := if phase = .execute then a.log ++ [.executionStarted] else a.log }

def WorkerAttempt.afterSlot (a : WorkerAttempt) : WorkerAttempt :=
  match a.recovery with
  | none => a.await .execute
  | some recovery =>
    match recovery.checkpoint, recovery.workspaceRestoreRevision with
    | none, _ => a.await .execute
    | some _, some _ => a.await .restore
    | some _, none =>
      a.handle (.domain {
        code := "recovery_state_invalid"
        message := "checkpoint recovery is missing its workspace revision" })

def WorkerAttempt.advance (a : WorkerAttempt) : PhaseResult → WorkerAttempt
  | .recovered recovery => { a with recovery := some recovery }.await .slot
  | .acquired => { a with sandboxSlot := true }.afterSlot
  | .restored => a.await .execute
  | .executed result => a.finish .body result

def heartbeatLost : ErrorDetail :=
  { code := "run_lease_lost"
    message := "the lease heartbeat stopped before the worker phase completed"
    retryable := true }

/-- `_wait_phase_or_heartbeat` when the process task runs again. -/
def WorkerAttempt.resume (a : WorkerAttempt) : WorkerAttempt :=
  match a.point, a.operation with
  | .waiting, some op =>
    match a.heartbeat, op.outcome with
    | .stopped (some .cancelled), _ => a.handle .cancelled
    | .stopped error, _ => { a with point := .reaping error }
    | _, some (.ok result) => a.advance result
    | _, some (.error raised) => a.handle raised
    | _, none => a
  | .reaping error, some op =>
    match op.outcome with
    | none => a
    | some (.ok _) => a.handle (error.getD (.domain heartbeatLost))
    | some (.error .cancelled) => a.handle (error.getD (.domain heartbeatLost))
    | some (.error raised) => a.handle raised
  | _, _ => a

/-- How `AgentLoopRunExecutor.execute` ends. -/
def executionOutcome (cancelRequested : Bool) (body : Except Raised RunExecutionResult)
    (cleanup : Except Raised Unit) : Except Raised RunExecutionResult :=
  let outcome :=
    match body with
    | .error .cancelled => if cancelRequested then .ok { status := .cancelled } else body
    | _ => body
  match cleanup, outcome with
  | .ok _, _ => outcome
  | .error .cancelled, _ => .error .cancelled
  | .error _, .error raised => .error raised
  | .error _, .ok _ =>
    .error (.domain {
      code := "worker_attempt_cleanup_failed"
      message := "worker attempt resources could not be released"
      retryable := true })

def Operation.settle (op : Operation) (outcome : Except Raised PhaseResult) : Operation :=
  { op with outcome := some outcome }

def WorkerAttempt.endExecution (a : WorkerAttempt) (op : Operation)
    (outcome : Except Raised RunExecutionResult) : WorkerAttempt :=
  { a with
    operation := some (op.settle (outcome.map .executed))
    log := a.log ++ [.executionEnded] }

inductive WorkerStep where
  | startReturns (answer : Except Raised RunLease)
  | acquireReturns (answer : Except Raised (Option WorkspaceWriterLease))
  | phaseEnds (outcome : Except Raised PhaseResult)
  | executionRegisters
  | executionActs
  | executionEnds (body : Except Raised RunExecutionResult) (cleanup : Except Raised Unit)
  | executionRefused (cancelled : Bool)
  | heartbeatCancels
  | heartbeatStops (error : Option Raised)
  | resumes
  | timerFires
  | shutdown
  | finishReturns (answer : Except Raised Unit)
  | heartbeatReaped
  | workspaceReleased
  deriving DecidableEq

def PhaseResult.phase : PhaseResult → Phase
  | .recovered _ => .load
  | .acquired => .slot
  | .restored => .restore
  | .executed _ => .execute

def cancellationRequestedError (lease : RunLease) : ErrorDetail :=
  { code := "run_cancellation_requested"
    message := "distributed cancellation was requested for the run"
    details := .ofList [("run_id", .str (uuidText lease.runId))] }

/-- `queue.start` has answered. -/
def WorkerAttempt.started (a : WorkerAttempt) : Except Raised RunLease → WorkerAttempt
  | .error raised => a.handle raised
  | .ok lease =>
    let a := { a with lease := lease }
    if lease.cancellationRequested then a.finish .body { status := .cancelled }
    else { a with point := .acquiring }

/-- `workspace_leases.acquire` has answered. -/
def WorkerAttempt.acquired (a : WorkerAttempt)
    (answer : Except Raised (Option WorkspaceWriterLease)) : WorkerAttempt :=
  match answer.bind (requireWorkspaceLease · a.lease) with
  | .error raised => a.handle raised
  | .ok w => { a with workspaceLease := some w, heartbeat := .beating }.await .load

/-- `queue.finish` has answered. -/
def WorkerAttempt.finished (a : WorkerAttempt) (site : FinishSite) :
    Except Raised Unit → WorkerAttempt
  | .ok _ => a.leave
  | .error raised =>
    match site with
    | .body => a.handle raised
    | .handler => a.leave

def WorkerAttempt.cancelled (a : WorkerAttempt) : WorkerAttempt :=
  match a.point with
  | .starting | .acquiring | .waiting | .finishing .body => a.handle .cancelled
  | .reaping _ | .stoppingHeartbeat => a
  | .finishing .handler => a.leave
  | .releasingWorkspace | .ended => { a with point := .ended }

def WorkerAttempt.apply (a : WorkerAttempt) (step : WorkerStep) : WorkerAttempt :=
  match step with
  | .startReturns answer => if a.point = .starting then a.started answer else a
  | .acquireReturns answer => if a.point = .acquiring then a.acquired answer else a
  | .phaseEnds outcome =>
    match a.operation with
    | some op =>
      if op.phase ≠ .execute ∧ op.outcome = none ∧
          (outcome.toOption.all fun r => r.phase = op.phase) then
        { a with operation := some (op.settle outcome) }
      else a
    | none => a
  | .executionRegisters =>
    match a.operation with
    | some op =>
      if op.phase = .execute ∧ op.outcome = none then
        { a with operation := some { op with registered := true } }
      else a
    | none => a
  | .executionActs =>
    match a.operation with
    | some op =>
      if op.phase = .execute ∧ op.outcome = none ∧ op.registered then
        { a with log := a.log ++ [.effect] }
      else a
    | none => a
  | .executionEnds body cleanup =>
    match a.operation with
    | some op =>
      if op.phase = .execute ∧ op.outcome = none ∧ op.registered then
        a.endExecution op (executionOutcome op.cancelRequested body cleanup)
      else a
    | none => a
  | .executionRefused cancelled =>
    match a.operation with
    | some op =>
      if op.phase = .execute ∧ op.outcome = none ∧ ¬ op.registered then
        a.endExecution op (.error (if cancelled then .cancelled else .other))
      else a
    | none => a
  | .heartbeatCancels =>
    if a.heartbeat = .beating then
      { a.cancelExecutor with
        heartbeat := .stopped (some (.domain (cancellationRequestedError a.lease))) }
    else a
  | .heartbeatStops error =>
    if a.heartbeat = .beating then { a with heartbeat := .stopped error } else a
  | .resumes => a.resume
  | .timerFires =>
    -- the timer covers the wait for the execution only
    if a.point = .waiting ∧ a.operation.any (·.phase = .execute) then a.handle .timeout else a
  | .shutdown => a.cancelled
  | .finishReturns answer =>
    match a.point with
    | .finishing site => a.finished site answer
    | _ => a
  | .heartbeatReaped =>
    match a.point, a.heartbeat with
    | .stoppingHeartbeat, .stopped (some .timeout) => { a with point := .ended }
    | .stoppingHeartbeat, .stopped (some .other) => { a with point := .ended }
    | .stoppingHeartbeat, .stopped _ => a.releaseWorkspace
    | _, _ => a
  | .workspaceReleased =>
    if a.point = .releasingWorkspace then { a with point := .ended } else a

def claimedAttempt (lease : RunLease) : WorkerAttempt := { lease := lease }

def WorkerAttempt.executing (a : WorkerAttempt) : Bool :=
  a.operation.any fun op => op.phase = .execute && op.outcome.isNone

end AgentPlatform
