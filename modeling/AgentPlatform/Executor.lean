/-
**The executor: one attempt's events become durable tool state.**
-/

import AgentPlatform.AgentLoop
import AgentPlatform.Recovery
import AgentPlatform.RunQueue

namespace AgentPlatform

structure BuiltContext where
  messages : List GatewayMessage
  summary : Option String := none

def loopInput (lease : RunLease) (r : RunRecoveryState) (context : Option BuiltContext) :
    AgentLoopInput :=
  { tenantId := lease.tenantId
    sessionId := lease.sessionId
    runId := lease.runId
    attempt := lease.attempt
    executionEpoch := lease.executionEpoch
    workerId := lease.workerId
    routeName := lease.routeName
    messages := context.elim r.messages (·.messages)
    checkpointId := r.checkpoint.map (·.id)
    taskPlan := r.taskPlan
    contextSummary := (context.bind (·.summary)) <|> r.contextSummary
    priorToolOutcomes := r.priorToolOutcomes
    approvalMode := r.approvalMode
    pendingToolCalls := r.pendingToolCalls }

/-- The locals of `_run_loop`. -/
structure Executor where
  observed : String → Option ToolCall := fun _ => none
  turnNumber : ℕ := 0
  lastCheckpointId : Option Uuid := none
  deferredStatus : Option RunStatus := none
  retryDelay : Option ℕ := none
  approvalDue : Option ApprovalRecord := none

def Executor.observe (x : Executor) (c : ToolCall) : Executor :=
  { x with observed := fun id => if id = c.id then some c else x.observed id }

def Executor.counted (x : Executor) (event : AgentEvent) : Executor :=
  match event.body with
  | .modelRequestStarted .. => { x with turnNumber := x.turnNumber + 1 }
  | _ => x

def receivedRecord (lease : RunLease) (turnNumber : ℕ) (call : GatewayToolCall) (hash : String) :
    ToolCall :=
  { id := call.id, runId := lease.runId, executionEpoch := lease.executionEpoch
    turnNumber := max 1 turnNumber, toolName := call.name, arguments := call.arguments
    argumentHash := hash, status := .received }

def resultRevision (result : Option JsonObject) : Option String :=
  match result.bind (·.get? "workspace_revision") with
  | some (.str revision) => some revision
  | _ => none

/-- The record `_persist_tool_state` saves for an event, before validation. -/
def Executor.eventRecord (x : Executor) (lease : RunLease) (event : AgentEvent) : Option ToolCall :=
  match event.body with
  | .toolCallReceived _ call hash => some (receivedRecord lease x.turnNumber call hash)
  | .toolApprovalRequired _ call _ _ =>
    match x.observed call.id with
    | some c => if c.status = .received then some { c with status := .waitingApproval } else none
    | none => none
  | .toolStarted id _ =>
    match x.observed id with
    | some c =>
      if c.status = .received ∨ c.status = .waitingApproval then
        some { c with status := .running, startedAt := some event.createdAt }
      else none
    | none => none
  | .toolCompleted id status result error =>
    (x.observed id).map fun c =>
      { c with
        status := status, workspaceVersion := resultRevision result, result := result,
        error := error, completedAt := some event.createdAt }
  | _ => none

def Executor.savedCall (hash : JsonObject → String) (x : Executor) (lease : RunLease)
    (event : AgentEvent) : Except Failure (Option ToolCall) :=
  match x.eventRecord lease event with
  | none => .ok none
  | some c => (c.validate hash).map some

theorem Executor.savedCall_eq_some {hash : JsonObject → String} {x : Executor} {lease : RunLease}
    {event : AgentEvent} {c : ToolCall} (h : x.savedCall hash lease event = .ok (some c)) :
    ∃ record, x.eventRecord lease event = some record ∧ record.validate hash = .ok c := by
  unfold Executor.savedCall at h
  split at h
  · cases h
  rename_i record hrec
  refine ⟨record, hrec, ?_⟩
  cases hval : record.validate hash with
  | error =>
    rw [hval] at h
    cases h
  | ok =>
    rw [hval] at h
    cases h
    rfl

def approvalRequest (lease : RunLease) (event : AgentEvent) : Option ApprovalRecord :=
  match event.body with
  | .toolApprovalRequired approvalId call _ reason =>
    some
      { id := approvalId, executionEpoch := lease.executionEpoch, toolCallId := call.id
        status := .pending, reason := reason, arguments := call.arguments
        requestedAt := event.createdAt }
  | _ => none

/-- What `_run_loop` remembers from an event. -/
def Executor.noted (x : Executor) (event : AgentEvent) : Executor :=
  match event.body with
  | .checkpointCreated id .. => { x with lastCheckpointId := some id }
  | .toolApprovalRequired .. => { x with deferredStatus := some .waitingApproval }
  | .runRetryScheduled _ delay _ =>
    { x with deferredStatus := some .retryPending, retryDelay := some delay }
  | _ => x

def Executor.finished (x : Executor) (event : AgentEvent) : Option RunExecutionResult :=
  match event.body with
  | .runCompleted _ checkpointId =>
    some { status := .completed, lastCheckpointId := checkpointId <|> x.lastCheckpointId }
  | .runFailed error =>
    some { status := .failed, lastCheckpointId := x.lastCheckpointId, error := some error }
  | _ => none

def Executor.exhausted (x : Executor) : RunExecutionResult :=
  match x.deferredStatus with
  | some status =>
    { status := status, lastCheckpointId := x.lastCheckpointId, retryDelay := x.retryDelay }
  | none =>
    { status := .failed, lastCheckpointId := x.lastCheckpointId
      error := some
        { code := "agent_loop_incomplete"
          message := "the agent loop ended without a terminal result", retryable := true } }

end AgentPlatform
