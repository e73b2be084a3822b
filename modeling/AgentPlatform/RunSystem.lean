/-
**A run and all its attempts: workers, crashes, the queue and the control plane, in any order.**
-/

import AgentPlatform.Executor
import AgentPlatform.StoreHistory

namespace AgentPlatform

/-- Where an attempt stands (`WorkerService._process_owned`). -/
inductive AttemptPhase where
  | claimed
  | started
  | running (steps : List LoopStep) (executor : Executor)
  | finishing (result : RunExecutionResult)
  | ended

structure Attempt where
  lease : RunLease
  phase : AttemptPhase
  workspace : Workspace := []
  argumentHash : JsonObject → String := fun _ => ""

inductive LogEntry where
  | performed (generation executionEpoch : ℕ) (step : LoopStep)
  | recovered (generation executionEpoch : ℕ) (recovery : RunRecoveryState)
  | unrecovered (generation executionEpoch : ℕ) (failure : Failure)
  | rewound (executionEpoch : ℕ) (workspace : Workspace)
  deriving DecidableEq

def raisedPhase : Failure → AttemptPhase
  | .domain e =>
    if e.code = "run_lease_lost" ∨ e.code = "run_lease_expired" then .ended
    else if e.code = "run_cancellation_requested" then .finishing { status := .cancelled }
    else .finishing { status := .failed, error := some e }
  | .validation _ | .integrity _ =>
    .finishing
      { status := .failed
        error := some
          { code := "worker_execution_failed"
            message := "the worker could not complete the run attempt", retryable := true } }

def CheckpointRequest.toCheckpoint (c : CheckpointRequest) (lease : RunLease) (w : Workspace) :
    Checkpoint :=
  { id := c.id, runId := c.runId, sessionId := lease.sessionId
    executionEpoch := lease.executionEpoch, toolCallId := c.toolCallId
    messageSequence := c.messages.length, messages := c.messages
    workspaceSnapshot := { uri := c.snapshotUri, workspace := w }
    workspaceRevision := c.workspaceRevision, taskPlan := c.taskPlan
    contextSummary := c.contextSummary, createdAt := c.createdAt }

structure Performed where
  store : RunStore
  workspace : Workspace
  phase : AttemptPhase
  logged : Bool := true

def Performed.raised (s : RunStore) (w : Workspace) (f : Failure) : Performed :=
  { store := s, workspace := w, phase := raisedPhase f, logged := false }

def Performed.stopped (s : RunStore) (w : Workspace) : Performed :=
  { store := s, workspace := w, phase := .ended, logged := false }

def Executor.after (x : Executor) (rest : List LoopStep) (event : AgentEvent) : AttemptPhase :=
  let x := x.noted event
  match x.finished event with
  | some result => .finishing result
  | none => .running rest x

def emitEvent (hash : JsonObject → String) (lease : RunLease) (now : Timestamp) (s : RunStore)
    (w : Workspace) (x : Executor) (event : AgentEvent) (rest : List LoopStep) : Performed :=
  let x := x.counted event
  match x.savedCall hash lease event with
  | .error f => .raised s w f
  | .ok none =>
    match assertActiveRunLease s lease now with
    | .error f => .raised s w f
    | .ok () => { store := s, workspace := w, phase := x.after rest event }
  | .ok (some c) =>
    match saveToolCallFenced s lease now c with
    | .error f => .raised s w f
    | .ok (returned, s') =>
      { store := s', workspace := w
        phase := ({ x.observe returned with
          approvalDue := approvalRequest lease event }).after rest event }

def performStep (hash : JsonObject → String) (codec : StoreCodec) (lease : RunLease)
    (now : Timestamp) (s : RunStore) (w : Workspace) (x : Executor) (rest : List LoopStep) :
    LoopStep → Performed
  | .emit event => emitEvent hash lease now s w x event rest
  | .journal startIndex messages occurredAt =>
    match appendTranscriptFenced codec s lease now startIndex messages occurredAt with
    | .error f => .raised s w f
    | .ok (_, s') => { store := s', workspace := w, phase := .running rest x }
  | .request _ | .response _ | .validated _ | .invokeTool _ _ =>
    { store := s, workspace := w, phase := .running rest x }
  | .toolReturned call effect =>
    { store := s
      workspace := if effect.sideEffecting then w ++ [call.id] else w
      phase := .running rest x }
  | .createCheckpoint c =>
    match createCheckpointFenced s lease now (c.toCheckpoint lease w) with
    | .error _ => .stopped s w
    | .ok (_, s') => { store := s', workspace := w, phase := .running rest x }
  | .completeCheckpoint id _ snapshot =>
    match completeCheckpointFenced s lease now id { uri := snapshot.uri, workspace := w }
        snapshot.revision with
    | .error _ => .stopped s w
    | .ok (_, s') => { store := s', workspace := w, phase := .running rest x }
  | .rollback id restored =>
    if restored then
      match s.checkpoint? id with
      | none => .stopped s w
      | some row =>
        { store := s, workspace := row.checkpoint.workspaceSnapshot.workspace
          phase := .running rest x }
    else { store := s, workspace := w, phase := .running rest x }

def Attempt.work (a : Attempt) (codec : StoreCodec) (now : Timestamp) (s : RunStore) :
    Performed × Option LoopStep :=
  match a.phase with
  | .running steps x =>
    match x.approvalDue with
    | some approval =>
      match createApprovalFenced s a.lease now approval with
      | .error f => (.raised s a.workspace f, none)
      | .ok (_, s') =>
        ({ store := s', workspace := a.workspace
           phase := .running steps { x with approvalDue := none } }, none)
    | none =>
      match steps with
      | [] =>
        ({ store := s, workspace := a.workspace, phase := .finishing x.exhausted }, none)
      | step :: rest =>
        (performStep a.argumentHash codec a.lease now s a.workspace x rest step, some step)
  | phase => ({ store := s, workspace := a.workspace, phase := phase, logged := false }, none)

structure World where
  store : RunStore
  attempts : ℕ → Option Attempt := fun _ => none
  log : List LogEntry := []

inductive Interruption where
  | timeout
  | cancellation
  | raised (failure : Failure)

def Interruption.phase : Interruption → AttemptPhase
  | .timeout =>
    .finishing
      { status := .failed
        error := some
          { code := "run_timeout", message := "the run attempt exceeded its wall-clock limit"
            retryable := true } }
  | .cancellation => .finishing { status := .cancelled }
  | .raised f => raisedPhase f

inductive SystemOp where
  | claim (workerId : String) (token : Uuid) (occurredAt expiresAt : Timestamp)
  | start (generation : ℕ) (occurredAt : Timestamp)
  | heartbeat (generation : ℕ) (occurredAt expiresAt : Timestamp)
  | load (generation : ℕ) (env : LoopEnv) (codec : RecoveryCodec) (context : Option BuiltContext)
      (now : Timestamp)
  | work (generation : ℕ) (codec : StoreCodec) (now : Timestamp)
  | interrupt (generation : ℕ) (interruption : Interruption)
  | finish (generation : ℕ) (occurredAt : Timestamp)
  | recoverExpired (occurredAt : Timestamp)
  | requestCancel (occurredAt : Timestamp)
  | decide (approvalId : Uuid) (decision : ApprovalDecision)
  | rewind (checkpointId : Uuid) (now : Timestamp)

def World.setAttempt (w : World) (g : ℕ) (a : Attempt) : World :=
  { w with attempts := fun g' => if g' = g then some a else w.attempts g' }

def World.record (w : World) (entry : LogEntry) : World := { w with log := w.log ++ [entry] }

/-- `queue.start`. -/
def World.startAttempt (w : World) (g : ℕ) (a : Attempt) (occurredAt : Timestamp) : World :=
  match AgentPlatform.start w.store a.lease occurredAt with
  | .error f => w.setAttempt g { a with phase := raisedPhase f }
  | .ok (lease, s) =>
    ({ w with store := s }).setAttempt g
      { a with
        lease := lease
        phase := if lease.cancellationRequested then .finishing { status := .cancelled }
          else .started }

/-- `recovery.load`. -/
def World.loadAttempt (w : World) (g : ℕ) (a : Attempt) (env : LoopEnv) (codec : RecoveryCodec)
    (context : Option BuiltContext) (now : Timestamp) : World :=
  match AgentPlatform.load codec w.store a.lease now with
  | .error f =>
    (w.setAttempt g { a with phase := raisedPhase f }).record
      (.unrecovered g a.lease.executionEpoch f)
  | .ok r =>
    (w.setAttempt g
      { a with
        workspace := r.checkpoint.elim [] (·.workspaceSnapshot.workspace)
        argumentHash := env.argumentHash
        phase := .running (run env (loopInput a.lease r context))
          { lastCheckpointId := r.checkpoint.map (·.id) } }).record
      (.recovered g a.lease.executionEpoch r)

def World.workAttempt (w : World) (g : ℕ) (a : Attempt) (codec : StoreCodec) (now : Timestamp) :
    World :=
  let (p, step?) := a.work codec now w.store
  let w' := ({ w with store := p.store }).setAttempt g
    { a with phase := p.phase, workspace := p.workspace }
  match step? with
  | some step => if p.logged then w'.record (.performed g a.lease.executionEpoch step) else w'
  | none => w'

def World.finishAttempt (w : World) (g : ℕ) (a : Attempt) (result : RunExecutionResult)
    (occurredAt : Timestamp) : World :=
  ({ w with store := w.store.commit (AgentPlatform.finish w.store a.lease result occurredAt) }).setAttempt
    g { a with phase := .ended }

def World.claimAttempt (w : World) (workerId : String) (token : Uuid)
    (occurredAt expiresAt : Timestamp) : World :=
  match AgentPlatform.claim w.store workerId token occurredAt expiresAt with
  | .ok (some lease, s) =>
    ({ w with store := s }).setAttempt lease.generation { lease := lease, phase := .claimed }
  | .ok (none, _) | .error _ => w

def World.rewindRun (w : World) (id : Uuid) (now : Timestamp) : World :=
  match AgentPlatform.rewind w.store id now, w.store.checkpoint? id with
  | .ok (some run, s), some row =>
    ({ w with store := s }).record
      (.rewound run.executionEpoch row.checkpoint.workspaceSnapshot.workspace)
  | _, _ => w

def World.apply (w : World) : SystemOp → World
  | .claim worker token at' ex => w.claimAttempt worker token at' ex
  | .start g at' =>
    match w.attempts g with
    | some a =>
      match a.phase with
      | .claimed => w.startAttempt g a at'
      | _ => w
    | none => w
  | .heartbeat g at' ex =>
    match w.attempts g with
    | some a =>
      { w with store := w.store.commit (AgentPlatform.heartbeat w.store a.lease at' ex) }
    | none => w
  | .load g env codec context now =>
    match w.attempts g with
    | some a =>
      match a.phase with
      | .started => w.loadAttempt g a env codec context now
      | _ => w
    | none => w
  | .work g codec now =>
    match w.attempts g with
    | some a => w.workAttempt g a codec now
    | none => w
  | .interrupt g i =>
    match w.attempts g with
    | some a =>
      match a.phase with
      | .started | .running _ _ | .finishing _ => w.setAttempt g { a with phase := i.phase }
      | _ => w
    | none => w
  | .finish g at' =>
    match w.attempts g with
    | some a =>
      match a.phase with
      | .finishing result => w.finishAttempt g a result at'
      | _ => w
    | none => w
  | .recoverExpired at' =>
    { w with store := w.store.commit ((AgentPlatform.recoverExpired w.store at').map ((), ·)) }
  | .requestCancel at' =>
    { w with store := w.store.commit ((AgentPlatform.requestCancel w.store at').map ((), ·)) }
  | .decide id d => { w with store := w.store.commit (decideApproval w.store id d) }
  | .rewind id now => w.rewindRun id now

def submitted (x : Submission) : World := { store := submit x }

def scriptedEnv (origin : Timestamp) (effect? : String → Option ToolEffect)
    (answers : List GatewayStream) (toolStream : GatewayToolCall → ToolStream)
    (checkpoints : Option CheckpointCoordinator := none) : LoopEnv where
  config := {}
  tools := { effect? := effect?, issues := fun _ _ => none }
  redactor :=
    { redactText := id, redactJson := id, redactError := id, feed := fun _ => "", finish := String.join }
  argumentHash := fun _ => "hash"
  jsonSize := fun _ => 0
  requestSize := fun _ => 0
  completionSize := fun _ _ => 0
  textChunks := fun text => [text]
  clock := (origin + ·)
  newModelCallId := fun _ => "model-call"
  newRequestId := fun _ => "request"
  digest := id
  newApprovalId := fun _ => 20
  gateway := fun request => answers.getD (request.turnNumber - 1) { events := [] }
  toolStream := toolStream
  checkpoints := checkpoints

def scriptedSubmission (mode : ApprovalMode) : Submission :=
  { tenantId := 1, runId := 2, sessionId := 3, workspaceId := 4, routeName := "default"
    approvalMode := mode, messageId := 5, task := "task", plan := untaskedPlan, createdAt := 0 }

def scriptedRecovery : RecoveryCodec where
  argumentHash := fun _ => "hash"
  messageBytes := fun _ => 0
  checkpointBytes := fun _ => 0
  rowBytes := fun _ => 0
  outcomeBytes := fun _ => 0
  stateBytes := fun _ => 0

def proposing (calls : List GatewayToolCall) : GatewayStream :=
  { events := calls.map .toolCall ++ [.responseCompleted .toolCalls] }

def attemptOps (generation : ℕ) (env : LoopEnv) (at' expiresAt : Timestamp) : List SystemOp :=
  [.claim "worker" (100 + generation) at' expiresAt, .start generation at',
   .load generation env scriptedRecovery none at']

def workOps (generation count : ℕ) (at' : Timestamp) : List SystemOp :=
  List.replicate count (.work generation { messageBytes := fun _ => 0 } at')

def Attempt.reportedCode (a : Attempt) : Option String :=
  match a.phase with
  | .finishing result => result.error.map (·.code)
  | _ => none

end AgentPlatform
