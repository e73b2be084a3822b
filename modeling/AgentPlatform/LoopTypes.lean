/-
**What the agent loop is given, what it emits, and what it asks its surroundings to do.**
-/

import AgentPlatform.DomainValues

namespace AgentPlatform

def jsonNat (n : ℕ) : Json := .num (Nat.repr n)

def maxEventPayloadBytes : ℕ := 1024 * 1024

structure AgentLoopConfig where
  maxTurns : ℕ := 20
  maxToolCalls : ℕ := 50
  maxSemanticRetries : ℕ := 3
  maxContextMessages : ℕ := 256
  maxGatewayRequestBytes : ℕ := maxEventPayloadBytes
  maxModelOutputBytes : ℕ := 256 * 1024
  maxToolArgumentBytes : ℕ := 256 * 1024
  maxToolResultBytes : ℕ := 256 * 1024
  maxToolOutputBytes : ℕ := 256 * 1024

structure DurableToolOutcome where
  toolCallId : String
  toolName : String
  turnNumber : ℕ
  argumentHash : String
  status : ToolCallStatus
  workspaceVersion : Option String := none
  result : Option JsonObject := none
  error : Option ErrorDetail := none
  deriving DecidableEq

structure DurablePendingToolCall where
  toolCallId : String
  toolName : String
  turnNumber : ℕ
  arguments : JsonObject
  argumentHash : String
  approvalId : Option Uuid := none
  approvalApproved : Option Bool := none
  approvalResponse : Option String := none
  deriving DecidableEq

def DurablePendingToolCall.toGateway (p : DurablePendingToolCall) : GatewayToolCall :=
  { id := p.toolCallId, name := p.toolName, arguments := p.arguments }

structure AgentLoopInput where
  tenantId : Uuid
  sessionId : Uuid
  runId : Uuid
  attempt : ℕ
  executionEpoch : ℕ := 1
  workerId : String
  routeName : String
  messages : List GatewayMessage
  checkpointId : Option Uuid := none
  taskPlan : JsonObject := .nil
  contextSummary : Option String := none
  priorToolOutcomes : List DurableToolOutcome := []
  approvalMode : ApprovalMode := .autoApprove
  pendingToolCalls : List DurablePendingToolCall := []

inductive EventBody where
  | runStarted (attempt : ℕ) (workerId : String)
  | contextBuildStarted (messageCount : ℕ) (checkpointId : Option Uuid)
  | modelRequestStarted (modelCallId requestId routeName : String)
  | modelTextDelta (modelCallId delta : String)
  | toolCallReceived (modelCallId : String) (call : GatewayToolCall) (argumentHash : String)
  | toolCallRejected (modelCallId toolCallId toolName : String) (error : ErrorDetail)
  | toolApprovalRequired (approvalId : Uuid) (call : GatewayToolCall) (argumentHash reason : String)
  | toolStarted (toolCallId toolName : String)
  | toolOutput (toolCallId chunk : String) (truncated stderr : Bool)
  | toolCompleted (toolCallId : String) (status : ToolCallStatus) (result : Option JsonObject)
      (error : Option ErrorDetail)
  | checkpointCreated (checkpointId : Uuid) (toolCallId : String) (messageSequence : ℕ)
      (workspaceRevision : String)
  | runRetryScheduled (attempt delaySeconds : ℕ) (error : ErrorDetail)
  | runCompleted (finalText : String) (checkpointId : Option Uuid)
  | runFailed (error : ErrorDetail)
  deriving DecidableEq

structure AgentEvent where
  sequence : ℕ
  createdAt : Timestamp
  body : EventBody
  deriving DecidableEq

/-- `LoopEventFactory`: the events built so far, and the clock readings. -/
structure EventFactory where
  sequence : ℕ := 0
  reads : ℕ := 0
  deriving DecidableEq

inductive GatewayFinishReason where
  | stop | toolCalls | length | contentFilter
  deriving DecidableEq

/-- Normalized model-stream events. -/
inductive GatewayEvent where
  | textDelta (delta : String)
  | toolCall (call : GatewayToolCall)
  | invalidToolCall (toolCallId toolName : String) (error : ErrorDetail)
  | responseCompleted (finishReason : GatewayFinishReason)
  | invalid
  deriving DecidableEq

inductive StreamEnd where
  | closed
  | timedOut
  | raised (error : ErrorDetail)
  | crashed
  deriving DecidableEq

structure GatewayStream where
  events : List GatewayEvent
  ending : StreamEnd := .closed
  deriving DecidableEq

def GatewayEvent.call? : GatewayEvent → Option GatewayToolCall
  | .toolCall call => some call
  | _ => none

def GatewayStream.proposedCalls (stream : GatewayStream) : List GatewayToolCall :=
  stream.events.filterMap GatewayEvent.call?

def GatewayEvent.callId? : GatewayEvent → Option String
  | .toolCall call => some call.id
  | .invalidToolCall id .. => some id
  | _ => none

def GatewayStream.callIds (stream : GatewayStream) : List String :=
  stream.events.filterMap GatewayEvent.callId?

structure GatewayRequest where
  tenantId : Uuid
  sessionId : Uuid
  runId : Uuid
  executionEpoch : ℕ
  turnNumber : ℕ
  modelCallId : String
  requestId : String
  routeName : String
  messages : List GatewayMessage
  deriving DecidableEq

structure InvalidToolCall where
  toolCallId : String
  toolName : String
  error : ErrorDetail
  deriving DecidableEq

structure ModelTurnResult where
  text : String
  toolCalls : List GatewayToolCall
  invalidToolCalls : List InvalidToolCall
  finishReason : GatewayFinishReason
  deriving DecidableEq

def ModelTurnResult.callIds (r : ModelTurnResult) : List String :=
  r.toolCalls.map (·.id) ++ r.invalidToolCalls.map (·.toolCallId)

def ModelTurnResult.hasToolCalls (r : ModelTurnResult) : Bool :=
  !r.toolCalls.isEmpty || !r.invalidToolCalls.isEmpty

def ModelTurnResult.declaresToolCalls (r : ModelTurnResult) : Bool := r.finishReason = .toolCalls

inductive ToolOutputChannel where
  | stdout | stderr
  deriving DecidableEq

inductive ToolStreamItem where
  | output (channel : ToolOutputChannel) (chunk : String)
  | completed (result : JsonObject)
  | unsupported
  deriving DecidableEq

structure ToolStream where
  items : List ToolStreamItem
  ending : StreamEnd := .closed
  deriving DecidableEq

structure ToolRegistry where
  effect? : String → Option ToolEffect
  issues : String → JsonObject → Option JsonArray

def ToolRegistry.prepare (tools : ToolRegistry) (name : String) (arguments : JsonObject) :
    Except ErrorDetail ToolEffect :=
  match tools.effect? name with
  | none =>
    .error
      { code := "unknown_tool", message := "the requested tool is not registered"
        details := .ofList [("tool_name", .str name)] }
  | some effect =>
    match tools.issues name arguments with
    | some issues =>
      .error
        { code := "malformed_tool_arguments"
          message := "model-generated tool arguments failed schema validation"
          details := .ofList [("tool_name", .str name), ("issues", .arr issues)] }
    | none => .ok effect

structure WorkspaceSnapshot where
  id : Uuid
  uri : String
  revision : String
  deriving DecidableEq

/-- How creating a checkpoint fails. -/
inductive CheckpointFailure where
  | domain (error : ErrorDetail)
  | other
  deriving DecidableEq

structure CheckpointCoordinator where
  snapshotBefore : String → Except CheckpointFailure WorkspaceSnapshot
  snapshotAfter : String → Option WorkspaceSnapshot
  rollback : String → Bool

structure Redactor where
  redactText : String → String
  redactJson : JsonObject → JsonObject
  redactError : ErrorDetail → ErrorDetail
  feed : List String → String
  finish : List String → String

structure LoopEnv where
  config : AgentLoopConfig
  tools : ToolRegistry
  redactor : Redactor
  argumentHash : JsonObject → String
  jsonSize : JsonObject → ℕ
  requestSize : GatewayRequest → ℕ
  completionSize : String → Option Uuid → ℕ
  textChunks : String → List String
  clock : ℕ → Timestamp
  newModelCallId : ℕ → String
  newRequestId : ℕ → String
  digest : String → String
  newApprovalId : String → Uuid
  gateway : GatewayRequest → GatewayStream
  toolStream : GatewayToolCall → ToolStream
  checkpoints : Option CheckpointCoordinator

def EventFactory.make (env : LoopEnv) (f : EventFactory) (body : EventBody) :
    AgentEvent × EventFactory :=
  ({ sequence := f.sequence + 1, createdAt := env.clock f.reads, body := body },
    { sequence := f.sequence + 1, reads := f.reads + 1 })

def EventFactory.makeAll (env : LoopEnv) : EventFactory → List EventBody →
    List AgentEvent × EventFactory
  | f, [] => ([], f)
  | f, body :: rest =>
    let (event, f) := f.make env body
    let (events, f) := f.makeAll env rest
    (event :: events, f)

namespace EventFactory

@[simp] theorem makeAll_nil (env : LoopEnv) (f : EventFactory) :
    f.makeAll env [] = ([], f) := rfl

theorem makeAll_cons (env : LoopEnv) (f : EventFactory) (body : EventBody)
    (rest : List EventBody) : f.makeAll env (body :: rest) =
      ((f.make env body).1 :: ((f.make env body).2.makeAll env rest).1,
        ((f.make env body).2.makeAll env rest).2) := rfl

theorem makeAll_append (env : LoopEnv) (f : EventFactory)
    (bodies bodies' : List EventBody) : (f.makeAll env (bodies ++ bodies')).1 =
      (f.makeAll env bodies).1 ++ ((f.makeAll env bodies).2.makeAll env bodies').1 := by
  induction bodies generalizing f with
  | nil => rfl
  | cons _ _ ih =>
    rw [cons_append, makeAll_cons, ih, makeAll_cons, cons_append]

@[simp] theorem makeAll_bodies (env : LoopEnv) (f : EventFactory)
    (bodies : List EventBody) : (f.makeAll env bodies).1.map (·.body) = bodies := by
  induction bodies generalizing f with
  | nil => rfl
  | cons _ _ ih => simp [makeAll_cons, ih, EventFactory.make]

@[simp] theorem makeAll_reads (env : LoopEnv) (f : EventFactory)
    (bodies : List EventBody) : (f.makeAll env bodies).2.reads = f.reads + bodies.length := by
  induction bodies generalizing f with
  | nil => rfl
  | cons _ _ ih =>
    rw [makeAll_cons, ih, length_cons]
    simp only [EventFactory.make]
    omega

end EventFactory

def EventFactory.read (env : LoopEnv) (f : EventFactory) : Timestamp × EventFactory :=
  (env.clock f.reads, { f with reads := f.reads + 1 })

/-- What `create_before_tool` persists. -/
structure CheckpointRequest where
  id : Uuid
  runId : Uuid
  toolCallId : String
  messages : List GatewayMessage
  snapshotUri : String
  workspaceRevision : String
  taskPlan : JsonObject
  contextSummary : Option String
  createdAt : Timestamp
  deriving DecidableEq

inductive LoopStep where
  | emit (event : AgentEvent)
  | journal (startIndex : ℕ) (messages : List GatewayMessage) (occurredAt : Timestamp)
  | request (request : GatewayRequest)
  | response (result : ModelTurnResult)
  | validated (calls : List GatewayToolCall)
  | createCheckpoint (checkpoint : CheckpointRequest)
  | invokeTool (call : GatewayToolCall) (effect : ToolEffect)
  | toolReturned (call : GatewayToolCall) (effect : ToolEffect)
  | completeCheckpoint (checkpointId : Uuid) (toolCallId : String) (snapshot : WorkspaceSnapshot)
  | rollback (checkpointId : Uuid) (restored : Bool)
  deriving DecidableEq

end AgentPlatform
