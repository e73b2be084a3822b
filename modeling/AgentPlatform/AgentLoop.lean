/-
**The agent loop: bounded model and tool turns until a terminal event.**
-/

import AgentPlatform.ModelTurn
import AgentPlatform.ToolTurn

namespace AgentPlatform

/-- The locals of `AgentLoop.run`. -/
structure LoopState where
  factory : EventFactory
  transcript : List GatewayMessage
  journaledCount : ℕ
  toolCallCount : ℕ := 0
  semanticRetryCount : ℕ := 0
  outcomes : Outcomes
  lastCheckpointId : Option Uuid
  taskPlan : JsonObject

def redactMessage (r : Redactor) (m : GatewayMessage) : GatewayMessage :=
  { m with
    content :=
      match m.content with
      | .text value => .text (r.redactText value)
      | .toolResult result => .toolResult (r.redactJson result)
      | .toolError error => .toolError (r.redactError error)
      | .rejectedCalls calls => .rejectedCalls (calls.map fun c => (c.1, c.2.1, r.redactError c.2.2))
    toolCalls := m.toolCalls.map fun c => { c with arguments := r.redactJson c.arguments } }

def priorOutcomes (outcomes : List DurableToolOutcome) : Outcomes := fun id =>
  (outcomes.reverse.find? (·.toolCallId = id)).map fun o =>
    { toolName := o.toolName, argumentHash := some o.argumentHash, status := o.status
      result := o.result, error := o.error }

def executionIdentifier (digest : String → String) (value : String) (epoch : ℕ) : String :=
  if epoch = 1 then value
  else
    let scopedValue := "e" ++ Nat.repr epoch ++ "-" ++ value
    if scopedValue.length ≤ 255 then scopedValue else "e" ++ Nat.repr epoch ++ "-" ++ digest value

def endsWithToolCalls (transcript : List GatewayMessage) (calls : List GatewayToolCall) : Bool :=
  match transcript.getLast? with
  | none => false
  | some m => m.role = .assistant && m.toolCalls = calls

section Loop

variable (env : LoopEnv) (input : AgentLoopInput)

def LoopState.emit (st : LoopState) (bodies : List EventBody) : List LoopStep × LoopState :=
  let (events, factory) := st.factory.makeAll env bodies
  (events.map .emit, { st with factory := factory })

def journalNew (st : LoopState) : List LoopStep × LoopState :=
  if st.transcript.length ≤ st.journaledCount then ([], st)
  else
    let (now, factory) := st.factory.read env
    ([.journal st.journaledCount (st.transcript.drop st.journaledCount) now],
      { st with factory := factory, journaledCount := st.transcript.length })

def LoopState.announce (st : LoopState) (text : String) (calls : List GatewayToolCall) : LoopState :=
  { st with transcript := st.transcript ++ [assistantMessage text calls] }

def toolTurn (st : LoopState) (ctx : TurnContext) (calls : List GatewayToolCall)
    (invalid : List InvalidToolCall) : List LoopStep × LoopState × Bool :=
  let executed := executeTurn env ctx
    { factory := st.factory, transcript := st.transcript, outcomes := st.outcomes } calls invalid
  let (journal, st') := journalNew env { st with
    factory := executed.state.factory
    transcript := executed.state.transcript
    outcomes := executed.state.outcomes
    lastCheckpointId := executed.state.lastCheckpointId <|> st.lastCheckpointId
    taskPlan := executed.state.updatedTaskPlan.getD st.taskPlan
    semanticRetryCount := st.semanticRetryCount + executed.semanticFailures }
  (executed.steps ++ journal ++ executed.state.emitted.map .emit, st', executed.terminal)

def turnContext (st : LoopState) : TurnContext :=
  { runId := input.runId, taskPlan := st.taskPlan, contextSummary := input.contextSummary
    approvalMode := input.approvalMode, semanticRetryCount := st.semanticRetryCount }

def pendingDecision (pending : List DurablePendingToolCall) (id : String) : Option Bool :=
  (pending.find? (·.toolCallId = id)).bind (·.approvalApproved)

def pendingResponse (pending : List DurablePendingToolCall) (id : String) : Option String :=
  (pending.find? (·.toolCallId = id)).bind (·.approvalResponse)

def resumePending (st : LoopState) : List LoopStep × LoopState × Bool :=
  let calls := input.pendingToolCalls.map DurablePendingToolCall.toGateway
  let st := if endsWithToolCalls st.transcript calls then st else st.announce "" calls
  let (journal, st) := journalNew env st
  let (received, st) := st.emit env (calls.map fun call =>
    .toolCallReceived "approval-resume" call (env.argumentHash call.arguments))
  let ctx : TurnContext :=
    { turnContext input st with
      decisions := pendingDecision input.pendingToolCalls
      responses := pendingResponse input.pendingToolCalls }
  let (steps, st', terminal) :=
    toolTurn env { st with toolCallCount := st.toolCallCount + calls.length } ctx calls []
  (journal ++ received ++ steps, { st' with semanticRetryCount := st.semanticRetryCount }, terminal)

def failRun (st : LoopState) (error : ErrorDetail) : List LoopStep × Option LoopState :=
  ((st.emit env [.runFailed error]).1, none)

def turnRequest (st : LoopState) (turnNumber : ℕ) : GatewayRequest :=
  { tenantId := input.tenantId, sessionId := input.sessionId, runId := input.runId
    executionEpoch := input.executionEpoch, turnNumber := turnNumber
    modelCallId :=
      executionIdentifier env.digest (env.newModelCallId turnNumber) input.executionEpoch
    requestId := executionIdentifier env.digest (env.newRequestId turnNumber) input.executionEpoch
    routeName := input.routeName, messages := st.transcript }

def toolResponse (st : LoopState) (r : ModelTurnResult) : List LoopStep × Option LoopState :=
  let st := if r.text ≠ "" ∨ r.toolCalls ≠ [] then st.announce r.text r.toolCalls else st
  let (journal, st) := journalNew env st
  let (steps, st', terminal) := toolTurn env st (turnContext input st) r.toolCalls r.invalidToolCalls
  (journal ++ steps, if terminal then none else some st')

def textResponse (st : LoopState) (turnNumber : ℕ) (text : String) :
    List LoopStep × Option LoopState :=
  let (journal, st) := journalNew env (st.announce text [])
  if maxEventPayloadBytes < env.completionSize text st.lastCheckpointId then
    let (steps, next) := failRun env st
      { code := "model_output_limit"
        message := "final model output exceeded the event payload limit"
        details := .ofList [("turn", jsonNat turnNumber)] }
    (journal ++ steps, next)
  else (journal ++ (st.emit env [.runCompleted text st.lastCheckpointId]).1, none)

def emptyResponse (st : LoopState) : List LoopStep × Option LoopState :=
  let st := { st with semanticRetryCount := st.semanticRetryCount + 1 }
  if env.config.maxSemanticRetries < st.semanticRetryCount then
    failRun env st
      { code := "semantic_retry_limit", message := "model exceeded the semantic retry budget"
        details := .ofList
          [("retries", jsonNat st.semanticRetryCount),
            ("limit", jsonNat env.config.maxSemanticRetries)] }
  else
    let feedback : GatewayMessage :=
      { role := .user
        content := .text "The previous response contained neither text nor tool calls." }
    let (journal, st) := journalNew env { st with transcript := st.transcript ++ [feedback] }
    (journal, some st)

def modelResponse (st : LoopState) (turnNumber : ℕ) (r : ModelTurnResult) :
    List LoopStep × Option LoopState :=
  if r.hasToolCalls ≠ r.declaresToolCalls then
    failRun env st
      { code := "invalid_model_stream"
        message := "gateway finish reason disagreed with emitted tool calls"
        details := .ofList [("turn", jsonNat turnNumber)] }
  else if r.hasToolCalls then toolResponse env input st r
  else if r.finishReason = .length then
    failRun env st
      { code := "model_response_truncated"
        message := "model response ended because its provider length limit was reached"
        details := .ofList [("turn", jsonNat turnNumber)] }
  else if r.finishReason = .contentFilter then
    failRun env st
      { code := "model_response_blocked"
        message := "model response was blocked by a provider content filter"
        details := .ofList [("turn", jsonNat turnNumber)] }
  else if r.text ≠ "" then textResponse env st turnNumber r.text
  else emptyResponse env st

def announcedCalls (events : List AgentEvent) : ℕ :=
  events.countP fun e =>
    match e.body with
    | .toolCallReceived .. | .toolCallRejected .. => true
    | _ => false

def turn (st : LoopState) (turnNumber : ℕ) : List LoopStep × Option LoopState :=
  if env.config.maxContextMessages < st.transcript.length then
    failRun env st
      { code := "context_limit", message := "agent context exceeded the configured message limit"
        details := .ofList
          [("message_count", jsonNat st.transcript.length),
            ("limit", jsonNat env.config.maxContextMessages)] }
  else
    let request := turnRequest env input st turnNumber
    if env.config.maxGatewayRequestBytes < env.requestSize request then
      failRun env st
        { code := "context_limit", message := "gateway request exceeded the configured byte limit"
          details := .ofList
            [("request_bytes", jsonNat (env.requestSize request)),
              ("limit_bytes", jsonNat env.config.maxGatewayRequestBytes)] }
    else
      let (started, st) := st.emit env
        [.modelRequestStarted request.modelCallId request.requestId input.routeName]
      let (stream, ending) :=
        modelTurn env request.modelCallId turnNumber st.toolCallCount st.factory request
      let st := { st with
        factory := stream.factory
        toolCallCount := st.toolCallCount + announcedCalls stream.events }
      let streamed := started ++ [.request request] ++ stream.events.map .emit
      match ending with
      | .failure error =>
        let (steps, next) := failRun env st error
        (streamed ++ steps, next)
      | .result r =>
        let (steps, next) := modelResponse env input st turnNumber r
        (streamed ++ [.response r] ++ steps, next)

def turnLoop : ℕ → LoopState → List LoopStep
  | 0, st =>
    (failRun env st
      { code := "turn_limit", message := "agent reached the maximum number of model turns"
        details := .ofList [("limit", jsonNat env.config.maxTurns)] }).1
  | left + 1, st =>
    match turn env input st (env.config.maxTurns - left) with
    | (steps, none) => steps
    | (steps, some st') => steps ++ turnLoop left st'

def initialLoopState : LoopState :=
  { factory := {}
    transcript := input.messages.map (redactMessage env.redactor)
    journaledCount := input.messages.length
    outcomes := priorOutcomes input.priorToolOutcomes
    lastCheckpointId := input.checkpointId
    taskPlan := input.taskPlan }

def run : List LoopStep :=
  let st := initialLoopState env input
  let (started, st) := st.emit env
    [.runStarted input.attempt input.workerId,
     .contextBuildStarted st.transcript.length input.checkpointId]
  if input.pendingToolCalls = [] then started ++ turnLoop env input env.config.maxTurns st
  else
    match resumePending env input st with
    | (steps, _, true) => started ++ steps
    | (steps, st', false) => started ++ steps ++ turnLoop env input env.config.maxTurns st'

end Loop

end AgentPlatform
