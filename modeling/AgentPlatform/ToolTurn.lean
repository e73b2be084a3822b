/-
**One tool turn: validated as a whole, then executed call by call.**
-/

import AgentPlatform.ToolRun

namespace AgentPlatform

structure ToolOutcome where
  toolName : String
  argumentHash : Option String
  status : ToolCallStatus
  result : Option JsonObject := none
  error : Option ErrorDetail := none
  deriving DecidableEq

abbrev Outcomes := String → Option ToolOutcome

def Outcomes.set (o : Outcomes) (id : String) (outcome : ToolOutcome) : Outcomes :=
  fun id' => if id' = id then some outcome else o id'

def Outcomes.setDefault (o : Outcomes) (id : String) (outcome : ToolOutcome) : Outcomes :=
  match o id with
  | some _ => o
  | none => o.set id outcome

structure TurnState where
  factory : EventFactory
  transcript : List GatewayMessage
  outcomes : Outcomes
  emitted : List AgentEvent := []
  lastCheckpointId : Option Uuid := none
  updatedTaskPlan : Option JsonObject := none

structure TurnContext where
  runId : Uuid
  taskPlan : JsonObject
  contextSummary : Option String
  approvalMode : ApprovalMode
  semanticRetryCount : ℕ
  decisions : String → Option Bool := fun _ => none
  responses : String → Option String := fun _ => none

/-- `_PreparedCall`: the call with its effect, its validation error, or neither. -/
structure PreparedCall where
  call : GatewayToolCall
  argumentHash : String
  effect : Option ToolEffect := none
  validationError : Option ErrorDetail := none
  deriving DecidableEq

structure TurnRun where
  steps : List LoopStep
  state : TurnState
  semanticFailures : ℕ := 0
  terminal : Bool := false

section Turn

variable (env : LoopEnv)

def TurnState.emit (st : TurnState) (bodies : List EventBody) : TurnState :=
  let (events, factory) := st.factory.makeAll env bodies
  { st with factory := factory, emitted := st.emitted ++ events }

def TurnState.reply (st : TurnState) (id : String) (o : ToolOutcome) : TurnState :=
  let st := st.emit env [.toolCompleted id o.status o.result o.error]
  { st with transcript := st.transcript ++ [toolMessage id o.result o.error] }

def TurnState.settle (st : TurnState) (id : String) (o : ToolOutcome) : TurnState :=
  ({ st with outcomes := st.outcomes.set id o }).reply env id o

def TurnState.fail (st : TurnState) (id : String) (error : ErrorDetail) : TurnState :=
  st.emit env [.toolCompleted id .failed none (some error), .runFailed error]

@[simp] theorem TurnState.emit_transcript (st : TurnState) (bodies : List EventBody) :
    (st.emit env bodies).transcript = st.transcript := rfl

@[simp] theorem TurnState.emit_outcomes (st : TurnState) (bodies : List EventBody) :
    (st.emit env bodies).outcomes = st.outcomes := rfl

@[simp] theorem TurnState.emit_lastCheckpointId (st : TurnState) (bodies : List EventBody) :
    (st.emit env bodies).lastCheckpointId = st.lastCheckpointId := rfl

@[simp] theorem TurnState.emit_reads (st : TurnState) (bodies : List EventBody) :
    (st.emit env bodies).factory.reads = st.factory.reads + bodies.length :=
  EventFactory.makeAll_reads env st.factory bodies

theorem TurnState.emit_emitted (st : TurnState) (bodies : List EventBody) :
    (st.emit env bodies).emitted = st.emitted ++ (st.factory.makeAll env bodies).1 := rfl

def TurnState.bodies (st : TurnState) : List EventBody := st.emitted.map (·.body)

@[simp] theorem TurnState.emit_bodies (st : TurnState) (bodies : List EventBody) :
    (st.emit env bodies).bodies = st.bodies ++ bodies := by
  simp [TurnState.bodies, TurnState.emit_emitted]

@[simp] theorem TurnState.settle_transcript (st : TurnState) (id : String) (o : ToolOutcome) :
    (st.settle env id o).transcript = st.transcript ++ [toolMessage id o.result o.error] := rfl

@[simp] theorem TurnState.settle_outcomes (st : TurnState) (id : String) (o : ToolOutcome) :
    (st.settle env id o).outcomes = st.outcomes.set id o := rfl

@[simp] theorem TurnState.settle_lastCheckpointId (st : TurnState) (id : String)
    (o : ToolOutcome) : (st.settle env id o).lastCheckpointId = st.lastCheckpointId := rfl

@[simp] theorem TurnState.settle_bodies (st : TurnState) (id : String) (o : ToolOutcome) :
    (st.settle env id o).bodies = st.bodies ++ [.toolCompleted id o.status o.result o.error] := by
  exact TurnState.emit_bodies env { st with outcomes := st.outcomes.set id o }
    [.toolCompleted id o.status o.result o.error]

abbrev Identities := String → Option (String × Option String)

def Identities.set (ids : Identities) (id : String) (identity : String × Option String) :
    Identities :=
  fun id' => if id' = id then some identity else ids id'

def conflictInCalls : Identities → List GatewayToolCall → Except (String × String) Identities
  | ids, [] => .ok ids
  | ids, call :: rest =>
    let identity := (call.name, some (env.argumentHash call.arguments))
    if (ids call.id).any (· ≠ identity) then .error (call.id, call.name)
    else conflictInCalls (ids.set call.id identity) rest

def conflictInInvalid : Identities → List InvalidToolCall → Option (String × String)
  | _, [] => none
  | ids, call :: rest =>
    if (ids call.toolCallId).isSome then some (call.toolCallId, call.toolName)
    else conflictInInvalid (ids.set call.toolCallId (call.toolName, none)) rest

def findIdConflict (calls : List GatewayToolCall) (invalid : List InvalidToolCall)
    (outcomes : Outcomes) : Option (String × String) :=
  let ids : Identities := fun id => (outcomes id).map fun o => (o.toolName, o.argumentHash)
  match conflictInCalls env ids calls with
  | .error conflict => some conflict
  | .ok ids => conflictInInvalid ids invalid

def prepareCalls (outcomes : Outcomes) : List String → List GatewayToolCall → List PreparedCall
  | _, [] => []
  | prepared, call :: rest =>
    let hash := env.argumentHash call.arguments
    if (outcomes call.id).isSome ∨ call.id ∈ prepared then
      { call := call, argumentHash := hash } :: prepareCalls outcomes prepared rest
    else
      let item : PreparedCall :=
        match env.tools.prepare call.name call.arguments with
        | .error error =>
          { call := call, argumentHash := hash
            validationError := some (env.redactor.redactError error) }
        | .ok effect => { call := call, argumentHash := hash, effect := some effect }
      item :: prepareCalls outcomes (call.id :: prepared) rest

def invalidFeedback (invalid : List InvalidToolCall) : List GatewayMessage :=
  if invalid.isEmpty then []
  else [invalidCallFeedback (invalid.map fun c => (c.toolCallId, c.toolName, c.error))]

def rejectConflictingTurn (st : TurnState) (calls : List GatewayToolCall)
    (invalid : List InvalidToolCall) (conflict : String × String) : TurnRun :=
  let conflictError : ErrorDetail :=
    { code := "tool_call_id_conflict"
      message := "a stable tool-call identifier was reused for a different tool or arguments"
      details := .ofList [("tool_call_id", .str conflict.1), ("tool_name", .str conflict.2)] }
  let rejectedError : ErrorDetail :=
    { code := "tool_turn_rejected", message := "the tool turn was rejected before execution" }
  let callError (id : String) := if id = conflict.1 then conflictError else rejectedError
  let st := st.emit env
    (calls.map (fun c => .toolCompleted c.id .failed none (some (callError c.id))) ++
      invalid.map (fun c => .toolCompleted c.toolCallId .failed none
        (some (if c.toolCallId = conflict.1 then conflictError else c.error))) ++
      [.runFailed conflictError])
  { steps := []
    state := { st with
      transcript := st.transcript ++
        calls.map (fun c => toolMessage c.id none (some (callError c.id))) ++
        invalidFeedback invalid }
    terminal := true }

def turnRejected : ErrorDetail :=
  { code := "tool_turn_rejected"
    message := "the tool turn contained an invalid call and none were executed" }

def rejectedOutcomes (outcomes : Outcomes) (prepared : List PreparedCall)
    (invalid : List InvalidToolCall) : Outcomes :=
  let outcomes := prepared.foldl (fun o item =>
    o.setDefault item.call.id
      { toolName := item.call.name, argumentHash := some item.argumentHash, status := .failed
        error := some (item.validationError.getD turnRejected) }) outcomes
  invalid.foldl (fun o c =>
    o.setDefault c.toolCallId
      { toolName := c.toolName, argumentHash := none, status := .failed
        error := some c.error }) outcomes

def rejectInvalidTurn (ctx : TurnContext) (st : TurnState) (prepared : List PreparedCall)
    (invalid : List InvalidToolCall) : TurnRun :=
  let itemError (item : PreparedCall) := item.validationError.getD turnRejected
  let retries := ctx.semanticRetryCount + 1
  let terminal := decide (env.config.maxSemanticRetries < retries)
  let limitError : ErrorDetail :=
    { code := "semantic_retry_limit", message := "model exceeded the semantic retry budget"
      details := .ofList
        [("retries", jsonNat retries), ("limit", jsonNat env.config.maxSemanticRetries)] }
  let st := st.emit env
    (prepared.map (fun item =>
        .toolCompleted item.call.id .failed none (some (itemError item))) ++
      invalid.map (fun c => .toolCompleted c.toolCallId .failed none (some c.error)) ++
      if terminal then [.runFailed limitError] else [])
  { steps := []
    state := { st with
      transcript := st.transcript ++
        prepared.map (fun item => toolMessage item.call.id none (some (itemError item))) ++
        invalidFeedback invalid
      outcomes := rejectedOutcomes st.outcomes prepared invalid }
    semanticFailures := 1
    terminal := terminal }

def requiresApproval (mode : ApprovalMode) (effect : ToolEffect) : Bool :=
  if effect = .interaction then true
  else if mode = .requireAll then true
  else mode = .requireSensitive && effect.sideEffecting

def approvalReason (toolName : String) (effect : ToolEffect) : String :=
  if effect = .readOnly then "Session policy requires confirmation before " ++ toolName ++ "."
  else if effect = .command then
    "Command execution by " ++ toolName ++ " requires human confirmation."
  else "Workspace mutation by " ++ toolName ++ " requires human confirmation."

def awaitingApproval (ctx : TurnContext) (outcomes : Outcomes) (prepared : List PreparedCall) :
    List PreparedCall :=
  prepared.filter fun item =>
    (outcomes item.call.id).isNone &&
      item.effect.any (requiresApproval ctx.approvalMode) && (ctx.decisions item.call.id).isNone

def approvalEvents (awaiting : List PreparedCall) : List EventBody :=
  awaiting.map fun item =>
    .toolApprovalRequired (env.newApprovalId item.call.id) item.call item.argumentHash
      (approvalReason item.call.name (item.effect.getD .readOnly))

def checkpointMatchesRequest (ctx : TurnContext) (st : TurnState) (call : GatewayToolCall)
    (c : CheckpointRequest) : Bool :=
  c.runId = ctx.runId && c.toolCallId = call.id && c.messages.length = st.transcript.length &&
    c.taskPlan = ctx.taskPlan && c.contextSummary = ctx.contextSummary

def validWorkspaceRevision (value : String) : Bool :=
  value = pythonStrip value && !(value.toList.contains (Char.ofNat 0)) && 0 < value.length &&
    value.length ≤ 255

def createBeforeTool (ctx : TurnContext) (st : TurnState) (coordinator : CheckpointCoordinator)
    (call : GatewayToolCall) : Except CheckpointFailure CheckpointRequest × EventFactory :=
  match coordinator.snapshotBefore call.id with
  | .error failure => (.error failure, st.factory)
  | .ok snapshot =>
    let (now, factory) := st.factory.read env
    (.ok
      { id := snapshot.id, runId := ctx.runId, toolCallId := call.id, messages := st.transcript
        snapshotUri := snapshot.uri, workspaceRevision := snapshot.revision
        taskPlan := ctx.taskPlan, contextSummary := ctx.contextSummary, createdAt := now },
      factory)

def checkpointDetails (id : Uuid) (call : GatewayToolCall) : JsonObject :=
  .ofList [("checkpoint_id", .str (uuidText id)), ("tool_call_id", .str call.id)]

def taskPlanOf (call : GatewayToolCall) (o : ToolOutcome) : Option JsonObject :=
  if call.name = "update_task_plan" then
    match o.result.bind (·.get? "task_plan") with
    | some (.obj plan) => some plan
    | _ => none
  else none

def TurnState.settleExecuted (st : TurnState) (call : GatewayToolCall) (o : ToolOutcome) :
    TurnState :=
  ({ st with updatedTaskPlan := taskPlanOf call o <|> st.updatedTaskPlan }).settle env call.id o

def completeCheckpointed (st : TurnState) (item : PreparedCall)
    (coordinator : CheckpointCoordinator) (c : CheckpointRequest) (result : JsonObject) : TurnRun :=
  let call := item.call
  let restored := coordinator.rollback call.id
  match coordinator.snapshotAfter call.id with
  | none =>
    let error : ErrorDetail :=
      if restored then
        { code := "checkpoint_finalize_failed"
          message := "the successful tool state could not be checkpointed"
          details := checkpointDetails c.id call }
      else
        { code := "checkpoint_restore_failed"
          message := "workspace restoration failed after checkpoint finalization"
          details := checkpointDetails c.id call }
    { steps := [.rollback c.id restored], state := st.fail env call.id error, terminal := true }
  | some snapshot =>
    let completed := result.set "workspace_revision" (.str snapshot.revision)
    let problem : Option ErrorDetail :=
      if validWorkspaceRevision snapshot.revision = false then some
        { code := "checkpoint_finalize_failed"
          message := "the checkpoint coordinator returned an invalid workspace revision"
          details := checkpointDetails c.id call }
      else if env.config.maxToolResultBytes < env.jsonSize completed then some
        { code := "tool_result_limit"
          message := "the completed tool metadata exceeded the configured byte limit"
          details := .ofList (callDetails call ++
            [("limit_bytes", jsonNat env.config.maxToolResultBytes)]) }
      else none
    match problem with
    | some error =>
      let error : ErrorDetail :=
        if restored then error
        else
          { code := "checkpoint_restore_failed"
            message := "workspace restoration failed after invalid completion metadata"
            details := checkpointDetails c.id call }
      { steps := [.completeCheckpoint c.id call.id snapshot, .rollback c.id restored]
        state := st.fail env call.id error, terminal := true }
    | none =>
      { steps := [.completeCheckpoint c.id call.id snapshot]
        state := st.settleExecuted env call
          { toolName := call.name, argumentHash := some item.argumentHash
            status := .completed, result := some completed } }

def runPrepared (st : TurnState) (item : PreparedCall) (effect : ToolEffect)
    (checkpoint : Option (CheckpointCoordinator × CheckpointRequest)) : TurnRun :=
  let call := item.call
  let ran := runTool env call checkpoint.isSome
  let st := st.emit env
    (.toolStarted call.id call.name ::
      ran.output.map fun o => .toolOutput call.id o.chunk o.truncated (o.channel = .stderr))
  let invoked : List LoopStep := [.invokeTool call effect, .toolReturned call effect]
  match checkpoint, ran.outcome with
  | none, .error error =>
    { steps := invoked
      state := st.settleExecuted env call
        { toolName := call.name, argumentHash := some item.argumentHash, status := .failed
          error := some error } }
  | none, .ok result =>
    { steps := invoked
      state := st.settleExecuted env call
        { toolName := call.name, argumentHash := some item.argumentHash, status := .completed
          result := some result } }
  | some (coordinator, c), .error error =>
    if coordinator.rollback call.id then
      { steps := invoked ++ [.rollback c.id true]
        state := st.settleExecuted env call
          { toolName := call.name, argumentHash := some item.argumentHash, status := .failed
            error := some error } }
    else
      { steps := invoked ++ [.rollback c.id false]
        state := st.fail env call.id
          { code := "checkpoint_restore_failed"
            message := "the workspace could not be restored after tool failure"
            details := checkpointDetails c.id call }
        terminal := true }
  | some (coordinator, c), .ok result =>
    let run := completeCheckpointed env st item coordinator c result
    { run with steps := invoked ++ run.steps }

def runSideEffecting (ctx : TurnContext) (st : TurnState) (item : PreparedCall)
    (effect : ToolEffect) : TurnRun :=
  let call := item.call
  match env.checkpoints with
  | none =>
    { steps := []
      state := st.fail env call.id
        { code := "checkpoint_required"
          message := "side-effecting tools require a checkpoint coordinator"
          details := .ofList (callDetails call) }
      terminal := true }
  | some coordinator =>
    match createBeforeTool env ctx st coordinator call with
    | (.error (.domain error), factory) =>
      { steps := []
        state := ({ st with factory := factory }).fail env call.id
          (env.redactor.redactError error)
        terminal := true }
    | (.error .other, factory) =>
      { steps := []
        state := ({ st with factory := factory }).fail env call.id
          { code := "checkpoint_create_failed"
            message := "the pre-tool checkpoint could not be created"
            details := .ofList (callDetails call) }
        terminal := true }
    | (.ok c, factory) =>
      let st := { st with factory := factory }
      if checkpointMatchesRequest ctx st call c then
        let st := ({ st with lastCheckpointId := some c.id }).emit env
          [.checkpointCreated c.id c.toolCallId c.messages.length c.workspaceRevision]
        let run := runPrepared env st item effect (some (coordinator, c))
        { run with steps := .createCheckpoint c :: run.steps }
      else
        { steps := [.createCheckpoint c]
          state := st.fail env call.id
            { code := "checkpoint_contract_invalid"
              message := "the checkpoint coordinator returned mismatched state"
              details := .ofList (callDetails call) }
          terminal := true }

def interactionOutcome (ctx : TurnContext) (item : PreparedCall) : ToolOutcome :=
  match ctx.responses item.call.id with
  | none =>
    { toolName := item.call.name, argumentHash := some item.argumentHash, status := .failed
      error := some
        { code := "interaction_response_missing"
          message := "the approved user interaction did not include a response"
          details := .ofList [("tool_call_id", .str item.call.id)] } }
  | some response =>
    { toolName := item.call.name, argumentHash := some item.argumentHash, status := .completed
      result := some (.ofList [("response", .str response)]) }

def deniedOutcome (item : PreparedCall) : ToolOutcome :=
  { toolName := item.call.name, argumentHash := some item.argumentHash, status := .failed
    error := some
      { code := "approval_rejected", message := "human approval was denied for this tool call"
        details := .ofList (callDetails item.call) } }

def executeCall (ctx : TurnContext) (st : TurnState) (item : PreparedCall) : TurnRun :=
  match st.outcomes item.call.id with
  | some prior => { steps := [], state := st.reply env item.call.id prior }
  | none =>
    if ctx.decisions item.call.id = some false then
      { steps := [], state := st.settle env item.call.id (deniedOutcome item) }
    else
      match item.effect with
      | none => { steps := [], state := st, terminal := true }
      | some .interaction =>
        { steps := [], state := st.settle env item.call.id (interactionOutcome ctx item) }
      | some effect =>
        if effect.sideEffecting then runSideEffecting env ctx st item effect
        else runPrepared env st item effect none

def executeCalls (ctx : TurnContext) : TurnState → List PreparedCall → TurnRun
  | st, [] => { steps := [], state := st }
  | st, item :: rest =>
    let run := executeCall env ctx st item
    if run.terminal then run
    else
      let run' := executeCalls ctx run.state rest
      { run' with steps := run.steps ++ run'.steps }

def executeTurn (ctx : TurnContext) (st : TurnState) (calls : List GatewayToolCall)
    (invalid : List InvalidToolCall) : TurnRun :=
  match findIdConflict env calls invalid st.outcomes with
  | some conflict => rejectConflictingTurn env st calls invalid conflict
  | none =>
    let prepared := prepareCalls env st.outcomes [] calls
    if invalid ≠ [] ∨ prepared.any (·.validationError.isSome) then
      rejectInvalidTurn env ctx st prepared invalid
    else
      let awaiting := awaitingApproval ctx st.outcomes prepared
      let run : TurnRun :=
        if awaiting ≠ [] then
          { steps := [], state := st.emit env (approvalEvents env awaiting), terminal := true }
        else executeCalls env ctx st prepared
      { run with steps := .validated calls :: run.steps }

end Turn

end AgentPlatform
