/-
**The agent loop as a transition system.**
-/

import AgentPlatform.AgentLoop
import AgentPlatform.Histories

namespace AgentPlatform

inductive LoopPhase where
  | opening
  | idle
  | resuming (announced : List GatewayToolCall)
  | streaming (request : GatewayRequest) (arrived : List GatewayToolCall)
  | responded (result : ModelTurnResult)
  | proposed (calls : List GatewayToolCall) (invalid : List InvalidToolCall)
  | executing (calls : List GatewayToolCall) (rest : List PreparedCall)
  | settled
  | closing

structure Config where
  state : TurnState
  journaled : ℕ
  lastCheckpointId : Option Uuid
  phase : LoopPhase

def EventBody.plain : EventBody → Bool
  | .runStarted .. | .contextBuildStarted .. | .modelTextDelta .. | .toolCallRejected ..
  | .runCompleted .. | .runFailed .. => true
  | _ => false

def ToolOutcome.Terminal (o : ToolOutcome) : Prop :=
  o.status = .completed ∧ o.result ≠ none ∧ o.error = none ∨
    (o.status = .failed ∨ o.status = .cancelled) ∧ o.result = none ∧ o.error ≠ none

structure PreparedFor (env : LoopEnv) (calls : List GatewayToolCall) (item : PreparedCall) :
    Prop where
  mem : item.call ∈ calls
  hash : item.argumentHash = env.argumentHash item.call.arguments
  effect : ∀ e, item.effect = some e → env.tools.effect? item.call.name = some e

def OutputOf (id : String) (body : EventBody) : Prop :=
  ∃ chunk truncated stderr, body = .toolOutput id chunk truncated stderr

def Config.stamped (env : LoopEnv) (c : Config) (body : EventBody) : Config :=
  { c with state := { c.state with factory := (c.state.factory.make env body).2 } }

def TurnState.checkpointed (env : LoopEnv) (st : TurnState) (k : CheckpointRequest) : TurnState :=
  ({ st with factory := (st.factory.read env).2, lastCheckpointId := some k.id }).emit env
    [.checkpointCreated k.id k.toolCallId k.messages.length k.workspaceRevision]

def LoopEnv.checkpointId? (env : LoopEnv) (callId : String) : Option Uuid :=
  env.checkpoints.bind fun coordinator =>
    (coordinator.snapshotBefore callId).toOption.map (·.id)

structure CheckpointFor (env : LoopEnv) (st : TurnState) (call : GatewayToolCall)
    (k : CheckpointRequest) : Prop where
  id : env.checkpointId? call.id = some k.id
  toolCallId : k.toolCallId = call.id
  messages : k.messages = st.transcript
  createdAt : k.createdAt = env.clock st.factory.reads

inductive Move (env : LoopEnv) (input : AgentLoopInput) : Config → List LoopStep → Config → Prop
  | yield (c : Config) (body : EventBody) (plain : body.plain = true)
      (completed : ∀ text id, body = .runCompleted text id → id = c.lastCheckpointId) :
      Move env input c [.emit (c.state.factory.make env body).1] (c.stamped env body)
  | journal (c : Config) (new : c.journaled < c.state.transcript.length) :
      Move env input c
        [.journal c.journaled (c.state.transcript.drop c.journaled) (env.clock c.state.factory.reads)]
        { c with
          journaled := c.state.transcript.length
          state := { c.state with factory := (c.state.factory.read env).2 } }
  | close (c : Config) : Move env input c [] { c with phase := .closing }
  | skip (c : Config) (phase : c.phase = .opening) (none : input.pendingToolCalls = []) :
      Move env input c [] { c with phase := .idle }
  | resume (c : Config) (calls : List GatewayToolCall) (phase : c.phase = .opening)
      (some : input.pendingToolCalls ≠ [])
      (pending : calls = input.pendingToolCalls.map DurablePendingToolCall.toGateway) :
      Move env input c []
        { c with
          phase := .resuming []
          state := { c.state with
            transcript :=
              if endsWithToolCalls c.state.transcript calls then c.state.transcript
              else c.state.transcript ++ [assistantMessage "" calls] } }
  | reannounce (c : Config) (done : List GatewayToolCall) (call : GatewayToolCall)
      (rest : List GatewayToolCall) (phase : c.phase = .resuming done)
      (pending : input.pendingToolCalls.map DurablePendingToolCall.toGateway =
        done ++ call :: rest) :
      Move env input c
        [.emit (c.state.factory.make env
          (.toolCallReceived "approval-resume" call (env.argumentHash call.arguments))).1]
        { c.stamped env
            (.toolCallReceived "approval-resume" call (env.argumentHash call.arguments)) with
          phase := .resuming (done ++ [call]) }
  | resumed (c : Config) (calls : List GatewayToolCall) (phase : c.phase = .resuming calls)
      (pending : calls = input.pendingToolCalls.map DurablePendingToolCall.toGateway) :
      Move env input c [] { c with phase := .proposed calls [] }
  | request (c : Config) (r : GatewayRequest) (phase : c.phase = .idle)
      (messages : r.messages = c.state.transcript) :
      Move env input c
        [.emit (c.state.factory.make env
            (.modelRequestStarted r.modelCallId r.requestId input.routeName)).1, .request r]
        { c.stamped env (.modelRequestStarted r.modelCallId r.requestId input.routeName) with
          phase := .streaming r [] }
  | receive (c : Config) (r : GatewayRequest) (arrived : List GatewayToolCall)
      (call : GatewayToolCall) (phase : c.phase = .streaming r arrived)
      (proposed : (arrived ++ [call]).Sublist (env.gateway r).proposedCalls) :
      Move env input c
        [.emit (c.state.factory.make env
          (.toolCallReceived r.modelCallId call (env.argumentHash call.arguments))).1]
        { c.stamped env
            (.toolCallReceived r.modelCallId call (env.argumentHash call.arguments)) with
          phase := .streaming r (arrived ++ [call]) }
  | respond (c : Config) (r : GatewayRequest) (result : ModelTurnResult)
      (phase : c.phase = .streaming r result.toolCalls)
      (proposed : List.Subperm result.callIds (env.gateway r).callIds) :
      Move env input c [.response result] { c with phase := .responded result }
  | answer (c : Config) (result : ModelTurnResult) (phase : c.phase = .responded result)
      (declared : result.finishReason = .toolCalls) :
      Move env input c []
        { c with
          phase := .proposed result.toolCalls result.invalidToolCalls
          state := { c.state with
            transcript :=
              if result.text ≠ "" ∨ result.toolCalls ≠ [] then
                c.state.transcript ++ [assistantMessage result.text result.toolCalls]
              else c.state.transcript } }
  | conclude (c : Config) (result : ModelTurnResult) (phase : c.phase = .responded result) :
      Move env input c []
        { c with
          phase := .closing
          state := { c.state with
            transcript := c.state.transcript ++ [assistantMessage result.text []] } }
  | askAgain (c : Config) (result : ModelTurnResult) (text : String)
      (phase : c.phase = .responded result) (empty : result.toolCalls = []) :
      Move env input c []
        { c with
          phase := .idle
          state := { c.state with
            transcript := c.state.transcript ++ [{ role := .user, content := .text text }] } }
  | reject (c : Config) (failed : List (GatewayToolCall × ErrorDetail))
      (rejected : List (InvalidToolCall × ErrorDetail)) (ending : Option ErrorDetail)
      (outcomes : Outcomes)
      (phase : c.phase = .proposed (failed.map Prod.fst) (rejected.map Prod.fst))
      (kept : ∀ id, outcomes id = c.state.outcomes id ∨
        c.state.outcomes id = none ∧ ∃ o, outcomes id = some o ∧ o.status = .failed ∧
          o.result = none ∧ o.error ≠ none) :
      Move env input c []
        { c with
          phase := if ending = none then .settled else .closing
          state := { c.state.emit env
              (failed.map (fun f => .toolCompleted f.1.id .failed none (some f.2)) ++
                rejected.map (fun f => .toolCompleted f.1.toolCallId .failed none (some f.2)) ++
                ending.toList.map .runFailed) with
            transcript := c.state.transcript ++
              failed.map (fun f => toolMessage f.1.id none (some f.2)) ++
              invalidFeedback (rejected.map Prod.fst)
            outcomes := outcomes } }
  | suspend (c : Config) (calls : List GatewayToolCall) (awaiting : List PreparedCall)
      (phase : c.phase = .proposed calls [])
      (prepared : awaiting.Sublist (prepareCalls env c.state.outcomes [] calls))
      (unsettled : ∀ item ∈ awaiting, c.state.outcomes item.call.id = none ∧ item.effect ≠ none) :
      Move env input c [.validated calls]
        { c with
          phase := .closing
          state := c.state.emit env (approvalEvents env awaiting) }
  | validate (c : Config) (calls : List GatewayToolCall) (phase : c.phase = .proposed calls []) :
      Move env input c [.validated calls]
        { c with phase := .executing calls (prepareCalls env c.state.outcomes [] calls) }
  | replay (c : Config) (calls : List GatewayToolCall) (item : PreparedCall)
      (rest : List PreparedCall) (prior : ToolOutcome)
      (phase : c.phase = .executing calls (item :: rest)) (prepared : PreparedFor env calls item)
      (known : c.state.outcomes item.call.id = some prior) :
      Move env input c []
        { c with state := c.state.reply env item.call.id prior, phase := .executing calls rest }
  | settle (c : Config) (calls : List GatewayToolCall) (item : PreparedCall)
      (rest : List PreparedCall) (o : ToolOutcome)
      (phase : c.phase = .executing calls (item :: rest)) (prepared : PreparedFor env calls item)
      (new : c.state.outcomes item.call.id = none) (terminal : o.Terminal)
      (interaction : o.status = .completed → env.tools.effect? item.call.name = some .interaction ∧
          ∃ p ∈ input.pendingToolCalls, p.toolCallId = item.call.id ∧
            p.approvalApproved = some true ∧ p.approvalResponse ≠ none) :
      Move env input c []
        { c with state := c.state.settle env item.call.id o, phase := .executing calls rest }
  | execute (c : Config) (calls : List GatewayToolCall) (item : PreparedCall)
      (rest : List PreparedCall) (effect : ToolEffect) (output : List EventBody) (o : ToolOutcome)
      (phase : c.phase = .executing calls (item :: rest)) (prepared : PreparedFor env calls item)
      (new : c.state.outcomes item.call.id = none)
      (registered : env.tools.effect? item.call.name = some effect)
      (harmless : effect.sideEffecting = false) (outputs : ∀ b ∈ output, OutputOf item.call.id b)
      (terminal : o.Terminal)
      (returned : ∀ result, o.result = some result →
        (runTool env item.call false).outcome = .ok result) :
      Move env input c [.invokeTool item.call effect, .toolReturned item.call effect]
        { c with
          phase := .executing calls rest
          state := (c.state.emit env (.toolStarted item.call.id item.call.name :: output)).settleExecuted
            env item.call o }
  | executeCheckpointed (c : Config) (calls : List GatewayToolCall) (item : PreparedCall)
      (rest : List PreparedCall) (effect : ToolEffect) (output : List EventBody) (o : ToolOutcome)
      (k : CheckpointRequest) (snapshot : WorkspaceSnapshot)
      (phase : c.phase = .executing calls (item :: rest)) (prepared : PreparedFor env calls item)
      (new : c.state.outcomes item.call.id = none)
      (registered : env.tools.effect? item.call.name = some effect)
      (sideEffecting : effect.sideEffecting = true)
      (outputs : ∀ b ∈ output, OutputOf item.call.id b)
      (checkpoint : CheckpointFor env c.state item.call k) (completed : o.status = .completed)
      (terminal : o.Terminal)
      (revision : validWorkspaceRevision snapshot.revision = true ∧
        o.result.bind (·.get? "workspace_revision") = some (.str snapshot.revision)) :
      Move env input c
        [.createCheckpoint k, .invokeTool item.call effect, .toolReturned item.call effect,
          .completeCheckpoint k.id item.call.id snapshot]
        { c with
          phase := .executing calls rest
          lastCheckpointId := some k.id
          state := ((c.state.checkpointed env k).emit env
            (.toolStarted item.call.id item.call.name :: output)).settleExecuted env item.call o }
  | executeRolledBack (c : Config) (calls : List GatewayToolCall) (item : PreparedCall)
      (rest : List PreparedCall) (effect : ToolEffect) (output : List EventBody) (o : ToolOutcome)
      (k : CheckpointRequest)
      (phase : c.phase = .executing calls (item :: rest)) (prepared : PreparedFor env calls item)
      (new : c.state.outcomes item.call.id = none)
      (registered : env.tools.effect? item.call.name = some effect)
      (sideEffecting : effect.sideEffecting = true)
      (outputs : ∀ b ∈ output, OutputOf item.call.id b)
      (checkpoint : CheckpointFor env c.state item.call k) (failed : o.status = .failed)
      (terminal : o.Terminal) :
      Move env input c
        [.createCheckpoint k, .invokeTool item.call effect, .toolReturned item.call effect,
          .rollback k.id true]
        { c with
          phase := .executing calls rest
          lastCheckpointId := some k.id
          state := ((c.state.checkpointed env k).emit env
            (.toolStarted item.call.id item.call.name :: output)).settleExecuted env item.call o }
  | breakBefore (c : Config) (calls : List GatewayToolCall) (item : PreparedCall)
      (rest : List PreparedCall) (error : ErrorDetail)
      (phase : c.phase = .executing calls (item :: rest)) (prepared : PreparedFor env calls item)
      (new : c.state.outcomes item.call.id = none) :
      Move env input c []
        { c with state := c.state.fail env item.call.id error, phase := .closing }
  | breakAfter (c : Config) (calls : List GatewayToolCall) (item : PreparedCall)
      (rest : List PreparedCall) (effect : ToolEffect) (output : List EventBody)
      (error : ErrorDetail) (k : CheckpointRequest) (completion : Option WorkspaceSnapshot)
      (restored : Bool)
      (phase : c.phase = .executing calls (item :: rest)) (prepared : PreparedFor env calls item)
      (new : c.state.outcomes item.call.id = none)
      (registered : env.tools.effect? item.call.name = some effect)
      (sideEffecting : effect.sideEffecting = true)
      (outputs : ∀ b ∈ output, OutputOf item.call.id b)
      (checkpoint : CheckpointFor env c.state item.call k) :
      Move env input c
        ([.createCheckpoint k, .invokeTool item.call effect, .toolReturned item.call effect] ++
          completion.toList.map (.completeCheckpoint k.id item.call.id) ++ [.rollback k.id restored])
        { c with
          phase := .closing
          lastCheckpointId := some k.id
          state := ((c.state.checkpointed env k).emit env
            (.toolStarted item.call.id item.call.name :: output)).fail env item.call.id error }
  | executed (c : Config) (calls : List GatewayToolCall) (phase : c.phase = .executing calls []) :
      Move env input c [] { c with phase := .settled }
  | flush (c : Config) (next : LoopPhase)
      (phase : c.phase = .settled ∧ next = .idle ∨ c.phase = .closing ∧ next = .closing) :
      Move env input c (c.state.emitted.map .emit)
        { c with
          phase := next
          state :=
            { factory := c.state.factory, transcript := c.state.transcript
              outcomes := c.state.outcomes } }

end AgentPlatform
