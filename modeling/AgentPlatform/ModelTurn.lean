/-
**One model turn: normalized, bounded consumption of a gateway stream.**
-/

import AgentPlatform.LoopTypes

namespace AgentPlatform

open GatewayEvent List

/-- The locals of `ModelTurnRunner.stream`. -/
structure StreamState where
  factory : EventFactory
  events : List AgentEvent := []
  deltas : List String := []
  textParts : List String := []
  rawBytes : ℕ := 0
  safeBytes : ℕ := 0
  toolCalls : List GatewayToolCall := []
  invalidToolCalls : List InvalidToolCall := []
  completion : Option GatewayFinishReason := none

open StreamState

inductive ModelTurnEnd where
  | result (result : ModelTurnResult)
  | failure (error : ErrorDetail)
  deriving DecidableEq

section Stream

variable (env : LoopEnv) (modelCallId : String) (turn prior : ℕ)

def StreamState.emit (st : StreamState) (bodies : List EventBody) : StreamState :=
  let (events, factory) := st.factory.makeAll env bodies
  { st with factory := factory, events := st.events ++ events }

def StreamState.reject (st : StreamState) (id name : String) (error : ErrorDetail) : StreamState :=
  let rejected : InvalidToolCall := { toolCallId := id, toolName := name, error := error }
  ({ st with invalidToolCalls := st.invalidToolCalls ++ [rejected] }).emit env
    [.toolCallRejected modelCallId id name error]

def invalidModelStream (message : String) : ErrorDetail :=
  { code := "invalid_model_stream", message := message
    details := .ofList [("turn", jsonNat turn)] }

def modelOutputLimit (message : String) : ErrorDetail :=
  { code := "model_output_limit", message := message
    details := .ofList
      [("limit_bytes", jsonNat env.config.maxModelOutputBytes), ("turn", jsonNat turn)] }

def checkToolCallLimit (st : StreamState) : StreamState × Option ErrorDetail :=
  if env.config.maxToolCalls < prior + (st.toolCalls.length + st.invalidToolCalls.length) then
    (st, some
      { code := "tool_call_limit", message := "agent reached the maximum number of tool calls"
        details := .ofList [("limit", jsonNat env.config.maxToolCalls)] })
  else (st, none)

def streamText (st : StreamState) (delta : String) : StreamState × Option ErrorDetail :=
  let st := { st with rawBytes := st.rawBytes + delta.utf8ByteSize }
  if env.config.maxModelOutputBytes < st.rawBytes then
    (st, some (modelOutputLimit env turn "model output exceeded the configured byte limit"))
  else
    let deltas := st.deltas ++ [delta]
    let safe := env.redactor.feed deltas
    let st := { st with deltas := deltas, safeBytes := st.safeBytes + safe.utf8ByteSize }
    if env.config.maxModelOutputBytes < st.safeBytes then
      (st, some
        (modelOutputLimit env turn "redacted model output exceeded the configured byte limit"))
    else if safe = "" then (st, none)
    else
      (({ st with textParts := st.textParts ++ [safe] }).emit env
        ((env.textChunks safe).map (.modelTextDelta modelCallId)), none)

def streamCall (st : StreamState) (call : GatewayToolCall) : StreamState × Option ErrorDetail :=
  if env.config.maxToolArgumentBytes < env.jsonSize call.arguments then
    let error : ErrorDetail :=
      { code := "tool_argument_limit"
        message := "model-generated tool arguments exceeded the byte limit"
        details := .ofList
          [("tool_call_id", .str call.id), ("tool_name", .str call.name),
            ("limit_bytes", jsonNat env.config.maxToolArgumentBytes)] }
    (st.emit env [.toolCallRejected modelCallId call.id call.name error], some error)
  else if env.redactor.redactJson call.arguments ≠ call.arguments then
    let error : ErrorDetail :=
      { code := "sensitive_tool_arguments"
        message := "model-generated tool arguments contained sensitive data"
        details := .ofList [("tool_call_id", .str call.id), ("tool_name", .str call.name)] }
    checkToolCallLimit env prior (st.reject env modelCallId call.id call.name error)
  else
    checkToolCallLimit env prior
      (({ st with toolCalls := st.toolCalls ++ [call] }).emit env
        [.toolCallReceived modelCallId call (env.argumentHash call.arguments)])

def streamStep (st : StreamState) (event : GatewayEvent) : StreamState × Option ErrorDetail :=
  if event = .invalid then
    (st, some (invalidModelStream turn "gateway emitted an invalid normalized event"))
  else if st.completion ≠ none then
    (st, some (invalidModelStream turn "gateway emitted data after the terminal event"))
  else
    match event with
    | .textDelta delta => streamText env modelCallId turn st delta
    | .toolCall call => streamCall env modelCallId prior st call
    | .invalidToolCall id name error =>
      checkToolCallLimit env prior
        (st.reject env modelCallId id name (env.redactor.redactError error))
    | .responseCompleted reason => ({ st with completion := some reason }, none)
    | .invalid => (st, none)

def StreamState.callIds (st : StreamState) : List String :=
  st.toolCalls.map (·.id) ++ st.invalidToolCalls.map (·.toolCallId)

theorem checkToolCallLimit_state (st : StreamState) : (checkToolCallLimit env prior st).1 = st := by
  unfold checkToolCallLimit
  split <;> rfl

theorem streamText_toolCalls (st : StreamState) (delta : String) :
    (streamText env modelCallId turn st delta).1.toolCalls = st.toolCalls := by
  simp only [streamText]
  split
  · rfl
  · split
    · rfl
    · split <;> rfl

theorem streamText_callIds (st : StreamState) (delta : String) :
    (streamText env modelCallId turn st delta).1.callIds = st.callIds := by
  simp only [streamText]
  split
  · rfl
  · split
    · rfl
    · split <;> rfl

theorem streamStep_toolCalls (st : StreamState) (event : GatewayEvent) :
    (streamStep env modelCallId turn prior st event).1.toolCalls.Sublist
      (st.toolCalls ++ event.call?.toList) := by
  have keep : st.toolCalls.Sublist (st.toolCalls ++ event.call?.toList) :=
    sublist_append_left _ _
  unfold streamStep
  split
  · exact keep
  split
  · exact keep
  cases event with
  | textDelta => simpa only [streamText_toolCalls] using keep
  | toolCall =>
    simp only [streamCall]
    split
    · exact keep
    · split <;> rw [checkToolCallLimit_state]
      · exact keep
      · exact List.Sublist.refl _
  | invalidToolCall =>
    dsimp only
    rw [checkToolCallLimit_state]
    exact keep
  | responseCompleted | invalid => exact keep

theorem streamStep_callIds (st : StreamState) (event : GatewayEvent) :
    List.Subperm (streamStep env modelCallId turn prior st event).1.callIds
      (st.callIds ++ event.callId?.toList) := by
  have keep : List.Subperm st.callIds (st.callIds ++ event.callId?.toList) :=
    (sublist_append_left _ _).subperm
  unfold streamStep
  split
  · exact keep
  split
  · exact keep
  cases event with
  | textDelta => simpa only [streamText_callIds] using keep
  | toolCall call =>
    simp only [streamCall]
    split
    · exact keep
    split <;> rw [checkToolCallLimit_state]
    · refine List.Perm.subperm (List.Perm.of_eq ?_)
      simp [callIds, reject, emit, callId?]
    · have hm : List.Perm ((st.toolCalls.map (·.id) ++ [call.id]) ++
          st.invalidToolCalls.map (·.toolCallId)) (st.callIds ++ [call.id]) := by
        rw [callIds, append_assoc, append_assoc]
        exact List.Perm.append_left _ perm_append_comm
      refine List.Perm.subperm ?_
      simpa [callIds, emit, callId?] using hm
  | invalidToolCall =>
    dsimp only
    rw [checkToolCallLimit_state]
    refine List.Perm.subperm (List.Perm.of_eq ?_)
    simp [callIds, reject, emit, callId?]
  | responseCompleted | invalid => exact keep

def streamLoop : StreamState → List GatewayEvent → StreamState × Option ErrorDetail
  | st, [] => (st, none)
  | st, event :: rest =>
    match streamStep env modelCallId turn prior st event with
    | (st, some error) => (st, some error)
    | (st, none) => streamLoop st rest

theorem streamLoop_callIds (st : StreamState) (events : List GatewayEvent) :
    List.Subperm (streamLoop env modelCallId turn prior st events).1.callIds
      (st.callIds ++ events.filterMap callId?) := by
  induction events generalizing st with
  | nil => simp [streamLoop, List.Subperm.refl]
  | cons event rest ih =>
    have hc : (event :: rest).filterMap callId? =
        event.callId?.toList ++ rest.filterMap callId? := by
      cases h : event.callId? <;> simp [h]
    have hs := streamStep_callIds env modelCallId turn prior st event
    rw [hc, ← append_assoc]
    unfold streamLoop
    split
    next h =>
      rw [h] at hs
      exact hs.trans (sublist_append_left _ _).subperm
    next h =>
      rw [h] at hs
      exact (ih _).trans ((subperm_append_right _).2 hs)

def streamEndFailure : StreamEnd → Option ErrorDetail
  | .closed => none
  | .timedOut => some
      { code := "model_timeout", message := "model gateway stream exceeded its timeout"
        retryable := true, details := .ofList [("turn", jsonNat turn)] }
  | .raised error => some (env.redactor.redactError error)
  | .crashed => some
      { code := "model_gateway_failure", message := "model gateway stream failed"
        retryable := true, details := .ofList [("turn", jsonNat turn)] }

def streamFinish (st : StreamState) : StreamState × ModelTurnEnd :=
  match st.completion with
  | none =>
    (st, .failure
      { code := "incomplete_model_stream"
        message := "model gateway stream ended without a terminal event"
        retryable := true, details := .ofList [("turn", jsonNat turn)] })
  | some reason =>
    let final := env.redactor.finish st.deltas
    if env.config.maxModelOutputBytes < st.safeBytes + final.utf8ByteSize then
      (st, .failure
        (modelOutputLimit env turn "redacted model output exceeded the configured byte limit"))
    else
      let st :=
        if final = "" then st
        else
          ({ st with textParts := st.textParts ++ [final] }).emit env
            ((env.textChunks final).map (.modelTextDelta modelCallId))
      (st, .result
        { text := String.join st.textParts, toolCalls := st.toolCalls
          invalidToolCalls := st.invalidToolCalls, finishReason := reason })

theorem streamFinish_callIds {st : StreamState} {result : ModelTurnResult}
    (h : (streamFinish env modelCallId turn st).2 = .result result) :
    result.callIds = st.callIds := by
  unfold streamFinish at h
  split at h
  · cases h
  · dsimp only at h
    split at h
    · cases h
    · cases h
      split <;> rfl

/-- `ModelTurnRunner.stream`. -/
def modelTurn (factory : EventFactory) (request : GatewayRequest) : StreamState × ModelTurnEnd :=
  let stream := env.gateway request
  match streamLoop env modelCallId turn prior { factory := factory } stream.events with
  | (st, some error) => (st, .failure error)
  | (st, none) =>
    match streamEndFailure env turn stream.ending with
    | some error => (st, .failure error)
    | none => streamFinish env modelCallId turn st

theorem modelTurn_callIds {factory : EventFactory} {request : GatewayRequest}
    {result : ModelTurnResult}
    (h : (modelTurn env modelCallId turn prior factory request).2 = .result result) :
    List.Subperm result.callIds (env.gateway request).callIds := by
  have hl := streamLoop_callIds env modelCallId turn prior { factory := factory }
    (env.gateway request).events
  unfold modelTurn at h
  dsimp only at h
  split at h
  · cases h
  rename_i hs
  rw [hs] at hl
  split at h
  · cases h
  · rw [streamFinish_callIds env modelCallId turn h]
    exact hl

end Stream

end AgentPlatform
