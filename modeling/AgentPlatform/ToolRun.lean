/-
**One bounded tool execution.**
-/

import AgentPlatform.LoopTypes

namespace AgentPlatform

structure BufferedOutput where
  channel : ToolOutputChannel
  chunk : String
  truncated : Bool := false
  deriving DecidableEq

def utf8PrefixChars : List Char → ℕ → List Char
  | [], _ => []
  | c :: rest, limit =>
    if c.utf8Size ≤ limit then c :: utf8PrefixChars rest (limit - c.utf8Size) else []

def utf8Prefix (value : String) (byteLimit : ℕ) : String :=
  String.ofList (utf8PrefixChars value.toList byteLimit)

def truncateLast : List BufferedOutput → List BufferedOutput
  | [] => []
  | [item] => [{ item with truncated := true }]
  | item :: rest => item :: truncateLast rest

def appendBoundedOutput (output : List BufferedOutput) (channel : ToolOutputChannel) (chunk : String)
    (remaining : ℕ) : List BufferedOutput × ℕ × Bool :=
  if chunk.utf8ByteSize ≤ remaining then
    (output ++ [{ channel := channel, chunk := chunk }], remaining - chunk.utf8ByteSize, false)
  else
    let kept := utf8Prefix chunk remaining
    if kept ≠ "" then
      (output ++ [{ channel := channel, chunk := kept, truncated := true }], 0, true)
    else (truncateLast output, 0, true)

def coalesceOutput : List BufferedOutput → List BufferedOutput → List BufferedOutput
  | done, [] => done
  | done, item :: rest =>
    match done.getLast? with
    | some previous =>
      if previous.channel = item.channel then
        coalesceOutput
          (done.dropLast ++
            [{ channel := item.channel, chunk := previous.chunk ++ item.chunk
               truncated := previous.truncated || item.truncated }]) rest
      else coalesceOutput (done ++ [item]) rest
    | none => coalesceOutput [item] rest

def boundOutput (redact : String → String) :
    List BufferedOutput → ℕ → List BufferedOutput → List BufferedOutput
  | done, _, [] => done
  | done, remaining, item :: rest =>
    let (bounded, remaining', overflow) :=
      appendBoundedOutput done item.channel (redact item.chunk) remaining
    let bounded := if item.truncated then truncateLast bounded else bounded
    if overflow then bounded else boundOutput redact bounded remaining' rest

def coalesceAndRedactOutput (redact : String → String) (byteLimit : ℕ)
    (output : List BufferedOutput) : List BufferedOutput :=
  boundOutput redact [] byteLimit (coalesceOutput [] output)

structure ToolRunResult where
  output : List BufferedOutput
  outcome : Except ErrorDetail JsonObject

def toolStreamLoop (invalidStream : String → ErrorDetail) (outputLimit : ErrorDetail) :
    List BufferedOutput → ℕ → Option JsonObject → List ToolStreamItem →
    List BufferedOutput × Except ErrorDetail (Option JsonObject)
  | output, _, completion, [] => (output, .ok completion)
  | output, remaining, completion, item :: rest =>
    if completion ≠ none then
      (output, .error (invalidStream "tool emitted data after its terminal result"))
    else
      match item with
      | .output channel chunk =>
        let (output, remaining, overflow) :=
          appendBoundedOutput output channel chunk remaining
        if overflow then (output, .error outputLimit)
        else toolStreamLoop invalidStream outputLimit output remaining completion rest
      | .completed result =>
        toolStreamLoop invalidStream outputLimit output remaining (some result) rest
      | .unsupported =>
        (output, .error (invalidStream "tool emitted an unsupported execution event"))

def workspaceResultMetadataReserveBytes : ℕ := 2048

def callDetails (call : GatewayToolCall) : List (String × Json) :=
  [("tool_call_id", .str call.id), ("tool_name", .str call.name)]

def runTool (env : LoopEnv) (call : GatewayToolCall) (checkpointed : Bool) : ToolRunResult :=
  let resultLimit :=
    if checkpointed then
      max 1 (env.config.maxToolResultBytes - workspaceResultMetadataReserveBytes)
    else env.config.maxToolResultBytes
  let stream := env.toolStream call
  let invalidStream (message : String) : ErrorDetail :=
    { code := "invalid_tool_stream", message := message, details := .ofList (callDetails call) }
  let outputLimit : ErrorDetail :=
    { code := "tool_output_limit", message := "tool output exceeded the configured byte limit"
      details := .ofList
        (callDetails call ++ [("limit_bytes", jsonNat env.config.maxToolOutputBytes)]) }
  let resultLimitError (message : String) : ErrorDetail :=
    { code := "tool_result_limit", message := message
      details := .ofList (callDetails call ++ [("limit_bytes", jsonNat resultLimit)]) }
  let (output, drained) :=
    toolStreamLoop invalidStream outputLimit [] env.config.maxToolOutputBytes none stream.items
  let safeOutput :=
    coalesceAndRedactOutput env.redactor.redactText env.config.maxToolOutputBytes output
  let outcome : Except ErrorDetail JsonObject :=
    match drained, stream.ending with
    | .error error, _ => .error error
    | .ok _, .timedOut => .error
        { code := "tool_timeout", message := "tool execution exceeded its timeout"
          retryable := true, details := .ofList (callDetails call) }
    | .ok _, .raised error => .error (env.redactor.redactError error)
    | .ok _, .crashed => .error
        { code := "tool_execution_failed", message := "tool execution failed"
          details := .ofList (callDetails call) }
    | .ok none, .closed => .error (invalidStream "tool stream ended without a terminal result")
    | .ok (some result), .closed =>
      if resultLimit < env.jsonSize result then
        .error (resultLimitError "tool result exceeded the configured byte limit")
      else if resultLimit < env.jsonSize (env.redactor.redactJson result) then
        .error (resultLimitError "redacted tool result exceeded the configured byte limit")
      else .ok (env.redactor.redactJson result)
  { output := safeOutput, outcome := outcome }

end AgentPlatform
