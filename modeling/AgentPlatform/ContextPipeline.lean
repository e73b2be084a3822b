/-
**The context pipeline: what of a conversation reaches the model.**
-/

import AgentPlatform.DomainValues

namespace AgentPlatform

inductive ContextSource where
  | systemInstructions | projectInstructions | conversationHistory | referencedFiles
  | activeTaskPlan | recentToolResults | longTermMemory | currentGitDiff | compactedSummary
  deriving DecidableEq

def ContextSource.value : ContextSource → String
  | .systemInstructions => "system_instructions"
  | .projectInstructions => "project_instructions"
  | .conversationHistory => "conversation_history"
  | .referencedFiles => "referenced_files"
  | .activeTaskPlan => "active_task_plan"
  | .recentToolResults => "recent_tool_results"
  | .longTermMemory => "long_term_memory"
  | .currentGitDiff => "current_git_diff"
  | .compactedSummary => "compacted_summary"

structure ReferencedContextFile where
  path : String
  content : String
  active : Bool := false
  deriving DecidableEq

structure ContextToolResult where
  toolCallId : String
  toolName : String
  content : String
  isError : Bool := false
  deriving DecidableEq

structure ContextMemorySnippet where
  memoryId : Uuid
  content : String
  deriving DecidableEq

structure ContextBuildRequest where
  tenantId : Uuid
  sessionId : Uuid
  runId : Uuid
  executionEpoch : ℕ := 1
  routeName : String
  systemInstructions : String := ""
  projectInstructions : String := ""
  conversation : List GatewayMessage := []
  referencedFiles : List ReferencedContextFile := []
  taskPlan : JsonObject := .nil
  recentToolResults : List ContextToolResult := []
  memories : List ContextMemorySnippet := []
  currentGitDiff : String := ""
  previousSummary : Option String := none
  forceCompaction : Bool := false
  deriving DecidableEq

structure ContextFragment where
  id : String
  source : ContextSource
  message : GatewayMessage
  critical : Bool := false
  priority : ℕ := 0
  ordinal : ℕ
  deriving DecidableEq

structure ContextCodec where
  contentText : MessageContent → String
  canonicalJson : Json → String
  canonicalMessage : GatewayMessage → String
  messageBytes : GatewayMessage → ℕ
  requestBytes : ContextBuildRequest → ℕ
  casefold : String → String

def maxContextFragments : ℕ := 8192

def maxContextMessages : ℕ := 4096

def maxContextInputBytes : ℕ := 16 * 1024 * 1024

def maxContextItemBytes : ℕ := 1024 * 1024

def maxCompressionInputBytes : ℕ := 4 * 1024 * 1024

def maxContextSummaryBytes : ℕ := 256 * 1024

def taskPlanChunkBytes : ℕ := maxContextItemBytes / 16

/-- `ContextBuildRequest.validate_size`. -/
def ContextBuildRequest.invalidity (codec : ContextCodec) (r : ContextBuildRequest) :
    Option String :=
  if 4096 < r.conversation.length ∨ 256 < r.referencedFiles.length ∨
      256 < r.recentToolResults.length ∨ 512 < r.memories.length then
    some "tuple should have at most the given number of items"
  else if r.referencedFiles.any (fun f => maxContextItemBytes < f.content.utf8ByteSize) then
    some "referenced file exceeds its UTF-8 byte limit"
  else if r.recentToolResults.any (fun t => maxContextItemBytes < t.content.utf8ByteSize) then
    some "tool result exceeds its UTF-8 byte limit"
  else if r.memories.any (fun m => maxContextItemBytes < m.content.utf8ByteSize) then
    some "memory exceeds its UTF-8 byte limit"
  else if r.conversation = [] ∧ r.systemInstructions = "" ∧ r.projectInstructions = "" ∧
      r.referencedFiles = [] ∧ r.taskPlan = .nil ∧ r.recentToolResults = [] ∧ r.memories = [] ∧
      r.currentGitDiff = "" ∧ r.previousSummary.getD "" = "" then
    some "context request must contain at least one source"
  else if maxContextItemBytes < r.systemInstructions.utf8ByteSize then
    some "system instructions exceeds its UTF-8 byte limit"
  else if maxContextItemBytes < r.projectInstructions.utf8ByteSize then
    some "project instructions exceeds its UTF-8 byte limit"
  else if maxContextItemBytes < r.currentGitDiff.utf8ByteSize then
    some "Git diff exceeds its UTF-8 byte limit"
  else if maxContextItemBytes < (r.previousSummary.getD "").utf8ByteSize then
    some "previous summary exceeds its UTF-8 byte limit"
  else if maxContextInputBytes < codec.requestBytes r then
    some "serialized context input exceeds its byte limit"
  else none

def ContextBuildRequest.validate (codec : ContextCodec) (r : ContextBuildRequest) :
    Except Failure ContextBuildRequest :=
  match r.invalidity codec with
  | some message => .error (.validation message)
  | none => .ok r

/-- `ContextFragment.validate_size`. -/
def ContextFragment.invalidity (codec : ContextCodec) (f : ContextFragment) : Option String :=
  if 255 < f.id.length then some "String should have at most 255 characters"
  else if maxContextFragments < f.ordinal then
    some "Input should be less than or equal to 8192"
  else if maxContextItemBytes < codec.messageBytes f.message then
    some "serialized context fragment exceeds its byte limit"
  else none

def validateFragments (codec : ContextCodec) :
    List ContextFragment → Except Failure (List ContextFragment)
  | [] => .ok []
  | f :: rest =>
    match f.invalidity codec with
    | some message => .error (.validation message)
    | none => (validateFragments codec rest).map (f :: ·)

def systemMessage (text : String) : GatewayMessage := { role := .system, content := .text text }

def systemFragment (id : String) (source : ContextSource) (content : String) (critical : Bool)
    (priority : ℕ) : List ContextFragment :=
  if content = "" then []
  else
    [{ id := id, source := source, message := systemMessage content, critical := critical
       priority := priority, ordinal := 0 }]

def systemInstructionsFragments (r : ContextBuildRequest) : List ContextFragment :=
  systemFragment "system-instructions" .systemInstructions r.systemInstructions true 100

def projectInstructionsFragments (r : ContextBuildRequest) : List ContextFragment :=
  systemFragment "project-instructions" .projectInstructions r.projectInstructions true 90

def GatewayMessage.announces (m : GatewayMessage) (callId : Option String) : Bool :=
  m.role = .assistant && m.toolCalls.any (some ·.id = callId)

/-- The loops of `_recent_conversation_start`. -/
def turnStart (messages : List GatewayMessage) : ℕ → Option (Option String) → ℕ
  | 0, _ => 0
  | start + 1, none =>
    match messages[start + 1]? with
    | some m => if m.role = .tool then turnStart messages start (some m.toolCallId) else start + 1
    | none => start + 1
  | start + 1, some callId =>
    if messages[start + 1]?.any (·.announces callId) then start + 1
    else turnStart messages start (some callId)

def recentConversationStart (messages : List GatewayMessage) (recentMessages : ℕ) : ℕ :=
  turnStart messages (messages.length - recentMessages) none

def conversationFragment (recentStart index : ℕ) (m : GatewayMessage) : ContextFragment :=
  { id := "conversation-" ++ Nat.repr (index + 1), source := .conversationHistory, message := m
    critical := recentStart ≤ index || m.role = .system
    priority := if recentStart ≤ index then 80 else 10
    ordinal := index }

/-- `ConversationHistoryContributor`. -/
def conversationFragments (recentMessages : ℕ) (r : ContextBuildRequest) : List ContextFragment :=
  r.conversation.mapIdx
    (conversationFragment (recentConversationStart r.conversation recentMessages))

def referencedFilesFragments (r : ContextBuildRequest) : List ContextFragment :=
  r.referencedFiles.mapIdx fun index file =>
    { id := "referenced-file-" ++ Nat.repr (index + 1), source := .referencedFiles
      message := systemMessage ("Referenced file `" ++ file.path ++ "`:\n" ++ file.content)
      critical := file.active, priority := if file.active then 85 else 30, ordinal := index }

def utf8Take : ℕ → List Char → List Char × List Char
  | _, [] => ([], [])
  | limit, c :: cs =>
    if c.utf8Size ≤ limit then
      let (chunk, rest) := utf8Take (limit - c.utf8Size) cs
      (c :: chunk, rest)
    else ([], c :: cs)

/-- The loop of `_utf8_chunks`. -/
def utf8ChunkLoop (limit : ℕ) : ℕ → List Char → List String
  | 0, _ | _, [] => []
  | fuel + 1, c :: cs =>
    let (chunk, rest) := utf8Take limit (c :: cs)
    String.ofList chunk :: utf8ChunkLoop limit fuel rest

def utf8Chunks (value : String) (limit : ℕ) : List String :=
  if value = "" then [""] else utf8ChunkLoop limit value.length value.toList

def chunkedTaskFragment (content : String) (critical : Bool) (priority ordinalStart : ℕ)
    (idPrefix label : String) : List ContextFragment :=
  let chunks := utf8Chunks content taskPlanChunkBytes
  chunks.mapIdx fun index chunk =>
    { id := idPrefix ++ "-" ++ Nat.repr (index + 1), source := .activeTaskPlan
      message := systemMessage (label ++ " (" ++ Nat.repr (index + 1) ++ "/" ++
        Nat.repr chunks.length ++ "):\n" ++ chunk)
      critical := critical, priority := priority, ordinal := ordinalStart + index }

def JsonArray.toList : JsonArray → List Json
  | .nil => []
  | .cons item rest => item :: rest.toList

def JsonObject.without (key : String) : JsonObject → JsonObject
  | .nil => .nil
  | .cons k v rest => if k = key then rest.without key else .cons k v (rest.without key)

def taskItemIsUnresolved (codec : ContextCodec) : Json → Bool
  | .obj item =>
    match item.get? "status" with
    | some (.str status) => codec.casefold status ∉ ["completed", "cancelled"]
    | _ => item.get? "done" ≠ some (.bool true)
  | _ => true

def taskItemFragments (codec : ContextCodec) :
    ℕ → List Json → List ContextFragment → List ContextFragment
  | _, [], fragments => fragments
  | index, item :: rest, fragments =>
    let critical := taskItemIsUnresolved codec item
    taskItemFragments codec (index + 1) rest (fragments ++
      chunkedTaskFragment (codec.canonicalJson item) critical (if critical then 100 else 20)
        fragments.length ("task-plan-item-" ++ Nat.repr (index + 1))
        (if critical then "Active task plan unresolved item" else "Resolved task plan item"))

def taskCollection (plan : JsonObject) : Option (String × List Json) :=
  ["tasks", "steps"].findSome? fun name =>
    match plan.get? name with
    | some (.arr items) => some (name, items.toList)
    | _ => none

def taskPlanFragments (codec : ContextCodec) (plan : JsonObject) : List ContextFragment :=
  match taskCollection plan with
  | none =>
    chunkedTaskFragment (codec.canonicalJson (.obj plan)) true 100 0 "task-plan-legacy"
      "Active task plan (unrecognized shape; preserve as unresolved)"
  | some (name, items) =>
    let metadata := plan.without name
    let fragments := taskItemFragments codec 0 items
      (if metadata = .nil then []
       else chunkedTaskFragment (codec.canonicalJson (.obj metadata)) false 25 0
         "task-plan-metadata" "Task plan metadata")
    if fragments = [] then
      chunkedTaskFragment (codec.canonicalJson (.obj plan)) false 20 0 "task-plan-empty"
        "Task plan with no active items"
    else fragments

def activeTaskPlanFragments (codec : ContextCodec) (r : ContextBuildRequest) :
    List ContextFragment :=
  if r.taskPlan = .nil then [] else taskPlanFragments codec r.taskPlan

def recentToolResultsFragments (r : ContextBuildRequest) : List ContextFragment :=
  r.recentToolResults.mapIdx fun index item =>
    { id := "tool-result-" ++ item.toolCallId, source := .recentToolResults
      message := systemMessage ("Recent " ++ item.toolName ++ " result:\n" ++ item.content)
      critical := item.isError, priority := if item.isError then 90 else 40, ordinal := index }

def longTermMemoryFragments (r : ContextBuildRequest) : List ContextFragment :=
  r.memories.mapIdx fun index item =>
    { id := "memory-" ++ uuidText item.memoryId, source := .longTermMemory
      message := systemMessage ("Relevant durable memory:\n" ++ item.content)
      priority := 20, ordinal := index }

def currentGitDiffFragments (r : ContextBuildRequest) : List ContextFragment :=
  systemFragment "current-git-diff" .currentGitDiff r.currentGitDiff false 50

def defaultContributors (codec : ContextCodec) (recentMessages : ℕ) (r : ContextBuildRequest) :
    List (List ContextFragment) :=
  [systemInstructionsFragments r, projectInstructionsFragments r,
   conversationFragments recentMessages r, referencedFilesFragments r,
   activeTaskPlanFragments codec r, recentToolResultsFragments r, longTermMemoryFragments r,
   currentGitDiffFragments r]

def collectFragments (codec : ContextCodec) :
    List ContextFragment → List (List ContextFragment) → Except Failure (List ContextFragment)
  | fragments, [] => .ok fragments
  | fragments, contribution :: rest =>
    match validateFragments codec contribution with
    | .error f => .error f
    | .ok values =>
      if maxContextFragments < (fragments ++ values).length then
        domainError "context_fragment_limit" "context contributors exceeded the fragment limit"
          false (.ofList [("limit", .num "8192")])
      else collectFragments codec (fragments ++ values) rest

def previousSummaryFragment (summary : String) : ContextFragment :=
  { id := "previous-compacted-summary", source := .compactedSummary
    message := systemMessage ("Previous compacted context:\n" ++ summary)
    priority := 60, ordinal := 0 }

def requestFragments (codec : ContextCodec) (recentMessages : ℕ) (r : ContextBuildRequest) :
    Except Failure (List ContextFragment) :=
  match collectFragments codec [] (defaultContributors codec recentMessages r) with
  | .error f => .error f
  | .ok fragments =>
    let identifiers := fragments.map (·.id)
    if ¬ identifiers.Nodup then
      domainError "context_fragment_conflict" "context contributors returned duplicate fragment IDs"
    else
      match r.previousSummary.filter (· ≠ "") with
      | none => .ok fragments
      | some summary =>
        if "previous-compacted-summary" ∈ identifiers then
          domainError "context_fragment_conflict"
            "a contributor used a reserved context fragment ID"
        else (validateFragments codec [previousSummaryFragment summary]).map (· ++ fragments)

def assembleMessages (codec : ContextCodec) (fragments : List ContextFragment) :
    Except Failure (List GatewayMessage) :=
  let messages := fragments.map (·.message)
  let systems := messages.filter (·.role = .system)
  let assembled :=
    (if systems = [] then []
     else [systemMessage ("\n\n".intercalate (systems.map fun m => codec.contentText m.content))]) ++
      messages.filter (·.role ≠ .system)
  if assembled = [] then
    domainError "context_empty" "context contributors produced no usable messages"
  else if maxContextMessages < assembled.length then
    domainError "context_message_limit" "assembled context exceeded the message limit" false
      (.ofList [("limit", .num "4096")])
  else .ok assembled

def ContextFragment.sourceLe (a b : ContextFragment) : Bool :=
  b.priority < a.priority || (b.priority = a.priority && b.ordinal ≤ a.ordinal)

def ContextFragment.rendered (codec : ContextCodec) (f : ContextFragment) : String :=
  "[" ++ f.source.value ++ ":" ++ f.id ++ "]\n" ++ codec.canonicalMessage f.message

/-- The loop of `_bounded_compression_source`. -/
def selectFragments (codec : ContextCodec) (limit : ℕ) :
    ℕ → List ContextFragment → List ContextFragment → List ContextFragment
  | _, selected, [] => selected
  | size, selected, f :: rest =>
    let encodedSize := (f.rendered codec).utf8ByteSize + if selected = [] then 0 else 2
    if limit < size + encodedSize then selectFragments codec limit size selected rest
    else selectFragments codec limit (size + encodedSize) (selected ++ [f]) rest

def sourceFragments (codec : ContextCodec) (limit : ℕ) (fragments : List ContextFragment) :
    List ContextFragment :=
  selectFragments codec limit 0 [] (fragments.insertionSort (fun a b => a.sourceLe b))

def boundedCompressionSource (codec : ContextCodec) (limit : ℕ)
    (fragments : List ContextFragment) : Except Failure String :=
  match sourceFragments codec limit fragments with
  | [] =>
    domainError "context_compression_input_limit"
      "no noncritical context fragment fits the compression input limit" false
      (.ofList [("limit_bytes", .num (Nat.repr limit))])
  | selected => .ok ("\n\n".intercalate (selected.map (·.rendered codec)))

structure ContextRouteBudget where
  maxContextTokens : ℕ
  reservedOutputTokens : ℕ := 4096
  below : reservedOutputTokens < maxContextTokens

def ContextRouteBudget.availableInputTokens (b : ContextRouteBudget) : ℕ :=
  b.maxContextTokens - b.reservedOutputTokens

structure ContextCompressionRequest where
  tenantId : Uuid
  sessionId : Uuid
  runId : Uuid
  executionEpoch : ℕ
  sourceText : String
  maxSummaryBytes : ℕ

structure ContextCompressionResult where
  summary : String
  inputTokens : ℕ
  outputTokens : ℕ
  nonempty : summary ≠ ""

structure ContextBuildResult where
  messages : List GatewayMessage
  estimatedTokens : ℕ
  budgetTokens : ℕ
  compressed : Bool := false
  summary : Option String := none
  compressionInputTokens : Option ℕ := none
  compressionOutputTokens : Option ℕ := none
  retainedFragmentIds : List String := []
  droppedFragmentIds : List String := []
  deriving DecidableEq

def ContextBuildResult.validate (r : ContextBuildResult) : Except Failure ContextBuildResult :=
  if r.budgetTokens < r.estimatedTokens then
    .error (.validation "context build exceeds its declared route budget")
  else if r.summary.any (maxContextSummaryBytes < ·.utf8ByteSize) then
    .error (.validation "context summary exceeds its UTF-8 byte limit")
  else if r.compressed ∧ r.summary.isSome then
    if r.compressionInputTokens = none ∨ r.compressionOutputTokens = none then
      .error (.validation "compressed context with a summary requires compression usage")
    else .ok r
  else if r.compressionInputTokens ≠ none ∨ r.compressionOutputTokens ≠ none then
    .error (.validation "compression usage requires a compressed context summary")
  else .ok r

structure ContextPipeline where
  codec : ContextCodec
  budgets : String → Option ContextRouteBudget
  estimateMessages : List GatewayMessage → ℕ
  compress : ContextCompressionRequest → Except Failure ContextCompressionResult
  recentMessages : ℕ := 12
  maxCompressionInputBytes : ℕ := AgentPlatform.maxCompressionInputBytes
  maxSummaryBytes : ℕ := maxContextSummaryBytes
  recent : 1 ≤ recentMessages := by decide

namespace ContextPipeline

variable (p : ContextPipeline)

def estimate (messages : List GatewayMessage) : ℕ := max 1 (p.estimateMessages messages)

def budget (routeName : String) : Except Failure ContextRouteBudget :=
  match p.budgets routeName with
  | some budget => .ok budget
  | none =>
    domainError "context_route_unconfigured" "the model route has no configured context budget"
      false (.ofList [("route_name", .str routeName)])

def summaryFragment (id summary : String) (priority : ℕ) : ContextFragment :=
  { id := id, source := .compactedSummary
    message := systemMessage ("Compacted prior context:\n" ++ summary)
    priority := priority, ordinal := 0 }

def candidateTokens (critical : List ContextFragment) (candidate : String) : Except Failure ℕ :=
  match validateFragments p.codec [summaryFragment "summary-fit" candidate 0] with
  | .error f => .error f
  | .ok fragments => (assembleMessages p.codec (fragments ++ critical)).map p.estimate

/-- The loop of `_fit_summary`. -/
def fitLoop (summary : String) (critical : List ContextFragment) (available : ℕ) :
    ℕ → ℕ → ℕ → String → Except Failure String
  | 0, _, _, best | _, _, 0, best => .ok best
  | fuel + 1, low, count + 1, best =>
    let midpoint := low + count / 2
    let candidate := String.ofList (summary.toList.take midpoint)
    match p.candidateTokens critical candidate with
    | .error f => .error f
    | .ok tokens =>
      if tokens ≤ available then
        fitLoop summary critical available fuel (midpoint + 1) (count - count / 2) candidate
      else fitLoop summary critical available fuel low (count / 2) best

def fitSummary (summary : String) (critical : List ContextFragment) (available : ℕ) :
    Except Failure (Option String) :=
  (p.fitLoop summary critical available (summary.length + 1) 0 (summary.length + 1) "").map
    fun best => if best = "" then none else some best

def compression (r : ContextBuildRequest) (noncritical : List ContextFragment) :
    Except Failure (Option ContextCompressionResult) :=
  if noncritical = [] then .ok none
  else
    match boundedCompressionSource p.codec p.maxCompressionInputBytes noncritical with
    | .error f => .error f
    | .ok sourceText =>
      (p.compress
        { tenantId := r.tenantId, sessionId := r.sessionId, runId := r.runId
          executionEpoch := r.executionEpoch, sourceText := sourceText
          maxSummaryBytes := p.maxSummaryBytes }).map some

def criticalTokens (critical : List ContextFragment) : Except Failure ℕ :=
  if critical = [] then .ok 0 else (assembleMessages p.codec critical).map p.estimate

def fittedSummary (compression? : Option ContextCompressionResult)
    (critical : List ContextFragment) (available : ℕ) : Except Failure (Option String) :=
  match compression? with
  | none => .ok none
  | some c => p.fitSummary c.summary critical available

def retainedFragments (summary : Option String) (critical : List ContextFragment) :
    Except Failure (List ContextFragment) :=
  match summary with
  | none => .ok critical
  | some s =>
    (validateFragments p.codec [summaryFragment "new-compacted-summary" s 60]).map (· ++ critical)

def compact (r : ContextBuildRequest) (fragments : List ContextFragment) (available : ℕ) :
    Except Failure ContextBuildResult := do
  let critical := fragments.filter (·.critical)
  let tokens ← p.criticalTokens critical
  if available < tokens then
    domainError "context_critical_limit"
      "critical active context exceeds the configured route budget" false
      (.ofList [("critical_tokens", .num (Nat.repr tokens)),
        ("limit_tokens", .num (Nat.repr available)), ("route_name", .str r.routeName)])
  else
    let noncritical := fragments.filter (!·.critical)
    let compression? ← p.compression r noncritical
    let summary ← p.fittedSummary compression? critical available
    let retained ← p.retainedFragments summary critical
    let messages ← assembleMessages p.codec retained
    let retainedIds := critical.map (·.id)
    ContextBuildResult.validate
      { messages := messages, estimatedTokens := p.estimate messages, budgetTokens := available
        compressed := noncritical ≠ [], summary := summary
        compressionInputTokens := if summary = none then none else compression?.map (·.inputTokens)
        compressionOutputTokens :=
          if summary = none then none else compression?.map (·.outputTokens)
        retainedFragmentIds := retained.map (·.id)
        droppedFragmentIds := (fragments.map (·.id)).filter (· ∉ retainedIds) }

def build (r : ContextBuildRequest) : Except Failure ContextBuildResult := do
  let budget ← p.budget r.routeName
  let fragments ← requestFragments p.codec p.recentMessages r
  let messages ← assembleMessages p.codec fragments
  let available := budget.availableInputTokens
  if p.estimate messages ≤ available ∧ r.forceCompaction = false then
    ContextBuildResult.validate
      { messages := messages, estimatedTokens := p.estimate messages, budgetTokens := available
        retainedFragmentIds := fragments.map (·.id) }
  else p.compact r fragments available

end ContextPipeline

end AgentPlatform
