/-
**A session of several runs: one message sequence, compactions, and contexts built from both.**
-/

import AgentPlatform.ContextPipeline
import AgentPlatform.Recovery
import AgentPlatform.StoreHistory

namespace AgentPlatform

structure SessionMessage where
  run : ℕ
  row : MessageRecord
  deriving DecidableEq

inductive CompactionOutcome where
  | pending
  | completed (summary : String) (inputTokens outputTokens : ℕ) (completedAt : Timestamp)
  | failed (error : ErrorDetail) (completedAt : Timestamp)
  deriving DecidableEq

structure ContextCompaction where
  id : Uuid
  contextGeneration : ℕ
  idempotencyKey : String
  sourceMessageSequence : ℕ
  routeName : String
  requestedAt : Timestamp
  outcome : CompactionOutcome := .pending
  deriving DecidableEq

def ContextCompaction.isPending (c : ContextCompaction) : Bool := c.outcome = .pending

def ContextCompaction.summary (c : ContextCompaction) : Option String :=
  match c.outcome with
  | .completed summary _ _ _ => some summary
  | _ => none

def ContextCompaction.completedAt (c : ContextCompaction) : Option Timestamp :=
  match c.outcome with
  | .completed _ _ _ completedAt => some completedAt
  | _ => none

structure LoadedContext where
  latest : Option ContextCompaction
  pending : Option ContextCompaction
  rows : List SessionMessage
  request : ContextBuildRequest
  deriving DecidableEq

inductive BuildStage where
  | started
  | readLatest (latest : Option ContextCompaction)
  | scheduling (latest : Option ContextCompaction)
  | scheduled (latest pending : Option ContextCompaction)
  | loaded (context : LoadedContext)
  | finishing (context : LoadedContext) (pending : ContextCompaction) (result : ContextBuildResult)
  | failing (pending : ContextCompaction) (failure : Failure)
  | returned (context : LoadedContext) (result : ContextBuildResult)
  | raised (failure : Failure)
  deriving DecidableEq

def BuildStage.context : BuildStage → Option LoadedContext
  | .loaded c | .finishing c _ _ | .returned c _ => some c
  | _ => none

def BuildStage.latest : BuildStage → Option ContextCompaction
  | .readLatest latest | .scheduling latest | .scheduled latest _ => latest
  | .loaded c | .finishing c _ _ | .returned c _ => c.latest
  | _ => none

def BuildStage.pending : BuildStage → Option ContextCompaction
  | .scheduled _ pending => pending
  | .loaded c | .finishing c _ _ | .returned c _ => c.pending
  | .failing pending _ => some pending
  | _ => none

def BuildStage.result : BuildStage → Option ContextBuildResult
  | .returned _ result => some result
  | _ => none

/-- `recovered` are the rows that `_messages` selects when the run is loaded. -/
structure ContextBuild where
  run : ℕ
  lease : RunLease
  recovery : RunRecoveryState
  recovered : List SessionMessage := []
  stage : BuildStage := .started
  deriving DecidableEq

structure ContextSession where
  contextGeneration : ℕ := 1
  runs : List RunStore := []
  messages : List SessionMessage := []
  compactions : List ContextCompaction := []
  builds : ℕ → Option ContextBuild := fun _ => none

namespace ContextSession

variable (s : ContextSession)

/-- `coalesce(max(sequence), 0) + 1` over the messages of the session. -/
def nextSequence : ℕ := (s.messages.map (·.row.sequence)).foldl max 0 + 1

def rowsOf (run : ℕ) : List MessageRecord := (s.messages.filter (·.run = run)).map (·.row)

def storeOf (run : ℕ) (store : RunStore) : RunStore := { store with messages := s.rowsOf run }

def onBranch (m : SessionMessage) : Bool :=
  s.runs[m.run]?.any (·.run.executionEpoch = m.row.executionEpoch)

def visible : List SessionMessage := s.messages.filter s.onBranch

def renumber : ℕ → List MessageRecord → List MessageRecord
  | _, [] => []
  | sequence, m :: rest => { m with sequence := sequence } :: renumber (sequence + 1) rest

def supersededError : ErrorDetail :=
  { code := "context_compaction_superseded", message := "the source conversation was rewound" }

def supersede (now : Timestamp) : ContextSession :=
  { s with
    contextGeneration := s.contextGeneration + 1
    compactions := s.compactions.map fun c =>
      if c.isPending then { c with outcome := .failed supersededError (max now c.requestedAt) }
      else c }

def transact (run : ℕ) (op : StoreOp) : ContextSession :=
  match s.runs[run]? with
  | none => s
  | some store =>
    let before := s.storeOf run store
    let after := before.apply op
    let added := renumber s.nextSequence (after.messages.drop before.messages.length)
    let s' := { s with
      runs := s.runs.set run { after with messages := [] }
      messages := s.messages ++ added.map (⟨run, ·⟩) }
    match op with
    | .rewind _ now =>
      if after.run.executionEpoch = before.run.executionEpoch then s' else s'.supersede now
    | _ => s'

/-- `_insert_initial_state` of a new run. -/
def submitRun (x : Submission) : ContextSession :=
  { s with
    runs := s.runs ++ [{ submit x with messages := [] }]
    messages := s.messages ++
      (renumber s.nextSequence (submit x).messages).map (⟨s.runs.length, ·⟩) }

def pendingForSession : Option ContextCompaction :=
  s.compactions.find? fun c => c.contextGeneration = s.contextGeneration && c.isPending

/-- The latest of the completed ones; of several at one time, which the source does not order, the
first of the list. -/
def latestOf : List ContextCompaction → Option ContextCompaction
  | [] => none
  | c :: rest =>
    match c.completedAt, latestOf rest with
    | none, best => best
    | some _, none => some c
    | some completedAt, some best =>
      if best.completedAt.any (completedAt < ·) then some best else some c

def latestCompleted : Option ContextCompaction :=
  latestOf (s.compactions.filter (·.contextGeneration = s.contextGeneration))

def byIdempotencyKey (key : String) : Option ContextCompaction :=
  s.compactions.find? (·.idempotencyKey = key)

def validateReplay (c : ContextCompaction) (routeName : String) :
    Except Failure ContextCompaction :=
  if c.routeName ≠ routeName then
    domainError "context_compaction_idempotency_conflict"
      "the idempotency key belongs to another compaction request"
  else .ok c

def visibleAfter (after : Option ℕ) : List SessionMessage :=
  s.visible.filter fun m => after.all (· < m.row.sequence)

def sourceSequence (after : Option ℕ) : ℕ :=
  ((s.visibleAfter after).map (·.row.sequence)).foldl max 0

def insertCompaction (id : Uuid) (key routeName : String) (source : ℕ) (requestedAt : Timestamp) :
    Except Failure (ContextCompaction × ContextSession) :=
  let row : ContextCompaction :=
    { id := id, contextGeneration := s.contextGeneration, idempotencyKey := key
      sourceMessageSequence := source, routeName := routeName, requestedAt := requestedAt }
  if s.compactions.any (·.id = id) then .error (.integrity "pk_context_compactions")
  else if s.compactions.any (·.isPending) then
    .error (.integrity "uq_context_compactions_one_pending")
  else .ok (row, { s with compactions := s.compactions ++ [row] })

def requestCompaction (id : Uuid) (key routeName : String) (requestedAt : Timestamp) :
    Except Failure (ContextCompaction × ContextSession) :=
  match s.byIdempotencyKey key with
  | some existing => (validateReplay existing routeName).map (·, s)
  | none =>
    match s.pendingForSession with
    | some pending =>
      domainError "context_compaction_in_progress"
        "the session already has a pending context compaction" true
        (.ofList [("compaction_id", .str (uuidText pending.id))])
    | none => s.insertCompaction id key routeName (s.sourceSequence none) requestedAt

def requestCompactionIfNeeded (compactionId : String → Uuid) (after : Option ℕ)
    (thresholdMessages : ℕ) (routeName : String) (requestedAt : Timestamp) :
    Except Failure (Option ContextCompaction × ContextSession) :=
  match s.pendingForSession with
  | some pending => .ok (some pending, s)
  | none =>
    if (s.visibleAfter after).length < thresholdMessages then .ok (none, s)
    else
      let source := s.sourceSequence after
      let key := "auto-context-" ++ Nat.repr s.contextGeneration ++ "-" ++ Nat.repr source
      match s.byIdempotencyKey key with
      | some existing =>
        (validateReplay existing routeName).map fun c =>
          (if c.isPending then some c else none, s)
      | none =>
        (s.insertCompaction (compactionId key) key routeName source requestedAt).map
          fun (row, s') => (some row, s')

def finishCompaction (id : Uuid) (outcome : CompactionOutcome) (completedAt : Timestamp) :
    Except Failure (Option ContextCompaction × ContextSession) :=
  match s.compactions.find? (·.id = id) with
  | none => .ok (none, s)
  | some row =>
    if ¬ row.isPending then
      match row.outcome, outcome with
      | .completed summary input output _, .completed summary' input' output' _ =>
        if summary = summary' ∧ input = input' ∧ output = output' then .ok (some row, s)
        else domainError "context_compaction_conflict"
          "the compaction already has a different terminal outcome"
      | .failed error _, .failed error' _ =>
        if error = error' then .ok (some row, s)
        else domainError "context_compaction_conflict"
          "the compaction already has a different terminal outcome"
      | _, _ => domainError "context_compaction_conflict"
          "the compaction already has a different terminal outcome"
    else if completedAt < row.requestedAt then
      .error (.validation "compaction completion may not precede its request")
    else
      let row' := { row with outcome := outcome }
      .ok (some row', { s with
        compactions := s.compactions.map fun c => if c.id = id then row' else c })

def listMessages (after through : Option ℕ) (limit : ℕ) :
    Except Failure (List SessionMessage) :=
  if after.any (fun a => through.any (· < a)) then
    .error (.validation "through_sequence may not precede after_sequence")
  else
    let rows := (s.visibleAfter after).filter fun m => through.all (m.row.sequence ≤ ·)
    if limit < rows.length then
      domainError "context_history_limit"
        "durable conversation history exceeds the configured message limit" false
        (.ofList [("limit", .num (Nat.repr limit))])
    else .ok rows

end ContextSession

structure BuildEnv where
  systemInstructions : String := ""
  projectInstructions : String := ""
  referencedFiles : List ReferencedContextFile := []
  memories : List ContextMemorySnippet := []
  currentGitDiff : String := ""
  resultContent : DurableToolOutcome → String := fun _ => ""
  pipeline : ContextPipeline
  now : Timestamp
  thresholdMessages : Option ℕ := some 3072
  compactionId : String → Uuid
  messageLimit : ℕ := 4096

def ContextBuild.previousSummary (b : ContextBuild) (latest : Option ContextCompaction) :
    Option String :=
  match latest with
  | some c => c.summary
  | none => b.recovery.contextSummary

/-- The request that `PersistentRunContextSource.load` makes of a slice. -/
def ContextBuild.request (b : ContextBuild) (env : BuildEnv)
    (latest pending : Option ContextCompaction) (rows : List SessionMessage) :
    ContextBuildRequest :=
  let previousSummary := b.previousSummary latest
  { tenantId := b.lease.tenantId, sessionId := b.lease.sessionId, runId := b.lease.runId
    executionEpoch := b.lease.executionEpoch, routeName := b.lease.routeName
    systemInstructions := env.systemInstructions, projectInstructions := env.projectInstructions
    conversation :=
      if rows = [] ∧ previousSummary = none then b.recovery.messages
      else rows.map (·.row.message)
    referencedFiles := env.referencedFiles, taskPlan := b.recovery.taskPlan
    recentToolResults := b.recovery.priorToolOutcomes.map fun o =>
      { toolCallId := o.toolCallId, toolName := o.toolName, content := env.resultContent o
        isError := o.error.isSome }
    memories := env.memories, currentGitDiff := env.currentGitDiff
    previousSummary := previousSummary, forceCompaction := pending.isSome }

def compactionFailed : ErrorDetail :=
  { code := "context_compaction_failed", message := "context compaction could not be completed"
    retryable := true }

def compactionEmpty : ErrorDetail :=
  { code := "context_compaction_empty"
    message := "no noncritical context was available to compact" }

def compactionMissing : Failure :=
  .domain
    { code := "context_compaction_missing", message := "the pending compaction request disappeared"
      retryable := true }

def ContextBuildResult.outcome (result : ContextBuildResult) (now : Timestamp) :
    CompactionOutcome :=
  match result.summary, result.compressionInputTokens, result.compressionOutputTokens with
  | some summary, some input, some output => .completed summary input output now
  | _, _, _ => .failed compactionEmpty now

namespace ContextSession

variable (s : ContextSession)

def built (id : ℕ) : Option (List GatewayMessage) :=
  ((s.builds id).bind (·.stage.result)).map (·.messages)

def setBuild (id : ℕ) (b : ContextBuild) : ContextSession :=
  { s with builds := fun id' => if id' = id then some b else s.builds id' }

def setStage (id : ℕ) (b : ContextBuild) (stage : BuildStage) : ContextSession :=
  s.setBuild id { b with stage := stage }

def readPending (id : ℕ) (b : ContextBuild) (env : BuildEnv)
    (latest : Option ContextCompaction) : ContextSession :=
  match s.pendingForSession, env.thresholdMessages with
  | none, some _ => s.setStage id b (.scheduling latest)
  | pending, _ => s.setStage id b (.scheduled latest pending)

def schedule (id : ℕ) (b : ContextBuild) (env : BuildEnv)
    (latest : Option ContextCompaction) : ContextSession :=
  match s.requestCompactionIfNeeded env.compactionId (latest.map (·.sourceMessageSequence))
      (env.thresholdMessages.getD 0) b.lease.routeName env.now with
  | .error f => s.setStage id b (.raised f)
  | .ok (pending, s') => s'.setStage id b (.scheduled latest pending)

def loadSources (id : ℕ) (b : ContextBuild) (env : BuildEnv)
    (latest pending : Option ContextCompaction) : ContextSession :=
  match s.listMessages (latest.map (·.sourceMessageSequence))
      (pending.map (·.sourceMessageSequence)) env.messageLimit with
  | .error f => s.setStage id b (.raised f)
  | .ok rows =>
    match (b.request env latest pending rows).validate env.pipeline.codec with
    | .error f => s.setStage id b (.raised f)
    | .ok request =>
      s.setStage id b
        (.loaded { latest := latest, pending := pending, rows := rows, request := request })

def runPipeline (id : ℕ) (b : ContextBuild) (env : BuildEnv) (c : LoadedContext) :
    ContextSession :=
  match env.pipeline.build c.request, c.pending with
  | .error f, none => s.setStage id b (.raised f)
  | .error f, some pending => s.setStage id b (.failing pending f)
  | .ok result, none => s.setStage id b (.returned c result)
  | .ok result, some pending => s.setStage id b (.finishing c pending result)

def endCompaction (id : ℕ) (b : ContextBuild) (env : BuildEnv) (c : LoadedContext)
    (pending : ContextCompaction) (result : ContextBuildResult) : ContextSession :=
  match result.outcome env.now, s.finishCompaction pending.id (result.outcome env.now) env.now with
  | _, .error f => s.setStage id b (.raised f)
  | .completed .., .ok (none, _) => s.setStage id b (.raised compactionMissing)
  | _, .ok (_, s') => s'.setStage id b (.returned c result)

def recordFailure (id : ℕ) (b : ContextBuild) (env : BuildEnv) (pending : ContextCompaction)
    (f : Failure) : ContextSession :=
  match s.finishCompaction pending.id (.failed compactionFailed env.now) env.now with
  | .error f' => s.setStage id b (.raised f')
  | .ok (_, s') => s'.setStage id b (.raised f)

def advance (id : ℕ) (env : BuildEnv) : ContextSession :=
  match s.builds id with
  | none => s
  | some b =>
    match b.stage with
    | .started => s.setStage id b (.readLatest s.latestCompleted)
    | .readLatest latest => s.readPending id b env latest
    | .scheduling latest => s.schedule id b env latest
    | .scheduled latest pending => s.loadSources id b env latest pending
    | .loaded c => s.runPipeline id b env c
    | .finishing c pending result => s.endCompaction id b env c pending result
    | .failing pending f => s.recordFailure id b env pending f
    | .returned _ _ | .raised _ => s

/-- The rows of the session's other runs, as a load of the run finds them. -/
def inSession (codec : RecoveryCodec) (run : ℕ) : RecoveryCodec :=
  { codec with session := { others := (s.visible.filter (·.run ≠ run)).map (·.row) } }

/-- The rows of the session up to the last one that the epoch of the run has. -/
def recoveredRows (run : ℕ) (store : RunStore) (lease : RunLease) : List SessionMessage :=
  let cutoff :=
    (((s.storeOf run store).epochMessages lease.executionEpoch).map (·.sequence)).foldl max 0
  s.visible.filter (·.row.sequence ≤ cutoff)

def begin (id run : ℕ) (lease : RunLease) (codec : RecoveryCodec) (now : Timestamp) :
    ContextSession :=
  match s.builds id, s.runs[run]? with
  | none, some store =>
    match load (s.inSession codec run) (s.storeOf run store) lease now with
    | .error _ => s
    | .ok recovery =>
      s.setBuild id
        { run := run, lease := lease, recovery := recovery
          recovered := s.recoveredRows run store lease }
  | _, _ => s

end ContextSession

inductive SessionOp where
  | submit (x : Submission)
  | transact (run : ℕ) (op : StoreOp)
  | requestCompaction (id : Uuid) (key routeName : String) (requestedAt : Timestamp)
  | begin (id run : ℕ) (lease : RunLease) (codec : RecoveryCodec) (now : Timestamp)
  | advance (id : ℕ) (env : BuildEnv)

def ContextSession.apply (s : ContextSession) : SessionOp → ContextSession
  | .submit x => s.submitRun x
  | .transact run op => s.transact run op
  | .requestCompaction id key routeName requestedAt =>
    match s.requestCompaction id key routeName requestedAt with
    | .error _ => s
    | .ok (_, s') => s'
  | .begin id run lease codec now => s.begin id run lease codec now
  | .advance id env => s.advance id env

def scriptedPipeline : ContextPipeline where
  codec :=
    { contentText := fun content => match content with
        | .text value => value
        | _ => "result"
      canonicalJson := fun _ => "json", canonicalMessage := fun _ => "message"
      messageBytes := fun _ => 0, requestBytes := fun _ => 0, casefold := id }
  budgets := fun _ => some { maxContextTokens := 8192, below := by decide }
  estimateMessages := List.length
  compress := fun _ =>
    .ok { summary := "summary", inputTokens := 1, outputTokens := 1, nonempty := by decide }

def scriptedBuild (now : Timestamp) (memories : List ContextMemorySnippet := []) : BuildEnv where
  systemInstructions := "instructions"
  memories := memories
  pipeline := scriptedPipeline
  now := now
  compactionId := fun _ => 90

def scriptedMemory : ContextMemorySnippet := { memoryId := 70, content := "memory" }

/-- The plan of a submission with one initial task. -/
def scriptedPlan : JsonObject :=
  .ofList [("tasks", .arr (.cons (.obj (.ofList
    [("id", .str "1"), ("title", .str "task"), ("status", .str "pending"), ("details", .str ""),
      ("depends_on", .arr .nil)])) .nil))]

/-- What the instructions and the plan of the scripts become in a context. -/
def scriptedInstructions : String := "instructions\n\nActive task plan unresolved item (1/1):\njson"

def sessionSubmission (run : ℕ) (task : String) : Submission :=
  { tenantId := 1, runId := 10 + run, sessionId := 3, workspaceId := 4, routeName := "default"
    approvalMode := .autoApprove, messageId := 20 + run, task := task, plan := scriptedPlan, createdAt := 0 }

def sessionLease (run generation : ℕ) : RunLease :=
  { tenantId := 1, runId := 10 + run, sessionId := 3, workspaceId := 4, workerId := "worker"
    routeName := "default", leaseToken := 1000 + 10 * run + generation, generation := generation
    attempt := generation, executionEpoch := 1, acquiredAt := 100 * generation
    expiresAt := 100 * generation + 50, checkpointId := none, cancellationRequested := false }

def takeRun (run generation : ℕ) : List SessionOp :=
  [.transact run (.claim "worker" (sessionLease run generation).leaseToken (100 * generation)
     (100 * generation + 50)),
   .transact run (.start (sessionLease run generation) (100 * generation))]

def loseRun (run generation : ℕ) : SessionOp :=
  .transact run (.recoverExpired (100 * generation + 50))

def scriptedTurn (callId : String) : List GatewayMessage :=
  [assistantMessage "" [{ id := callId, name := "read_file", arguments := .nil }],
   toolMessage callId (some .nil) none]

def journal (run generation startIndex : ℕ) (messages : List GatewayMessage) : SessionOp :=
  .transact run (.appendTranscript { messageBytes := fun _ => 0 } (sessionLease run generation)
    (100 * generation) startIndex messages (100 * generation))

def buildContext (codec : RecoveryCodec) (id run generation steps : ℕ) (env : BuildEnv) :
    List SessionOp :=
  SessionOp.begin id run (sessionLease run generation) codec (100 * generation) ::
    List.replicate steps (.advance id env)

end AgentPlatform
