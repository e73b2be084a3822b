/-
**What a re-leased run is resumed from: `PostgresRecoveryStore.load`.**
-/

import AgentPlatform.LoopTypes
import AgentPlatform.RunStore

namespace AgentPlatform

open List

structure RunRecoveryState where
  checkpoint : Option Checkpoint := none
  workspaceRestoreRevision : Option String := none
  messages : List GatewayMessage
  taskPlan : JsonObject := .nil
  contextSummary : Option String := none
  priorToolOutcomes : List DurableToolOutcome := []
  approvalMode : ApprovalMode := .autoApprove
  pendingToolCalls : List DurablePendingToolCall := []
  deriving DecidableEq

open RunRecoveryState

/-- The rows of a session that do not belong to the run: its other runs' rows on their active
branches. A run's own rows are numbered by the run here and by the session in the table; `place`
gives the number in the table. -/
structure SessionRows where
  others : List MessageRecord := []
  place : ℕ → ℕ := id

/-- `canonical_argument_hash`, the sizes the recovery limits refer to, and the rest of the session. -/
structure RecoveryCodec where
  argumentHash : JsonObject → String
  messageBytes : GatewayMessage → ℕ
  checkpointBytes : List GatewayMessage → ℕ
  rowBytes : MessageRecord → ℕ
  outcomeBytes : ToolCall → ℕ
  stateBytes : RunRecoveryState → ℕ
  session : SessionRows := {}

def maxRecoveryMessages : ℕ := 4096

def maxRecoveryToolOutcomes : ℕ := 100

/-- `MAX_RECOVERY_CONTEXT_BYTES`. -/
def maxRecoveryBytes : ℕ := 8 * 1024 * 1024

def maxRecoveryStateBytes : ℕ := 16 * 1024 * 1024

def runDetails (lease : RunLease) : JsonObject := .ofList [("run_id", .str (uuidText lease.runId))]

def CheckpointRecord.before (a b : CheckpointRecord) : Bool :=
  a.checkpoint.createdAt < b.checkpoint.createdAt ||
    (a.checkpoint.createdAt = b.checkpoint.createdAt && a.checkpoint.id < b.checkpoint.id)

def latestCheckpoint : List CheckpointRecord → Option CheckpointRecord
  | [] => none
  | c :: rest =>
    match latestCheckpoint rest with
    | none => some c
    | some d => if c.before d then some d else some c

def selectCheckpoint (s : RunStore) (lease : RunLease) : Option CheckpointRecord :=
  match lease.checkpointId with
  | some id => s.checkpoint? id
  | none =>
    latestCheckpoint (s.checkpoints.filter (·.checkpoint.executionEpoch = lease.executionEpoch))

def onActiveBranch (lease : RunLease) (row? : Option CheckpointRecord) : Bool :=
  row?.all (·.checkpoint.executionEpoch = lease.executionEpoch)

def checkpointDomain (row : CheckpointRecord) (preferCompleted : Bool) : Checkpoint :=
  match preferCompleted, row.completed with
  | true, some (snapshot, revision) =>
    { row.checkpoint with workspaceSnapshot := snapshot, workspaceRevision := revision }
  | _, _ => row.checkpoint

def checkpointMessages (codec : RecoveryCodec) (lease : RunLease) (messages : List GatewayMessage) :
    Except Failure (List GatewayMessage) :=
  if maxRecoveryMessages < messages.length then
    domainError "recovery_context_limit" "durable checkpoint messages exceed the message limit" false
      (runDetails lease)
  else if maxRecoveryBytes < codec.checkpointBytes messages then
    domainError "recovery_context_limit" "durable checkpoint messages exceed the byte limit" false
      (runDetails lease)
  else .ok messages

def suffixMessages (lease : RunLease) (sequence : ℕ) :
    List (ℕ × GatewayMessage) → List MessageRecord → Except Failure (List (ℕ × GatewayMessage))
  | suffix, [] => .ok suffix
  | suffix, row :: rest =>
    match row.transcriptIndex with
    | none => suffixMessages lease sequence suffix rest
    | some position =>
      if position < 1 then
        domainError "recovery_message_invalid" "durable transcript position is invalid" false
          (runDetails lease)
      else if position ≤ sequence then suffixMessages lease sequence suffix rest
      else if position ∈ suffix.map (·.1) then
        domainError "recovery_message_invalid" "durable transcript positions are not unique"
          false (runDetails lease)
      else suffixMessages lease sequence (suffix ++ [(position, row.message)]) rest

def checkpointMessagesWithSuffix (codec : RecoveryCodec) (s : RunStore) (lease : RunLease)
    (messages : List GatewayMessage) (sequence : ℕ) : Except Failure (List GatewayMessage) :=
  match checkpointMessages codec lease messages with
  | .error f => .error f
  | .ok base =>
    if sequence ≠ base.length then
      domainError "recovery_message_invalid"
        "durable checkpoint message metadata is inconsistent" false (runDetails lease)
    else
      let rows := s.epochMessages lease.executionEpoch
      match suffixMessages lease sequence [] (rows.take maxRecoveryMessages) with
      | .error f => .error f
      | .ok suffix =>
        if maxRecoveryMessages < rows.length then
          domainError "recovery_context_limit"
            "durable recovery context exceeds the message limit" false (runDetails lease)
        else
          let sorted := suffix.insertionSort (fun a b => a.1 ≤ b.1)
          let merged := base ++ sorted.map (·.2)
          if sorted.map (·.1) ≠ List.range' (sequence + 1) sorted.length then
            domainError "recovery_message_invalid"
              "durable transcript positions are not contiguous" false (runDetails lease)
          else if maxRecoveryMessages < merged.length then
            domainError "recovery_context_limit"
              "durable recovery context exceeds the message limit" false (runDetails lease)
          else if maxRecoveryBytes < (merged.map codec.messageBytes).sum then
            domainError "recovery_context_limit"
              "durable recovery context exceeds the byte limit" false
              (.ofList [("run_id", .str (uuidText lease.runId)),
                ("limit_bytes", jsonNat maxRecoveryBytes)])
          else .ok merged

/-- A row of the run as it is numbered in the table. -/
def SessionRows.placed (session : SessionRows) (m : MessageRecord) : MessageRecord :=
  { m with sequence := session.place m.sequence }

/-- The rows `_messages` selects: of every run of the session, on its active branch. -/
def branchRows (session : SessionRows) (s : RunStore) (lease : RunLease)
    (messageLimit : Option ℕ) : List MessageRecord :=
  let cutoff :=
    match messageLimit with
    | some limit => limit
    | none =>
      ((s.epochMessages lease.executionEpoch).map (session.place ·.sequence)).foldl max 0
  let own := (s.messages.filter (·.executionEpoch = s.run.executionEpoch)).map session.placed
  ((own ++ session.others).filter (·.sequence ≤ cutoff)).insertionSort
    (fun a b => a.sequence ≤ b.sequence)

def recoveryMessages (codec : RecoveryCodec) (s : RunStore) (lease : RunLease)
    (messageLimit : Option ℕ) : Except Failure (List GatewayMessage) :=
  let rows := branchRows codec.session s lease messageLimit
  if maxRecoveryBytes < (rows.map codec.rowBytes).sum then
    domainError "recovery_context_limit" "durable recovery context exceeds the byte limit" false
      (.ofList [("run_id", .str (uuidText lease.runId)), ("limit_bytes", jsonNat maxRecoveryBytes)])
  else if maxRecoveryMessages < rows.length then
    domainError "recovery_context_limit" "durable recovery context exceeds the message limit" false
      (runDetails lease)
  else .ok (rows.map (·.message))

def loadMessages (codec : RecoveryCodec) (s : RunStore) (lease : RunLease)
    (row? : Option CheckpointRecord) : Except Failure (List GatewayMessage) :=
  if onActiveBranch lease row? then
    match row? with
    | none => recoveryMessages codec s lease none
    | some row =>
      if row.checkpoint.messages = [] then
        recoveryMessages codec s lease (some row.checkpoint.messageSequence)
      else
        checkpointMessagesWithSuffix codec s lease row.checkpoint.messages
          row.checkpoint.messageSequence
  else recoveryMessages codec s lease none

def ToolCall.toOutcome (c : ToolCall) : DurableToolOutcome :=
  { toolCallId := c.id, toolName := c.toolName, turnNumber := c.turnNumber
    argumentHash := c.argumentHash, status := c.status, workspaceVersion := c.workspaceVersion
    result := c.result, error := c.error }

/-- `DurableToolOutcome.validate_terminal_outcome`. -/
def DurableToolOutcome.invalidity (o : DurableToolOutcome) : Option String :=
  if o.turnNumber < 1 then some "turn_number must be greater than or equal to 1"
  else if ¬ o.status.terminal then some "durable tool outcome must be terminal"
  else if o.status = .completed then
    if o.result = none ∨ o.error ≠ none then
      some "completed durable tool outcome requires only a result"
    else none
  else if o.error = none ∨ o.result ≠ none then
    some "failed or cancelled durable tool outcome requires only an error"
  else none

def DurableToolOutcome.validate (o : DurableToolOutcome) : Except Failure DurableToolOutcome :=
  match o.invalidity with
  | some message => .error (.validation message)
  | none => .ok o

/-- The order of `ORDER BY completed_at, turn_number, tool_call_id`. -/
def ToolCall.outcomeLe (a b : ToolCall) : Bool :=
  let ca := a.completedAt.getD 0
  let cb := b.completedAt.getD 0
  ca < cb || (ca = cb && (a.turnNumber < b.turnNumber ||
    (a.turnNumber = b.turnNumber && a.id ≤ b.id)))

def terminalCalls (s : RunStore) (lease : RunLease) (since : Option Timestamp) : List ToolCall :=
  s.toolCalls.filter fun c =>
    c.executionEpoch = lease.executionEpoch && c.status.terminal &&
      since.all fun t => c.completedAt.any (t ≤ ·)

def toolOutcomes (codec : RecoveryCodec) (s : RunStore) (lease : RunLease)
    (since : Option Timestamp) : Except Failure (List DurableToolOutcome) :=
  let rows := (terminalCalls s lease since).insertionSort (fun a b => a.outcomeLe b)
  if maxRecoveryBytes < (rows.map codec.outcomeBytes).sum then
    domainError "recovery_tool_limit"
      "durable recovery state exceeds the tool-outcome byte limit" false
      (.ofList [("run_id", .str (uuidText lease.runId)), ("limit_bytes", jsonNat maxRecoveryBytes)])
  else
    match (rows.take maxRecoveryToolOutcomes).mapM fun c => c.toOutcome.validate with
    | .error f => .error f
    | .ok outcomes =>
      if maxRecoveryToolOutcomes < rows.length then
        domainError "recovery_tool_limit" "durable recovery state exceeds the tool-call limit"
          false (runDetails lease)
      else .ok outcomes

def ToolCall.pendingLe (a b : ToolCall) : Bool :=
  a.turnNumber < b.turnNumber || (a.turnNumber = b.turnNumber && a.id ≤ b.id)

def openCalls (s : RunStore) (epoch : ℕ) : List ToolCall :=
  (s.toolCalls.filter fun c =>
    c.executionEpoch = epoch && (c.status = .received || c.status = .waitingApproval)).insertionSort
      (fun a b => a.pendingLe b)

def approvalOf (s : RunStore) (c : ToolCall) : Option ApprovalRecord :=
  s.approvals.find? fun a => a.executionEpoch = c.executionEpoch && a.toolCallId = c.id

def ToolCall.toPending (c : ToolCall) : DurablePendingToolCall :=
  { toolCallId := c.id, toolName := c.toolName, turnNumber := c.turnNumber
    arguments := c.arguments, argumentHash := c.argumentHash }

def ToolCall.toDecided (c : ToolCall) (a : ApprovalRecord) : DurablePendingToolCall :=
  { c.toPending with
    approvalId := some a.id
    approvalApproved := some (a.status = .approved)
    approvalResponse := a.response }

def approvalIncomplete : Failure :=
  .domain
    { code := "recovery_approval_incomplete"
      message := "a resumed run contains an undecided approval", retryable := true }

def approvalInvalid : Failure :=
  .domain
    { code := "recovery_approval_invalid"
      message := "a durable approval is attached to a non-waiting tool call" }

def maxApprovalResponseBytes : ℕ := 64 * 1024

/-- `DurablePendingToolCall.validate_approval`. -/
def DurablePendingToolCall.invalidity (hash : JsonObject → String) (p : DurablePendingToolCall) :
    Option String :=
  if p.turnNumber < 1 then some "turn_number must be greater than or equal to 1"
  else if p.approvalResponse.any (fun r => r.length = 0 || 65536 < r.length) then
    some "approval_response must contain 1 to 65536 characters"
  else if p.argumentHash ≠ hash p.arguments then
    some "pending tool argument hash does not match its arguments"
  else if p.approvalId.isNone ≠ p.approvalApproved.isNone then
    some "approval identity and decision must be present together"
  else if p.approvalResponse ≠ none ∧ p.approvalId = none then
    some "approval response requires an approval decision"
  else if p.approvalResponse.any (maxApprovalResponseBytes < ·.utf8ByteSize) then
    some "approval response exceeds its UTF-8 byte limit"
  else none

def DurablePendingToolCall.validate (hash : JsonObject → String) (p : DurablePendingToolCall) :
    Except Failure DurablePendingToolCall :=
  match p.invalidity hash with
  | some message => .error (.validation message)
  | none => .ok p

def pendingToolCall (codec : RecoveryCodec) (s : RunStore) (c : ToolCall) :
    Except Failure DurablePendingToolCall :=
  match c.status, approvalOf s c with
  | .waitingApproval, none => .error approvalIncomplete
  | .waitingApproval, some a =>
    if a.status = .pending then .error approvalIncomplete
    else (c.toDecided a).validate codec.argumentHash
  | _, some _ => .error approvalInvalid
  | _, none => c.toPending.validate codec.argumentHash

def resumedCall (s : RunStore) (c : ToolCall) : DurablePendingToolCall :=
  match approvalOf s c with
  | some a => c.toDecided a
  | none => c.toPending

def pendingToolCalls (codec : RecoveryCodec) (s : RunStore) (lease : RunLease) :
    Except Failure (List DurablePendingToolCall) :=
  let rows := openCalls s lease.executionEpoch
  if maxRecoveryToolOutcomes < rows.length then
    domainError "recovery_tool_limit" "durable recovery contains too many pending tool calls"
  else rows.mapM (pendingToolCall codec s)

def RunRecoveryState.invalidity (codec : RecoveryCodec) (r : RunRecoveryState) : Option String :=
  if r.messages = [] ∨ maxRecoveryMessages < r.messages.length then
    some "messages must contain between 1 and 4096 items"
  else if r.checkpoint.isNone ≠ r.workspaceRestoreRevision.isNone then
    some "workspace_restore_revision must be present exactly when a checkpoint is present"
  else if ¬ (r.priorToolOutcomes.map (·.toolCallId)).Nodup then
    some "prior durable tool-call IDs must be unique"
  else if ¬ (r.pendingToolCalls.map (·.toolCallId)).Nodup then
    some "pending durable tool-call IDs must be unique"
  else if ∃ a ∈ r.pendingToolCalls, ∃ b ∈ r.pendingToolCalls, a.turnNumber ≠ b.turnNumber then
    some "pending durable tool calls must belong to one atomic model turn"
  else if ∃ o ∈ r.priorToolOutcomes, o.toolCallId ∈ r.pendingToolCalls.map (·.toolCallId) then
    some "terminal and pending tool-call IDs must be disjoint"
  else if maxRecoveryStateBytes < codec.stateBytes r then
    some "serialized recovery state exceeds 16777216-byte limit"
  else none

def loadsToolCalls (lease : RunLease) (row? : Option CheckpointRecord) : Bool :=
  !(onActiveBranch lease row?) || row?.all (·.completed.isSome)

def ToolCall.toGateway (c : ToolCall) : GatewayToolCall :=
  { id := c.id, name := c.toolName, arguments := c.arguments }

def RunStore.resumedCalls (s : RunStore) (lease : RunLease) : List GatewayToolCall :=
  if loadsToolCalls lease (selectCheckpoint s lease) then
    (openCalls s lease.executionEpoch).map ToolCall.toGateway
  else []

def currentTaskPlan (s : RunStore) (epoch : ℕ) : JsonObject :=
  ((s.taskPlans.filter (·.executionEpoch = epoch)).foldl
    (fun best p =>
      match best with
      | none => some p
      | some b => if b.version < p.version then some p else some b) none).elim .nil (·.plan)

def requiredCheckpoint (s : RunStore) (lease : RunLease) :
    Except Failure (Option CheckpointRecord) :=
  match lease.checkpointId, selectCheckpoint s lease with
  | some id, none =>
    domainError "recovery_checkpoint_missing" "the run's selected checkpoint does not exist" false
      (.ofList [("run_id", .str (uuidText lease.runId)), ("checkpoint_id", .str (uuidText id))])
  | _, row? => .ok row?

def requiredMessages (codec : RecoveryCodec) (s : RunStore) (lease : RunLease)
    (row? : Option CheckpointRecord) : Except Failure (List GatewayMessage) :=
  match loadMessages codec s lease row? with
  | .error f => .error f
  | .ok [] =>
    domainError "recovery_context_missing" "the run has no durable messages to execute" false
      (runDetails lease)
  | .ok (m :: ms) => .ok (m :: ms)

def recoveredCheckpoint (lease : RunLease) (row? : Option CheckpointRecord) : Option Checkpoint :=
  row?.map fun row => checkpointDomain row (onActiveBranch lease row?)

def loadOutcomes (codec : RecoveryCodec) (s : RunStore) (lease : RunLease)
    (row? : Option CheckpointRecord) : Except Failure (List DurableToolOutcome) :=
  if loadsToolCalls lease row? then
    toolOutcomes codec s lease ((recoveredCheckpoint lease row?).map (·.createdAt))
  else .ok []

def loadPending (codec : RecoveryCodec) (s : RunStore) (lease : RunLease)
    (row? : Option CheckpointRecord) : Except Failure (List DurablePendingToolCall) :=
  if loadsToolCalls lease row? then pendingToolCalls codec s lease else .ok []

def recoveryState (s : RunStore) (lease : RunLease) (row? : Option CheckpointRecord)
    (messages : List GatewayMessage) (outcomes : List DurableToolOutcome)
    (pending : List DurablePendingToolCall) : RunRecoveryState :=
  let checkpoint? := recoveredCheckpoint lease row?
  { checkpoint := checkpoint?
    workspaceRestoreRevision := checkpoint?.map (·.workspaceRevision)
    messages := messages
    taskPlan := checkpoint?.elim (currentTaskPlan s lease.executionEpoch) (·.taskPlan)
    contextSummary := checkpoint?.bind (·.contextSummary)
    priorToolOutcomes := outcomes
    approvalMode := s.approvalMode
    pendingToolCalls := pending }

def RunRecoveryState.validate (codec : RecoveryCodec) (r : RunRecoveryState) :
    Except Failure RunRecoveryState :=
  match r.invalidity codec with
  | some message => .error (.validation message)
  | none => .ok r

def load (codec : RecoveryCodec) (s : RunStore) (lease : RunLease) (now : Timestamp) :
    Except Failure RunRecoveryState := do
  assertActiveRunLease s lease now
  let row? ← requiredCheckpoint s lease
  let messages ← requiredMessages codec s lease row?
  let outcomes ← loadOutcomes codec s lease row?
  let pending ← loadPending codec s lease row?
  (recoveryState s lease row? messages outcomes pending).validate codec

variable {ε α β : Type} {row? : Option CheckpointRecord} {c : ToolCall}

theorem except_bind_error {x : Except ε α} {f : α → Except ε β} {e : ε} (h : (x >>= f) = .error e)
    : x = .error e ∨ ∃ a, x = .ok a ∧ f a = .error e := by
  cases x with
  | error =>
    cases h
    exact .inl rfl
  | ok a => exact .inr ⟨a, rfl, h⟩

variable {s : RunStore} {lease : RunLease} {codec : RecoveryCodec} {r : RunRecoveryState}

theorem assertActiveRunLease_ok {now : Timestamp} {u : Unit}
    (h : assertActiveRunLease s lease now = .ok u) : s.leaseActive lease now := by
  unfold assertActiveRunLease at h
  split at h
  · assumption
  · cases h

theorem requiredCheckpoint_ok (h : requiredCheckpoint s lease = .ok row?) :
    row? = selectCheckpoint s lease ∧ (lease.checkpointId ≠ none → row? ≠ none) := by
  unfold requiredCheckpoint at h
  split at h
  · simp [domainError] at h
  rename_i hne
  cases h
  refine ⟨rfl, ?_⟩
  intro hid hn
  obtain ⟨id, hid⟩ := Option.ne_none_iff_exists'.1 hid
  exact hne id hid hn

theorem requiredMessages_ok {ms : List GatewayMessage}
    (h : requiredMessages codec s lease row? = .ok ms) :
    loadMessages codec s lease row? = .ok ms := by
  unfold requiredMessages at h
  split at h
  · cases h
  · simp [domainError] at h
  next hms =>
    cases h
    exact hms

theorem RunRecoveryState.validate_ok {r' : RunRecoveryState} (h : r.validate codec = .ok r')
    : r' = r ∧ r.invalidity codec = none := by
  unfold validate at h
  split at h
  · cases h
  next hval =>
    cases h
    exact ⟨rfl, hval⟩

theorem RunRecoveryState.pending_nodup (h : r.invalidity codec = none)
    : (r.pendingToolCalls.map (·.toolCallId)).Nodup := by
  unfold invalidity at h
  iterate 4
    split at h
    · cases h
  next hn => exact not_not.1 hn

theorem RunRecoveryState.pending_disjoint (h : r.invalidity codec = none) :
    ∀ o ∈ r.priorToolOutcomes, o.toolCallId ∉ r.pendingToolCalls.map (·.toolCallId) := by
  unfold invalidity at h
  iterate 5
    split at h
    · cases h
  split at h
  · cases h
  next hd =>
    intro o ho hmem
    exact hd ⟨o, ho, hmem⟩

theorem load_inv {now : Timestamp} (h : load codec s lease now = .ok r) :
    s.leaseActive lease now ∧ (lease.checkpointId ≠ none → selectCheckpoint s lease ≠ none) ∧
      ∃ messages outcomes pending,
        loadMessages codec s lease (selectCheckpoint s lease) = .ok messages ∧
        loadOutcomes codec s lease (selectCheckpoint s lease) = .ok outcomes ∧
        loadPending codec s lease (selectCheckpoint s lease) = .ok pending ∧
        r = recoveryState s lease (selectCheckpoint s lease) messages outcomes pending ∧
        r.invalidity codec = none := by
  unfold load at h
  obtain ⟨_, hf, h⟩ := except_bind_ok h
  obtain ⟨_, hrow, h⟩ := except_bind_ok h
  obtain ⟨messages, hms, h⟩ := except_bind_ok h
  obtain ⟨outcomes, hout, h⟩ := except_bind_ok h
  obtain ⟨pending, hp, h⟩ := except_bind_ok h
  obtain ⟨rfl, hs⟩ := requiredCheckpoint_ok hrow
  obtain ⟨rfl, hval⟩ := validate_ok h
  exact ⟨assertActiveRunLease_ok hf, hs, messages, outcomes, pending,
    requiredMessages_ok hms, hout, hp, rfl, hval⟩

theorem except_mapM_ok {f : α → Except ε β} :
    ∀ {xs : List α} {ys : List β}, xs.mapM f = .ok ys → xs.map f = ys.map .ok
  | [], ys, h => by
      rw [mapM_nil] at h
      cases h
      rfl
  | x :: xs, ys, h => by
      rw [mapM_cons] at h
      obtain ⟨_, hy, h⟩ := except_bind_ok h
      obtain ⟨_, hr, h⟩ := except_bind_ok h
      cases h
      rw [map_cons, map_cons, hy, except_mapM_ok hr]

theorem except_mapM_error {f : α → Except ε β} {e : ε} :
    ∀ {xs : List α}, xs.mapM f = .error e → ∃ x ∈ xs, f x = .error e
  | [], h => by
      rw [mapM_nil] at h
      cases h
  | x :: xs, h => by
      rw [mapM_cons] at h
      obtain hx | ⟨_, -, h⟩ := except_bind_error h
      · exact ⟨x, mem_cons_self .., hx⟩
      · obtain hxs | ⟨_, -, h⟩ := except_bind_error h
        · obtain ⟨x', hx', hf⟩ := except_mapM_error hxs
          exact ⟨x', mem_cons_of_mem _ hx', hf⟩
        · cases h

theorem mem_openCalls {epoch : ℕ} :
    c ∈ openCalls s epoch ↔ c ∈ s.toolCalls ∧ c.executionEpoch = epoch ∧
      (c.status = .received ∨ c.status = .waitingApproval) := by
  simp [openCalls, mem_insertionSort]

theorem DurablePendingToolCall.validate_ok {hash : JsonObject → String}
    {p p' : DurablePendingToolCall} (h : p.validate hash = .ok p') :
    p' = p ∧ p.argumentHash = hash p.arguments := by
  unfold DurablePendingToolCall.validate at h
  split at h
  · cases h
  rename_i hval
  cases h
  refine ⟨rfl, by_contra fun hne => ?_⟩
  unfold DurablePendingToolCall.invalidity at hval
  split at hval
  · cases hval
  split at hval
  · cases hval
  cases hval

theorem pendingToolCall_of_not_waiting (h : c.status ≠ .waitingApproval) :
    pendingToolCall codec s c = (match approvalOf s c with
      | some _ => .error approvalInvalid
      | none => c.toPending.validate codec.argumentHash) := by
  unfold pendingToolCall
  cases hst : c.status with
  | waitingApproval => exact absurd hst h
  | _ => cases approvalOf s c <;> rfl

theorem pendingToolCall_ok {p : DurablePendingToolCall} (h : pendingToolCall codec s c = .ok p) :
    p = resumedCall s c ∧ p.argumentHash = codec.argumentHash p.arguments := by
  unfold resumedCall
  by_cases hst : c.status = .waitingApproval
  · cases ha : approvalOf s c with
    | none =>
      simp only [pendingToolCall, hst, ha] at h
      cases h
    | some =>
      simp only [pendingToolCall, hst, ha] at h
      split at h
      · cases h
      · obtain ⟨rfl, hh⟩ := DurablePendingToolCall.validate_ok h
        exact ⟨rfl, hh⟩
  · cases ha : approvalOf s c with
    | none =>
      rw [pendingToolCall_of_not_waiting hst, ha] at h
      obtain ⟨rfl, hh⟩ := DurablePendingToolCall.validate_ok h
      exact ⟨rfl, hh⟩
    | some =>
      rw [pendingToolCall_of_not_waiting hst, ha] at h
      cases h

theorem loadPending_ok {pending : List DurablePendingToolCall}
    (h : loadPending codec s lease row? = .ok pending) :
    pending = (if loadsToolCalls lease row? then
      (openCalls s lease.executionEpoch).map (resumedCall s) else []) ∧
      ∀ p ∈ pending, p.argumentHash = codec.argumentHash p.arguments := by
  unfold loadPending at h
  split at h
  next hl =>
    unfold pendingToolCalls at h
    dsimp only at h
    split at h
    · simp [domainError] at h
    have hall := except_mapM_ok h
    have hrow : ∀ p ∈ pending, ∃ c ∈ openCalls s lease.executionEpoch,
        pendingToolCall codec s c = .ok p := by
      intro p hp
      exact mem_map.1 (hall ▸ mem_map_of_mem hp)
    refine ⟨?_, ?_⟩
    · have hmap : (openCalls s lease.executionEpoch).map (pendingToolCall codec s) =
          ((openCalls s lease.executionEpoch).map (resumedCall s)).map .ok := by
        rw [map_map]
        refine map_congr_left fun c hc => ?_
        obtain ⟨p, -, hp⟩ := mem_map.1 (hall ▸ mem_map_of_mem hc)
        rw [comp_apply, ← (pendingToolCall_ok hp.symm).1, hp]
      rw [if_pos hl]
      exact map_injective_iff.2 (fun _ _ => Except.ok.inj) (hall.symm.trans hmap)
    · intro p hp
      obtain ⟨c, -, hc⟩ := hrow p hp
      exact (pendingToolCall_ok hc).2
  next hl =>
    cases h
    rw [if_neg hl]
    exact ⟨rfl, by simp⟩

theorem resumedCall_toGateway (s : RunStore) (c : ToolCall) :
    (resumedCall s c).toGateway = c.toGateway := by
  unfold resumedCall
  split <;> rfl

theorem loadPending_toGateway {pending : List DurablePendingToolCall}
    (h : loadPending codec s lease (selectCheckpoint s lease) = .ok pending) :
    pending.map DurablePendingToolCall.toGateway = s.resumedCalls lease := by
  rw [(loadPending_ok h).1, RunStore.resumedCalls]
  split
  · rw [map_map]
    exact map_congr_left fun c _ => resumedCall_toGateway s c
  · rfl

theorem DurableToolOutcome.validate_ok {o o' : DurableToolOutcome} (h : o.validate = .ok o') :
    o' = o ∧ o.invalidity = none := by
  unfold DurableToolOutcome.validate at h
  split at h
  · cases h
  next hval =>
    cases h
    exact ⟨rfl, hval⟩

theorem toolOutcomes_ok {since : Option Timestamp} {outcomes : List DurableToolOutcome}
    (h : toolOutcomes codec s lease since = .ok outcomes) :
    outcomes = ((terminalCalls s lease since).insertionSort (fun a b => a.outcomeLe b)).map
      ToolCall.toOutcome := by
  unfold toolOutcomes at h
  dsimp only at h
  split at h
  · simp [domainError] at h
  split at h
  · cases h
  rename_i outcomes' hall
  split at h
  · simp [domainError] at h
  rename_i hl
  cases h
  rw [take_of_length_le (not_lt.1 hl)] at hall
  have hmap := except_mapM_ok hall
  refine map_injective_iff.2 (fun _ _ => Except.ok.inj) (hmap.symm.trans ?_)
  rw [map_map]
  refine map_congr_left fun c hc => ?_
  obtain ⟨_, -, ho⟩ := mem_map.1 (hmap ▸ mem_map_of_mem hc)
  rw [comp_apply, ← ho, (DurableToolOutcome.validate_ok ho.symm).1]

end AgentPlatform
