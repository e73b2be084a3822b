/-
**The durable tables of one run, and the writes a worker makes under its lease.**
-/

import AgentPlatform.KeyedTable
import AgentPlatform.RunLifecycle
import AgentPlatform.ToolCallState

namespace AgentPlatform

open KeyedTable Run ToolCall

abbrev Workspace := List String

structure SnapshotReference where
  uri : String
  workspace : Workspace
  deriving DecidableEq

structure Checkpoint where
  id : Uuid
  runId : Uuid
  sessionId : Uuid
  executionEpoch : ℕ := 1
  toolCallId : String
  messageSequence : ℕ
  messages : List GatewayMessage
  workspaceSnapshot : SnapshotReference
  workspaceRevision : String
  taskPlan : JsonObject := .nil
  contextSummary : Option String := none
  createdAt : Timestamp
  deriving DecidableEq

structure CheckpointRecord where
  checkpoint : Checkpoint
  completed : Option (SnapshotReference × String) := none
  deriving DecidableEq

/-- The identity of a message row: a fresh UUID, or `uuid5` of its epoch and position or source row.
-/
inductive MessageId where
  | submission (id : Uuid)
  | transcript (executionEpoch position : ℕ)
  | rewound (executionEpoch : ℕ) (source : MessageId)
  deriving DecidableEq

/-- A conversation message row. -/
structure MessageRecord where
  id : MessageId
  executionEpoch : ℕ := 1
  sequence : ℕ
  message : GatewayMessage
  transcriptIndex : Option ℕ := none
  createdAt : Timestamp
  deriving DecidableEq

structure ApprovalRecord where
  id : Uuid
  executionEpoch : ℕ := 1
  toolCallId : String
  status : ApprovalStatus
  reason : String
  arguments : JsonObject
  decidedBy : Option String := none
  requestedAt : Timestamp
  decidedAt : Option Timestamp := none
  response : Option String := none
  deriving DecidableEq

structure TaskPlanRecord where
  executionEpoch : ℕ := 1
  version : ℕ
  plan : JsonObject
  deriving DecidableEq

structure RunLeaseRecord where
  tenantId : Uuid
  runId : Uuid
  workerId : String
  leaseToken : Uuid
  generation : ℕ
  acquiredAt : Timestamp
  lastHeartbeatAt : Timestamp
  expiresAt : Timestamp
  deriving DecidableEq

structure RunLease where
  tenantId : Uuid
  runId : Uuid
  sessionId : Uuid
  workspaceId : Uuid
  workerId : String
  routeName : String
  leaseToken : Uuid
  generation : ℕ
  attempt : ℕ
  executionEpoch : ℕ
  acquiredAt : Timestamp
  expiresAt : Timestamp
  checkpointId : Option Uuid
  cancellationRequested : Bool
  deriving DecidableEq

structure RunStore where
  run : Run
  routeName : String
  approvalMode : ApprovalMode
  lease : Option RunLeaseRecord := none
  messages : List MessageRecord := []
  toolCalls : List ToolCall := []
  approvals : List ApprovalRecord := []
  checkpoints : List CheckpointRecord := []
  taskPlans : List TaskPlanRecord := []
  deriving DecidableEq

def ToolCall.key (c : ToolCall) : ℕ × String := (c.executionEpoch, c.id)

def CheckpointRecord.key (c : CheckpointRecord) : Uuid := c.checkpoint.id

def ApprovalRecord.key (a : ApprovalRecord) : Uuid := a.id

def RunStore.toolCall? (s : RunStore) (epoch : ℕ) (id : String) : Option ToolCall :=
  KeyedTable.lookup ToolCall.key (epoch, id) s.toolCalls

def RunStore.checkpoint? (s : RunStore) (id : Uuid) : Option CheckpointRecord :=
  KeyedTable.lookup CheckpointRecord.key id s.checkpoints

def RunStore.epochMessages (s : RunStore) (epoch : ℕ) : List MessageRecord :=
  s.messages.filter (·.executionEpoch = epoch)

def Run.ownedBy (r : Run) (lease : RunLease) (now : Timestamp) : Bool :=
  r.tenantId = lease.tenantId && r.id = lease.runId && r.sessionId = lease.sessionId &&
    r.workspaceId = lease.workspaceId && r.executionEpoch = lease.executionEpoch &&
    r.assignedWorkerId = some lease.workerId && r.leaseGeneration = lease.generation &&
    r.leaseExpiresAt.any (now < ·) && (r.status = .leased || r.status = .running)

def RunLeaseRecord.matches (row : RunLeaseRecord) (lease : RunLease) : Bool :=
  row.tenantId = lease.tenantId && row.runId = lease.runId && row.workerId = lease.workerId &&
    row.leaseToken = lease.leaseToken && row.generation = lease.generation

def RunStore.leaseActive (s : RunStore) (lease : RunLease) (now : Timestamp) : Bool :=
  s.lease.any (fun row => row.matches lease && now < row.expiresAt) && s.run.ownedBy lease now

def leaseLost (lease : RunLease) : Failure :=
  .domain
    { code := "run_lease_lost"
      message := "the run lease is no longer active for this worker"
      retryable := true
      details := .ofList [("run_id", .str (uuidText lease.runId))] }

def assertActiveRunLease (s : RunStore) (lease : RunLease) (now : Timestamp) :
    Except Failure Unit :=
  if s.leaseActive lease now then .ok () else .error (leaseLost lease)

variable {s s' : RunStore} {lease : RunLease} {now : Timestamp}

theorem RunStore.leaseActive_epoch (h : s.leaseActive lease now)
    : s.run.executionEpoch = lease.executionEpoch := by
  simp only [leaseActive, ownedBy, and_eq_true, decide_eq_true_eq] at h
  exact h.2.1.1.1.1.2

theorem RunStore.leaseActive_generation (h : s.leaseActive lease now)
    : s.run.leaseGeneration = lease.generation := by
  simp only [leaseActive, ownedBy, and_eq_true, decide_eq_true_eq] at h
  exact h.2.1.1.2

theorem RunStore.leaseActive_status (h : s.leaseActive lease now)
    : s.run.status = .leased ∨ s.run.status = .running := by
  simp only [leaseActive, ownedBy, and_eq_true, or_eq_true, decide_eq_true_eq] at h
  exact h.2.2

def saveToolCallFenced (s : RunStore) (lease : RunLease) (now : Timestamp) (c : ToolCall) :
    Except Failure (ToolCall × RunStore) :=
  if c.runId ≠ lease.runId ∨ c.executionEpoch ≠ lease.executionEpoch then
    domainError "tool_call_run_mismatch" "the tool call does not belong to the fenced run" false
      (.ofList [("run_id", .str (uuidText lease.runId)), ("tool_call_id", .str c.id)])
  else
    match assertActiveRunLease s lease now with
    | .error f => .error f
    | .ok () =>
      match saveToolCallRow (s.toolCall? c.executionEpoch c.id) c with
      | .error f => .error f
      | .ok (returned, row) =>
        .ok (returned, { s with toolCalls := KeyedTable.upsert ToolCall.key row s.toolCalls })

theorem saveToolCallFenced_inv {c returned : ToolCall}
    (h : saveToolCallFenced s lease now c = .ok (returned, s')) :
    s.leaseActive lease now ∧ c.executionEpoch = lease.executionEpoch ∧
      ∃ row, saveToolCallRow (s.toolCall? lease.executionEpoch c.id) c = .ok (returned, row) ∧
        s' = { s with toolCalls := upsert key row s.toolCalls } := by
  unfold saveToolCallFenced assertActiveRunLease at h
  split at h
  · simp [domainError] at h
  rename_i hid
  have hep : c.executionEpoch = lease.executionEpoch := by
    by_contra hne
    exact hid (.inr hne)
  by_cases ha : s.leaseActive lease now
  · simp only [ha, if_true] at h
    cases hr : saveToolCallRow (s.toolCall? c.executionEpoch c.id) c with
    | error => rw [hr] at h; cases h
    | ok p =>
      rw [hr] at h
      cases h
      exact ⟨ha, hep, p.2, by rw [← hep, hr], rfl⟩
  · simp only [ha] at h
    cases h

theorem saveToolCallRow_key {c returned row : ToolCall}
    (h : saveToolCallRow (s.toolCall? c.executionEpoch c.id) c = .ok (returned, row)) :
    row.key = c.key := by
  obtain ⟨-, -, rfl⟩ | ⟨row', hrow, -, -, rfl, -⟩ | ⟨row', hrow, -, -, rfl, -⟩ :=
    saveToolCallRow_cases h
  · rfl
  all_goals exact (lookup_some hrow).2

theorem saveToolCallFenced_lookup {c returned : ToolCall}
    (h : saveToolCallFenced s lease now c = .ok (returned, s')) :
    ∃ row, saveToolCallRow (s.toolCall? lease.executionEpoch c.id) c = .ok (returned, row) ∧
      row.key = (lease.executionEpoch, c.id) ∧
      s' = { s with toolCalls := upsert key row s.toolCalls } ∧
      s'.toolCall? lease.executionEpoch c.id = some row ∧
      ∀ e id, (e, id) ≠ (lease.executionEpoch, c.id) → s'.toolCall? e id = s.toolCall? e id := by
  obtain ⟨-, hep, row, hrow, rfl⟩ := saveToolCallFenced_inv h
  have hkey : row.key = (lease.executionEpoch, c.id) := by
    rw [← hep]
    exact saveToolCallRow_key (s := s) (by rw [hep]; exact hrow)
  refine ⟨row, hrow, hkey, rfl, ?_, ?_⟩
  · unfold RunStore.toolCall?
    rw [← hkey, lookup_upsert_self]
  · intro e id hne
    exact lookup_upsert_of_ne (fun heq => hne (heq.symm.trans hkey)) _

def ApprovalRecord.constraintViolation (a : ApprovalRecord) : Option String :=
  if a.status = .pending ∧ (a.decidedBy ≠ none ∨ a.decidedAt ≠ none) ∨
      a.status ≠ .pending ∧ (a.decidedBy = none ∨ a.decidedAt.all (· < a.requestedAt)) then
    some "decision_state"
  else if a.response.any (fun r => r.utf8ByteSize = 0 || 65536 < r.utf8ByteSize) then
    some "response_bytes"
  else none

def createApprovalFenced (s : RunStore) (lease : RunLease) (now : Timestamp) (a : ApprovalRecord) :
    Except Failure (ApprovalRecord × RunStore) :=
  if a.executionEpoch ≠ lease.executionEpoch then
    domainError "approval_run_mismatch" "the approval does not belong to the leased run"
  else
    match assertActiveRunLease s lease now with
    | .error f => .error f
    | .ok () =>
      if (s.toolCall? lease.executionEpoch a.toolCallId).all (·.status ≠ .waitingApproval) then
        domainError "approval_tool_state_conflict"
          "approval requires a matching waiting tool call"
      else
        match s.approvals.find? (fun row =>
            row.executionEpoch = lease.executionEpoch && row.id = a.id) with
        | none =>
          if s.approvals.any (fun row => row.id = a.id) then
            .error (.integrity "pk_approvals")
          else if s.approvals.any (fun row =>
              row.executionEpoch = a.executionEpoch && row.toolCallId = a.toolCallId) then
            .error (.integrity "uq_approvals_tool_call")
          else .ok (a, { s with approvals := s.approvals ++ [a] })
        | some row =>
          if row ≠ a then
            domainError "approval_id_conflict" "the approval ID belongs to another logical request"
              false (.ofList [("approval_id", .str (uuidText a.id))])
          else .ok (row, s)

theorem createApprovalFenced_inv {a returned : ApprovalRecord}
    (h : createApprovalFenced s lease now a = .ok (returned, s')) :
    s.leaseActive lease now ∧ a.executionEpoch = lease.executionEpoch ∧
      (∃ row, s.toolCall? lease.executionEpoch a.toolCallId = some row ∧
        row.status = .waitingApproval) ∧ (a ∈ s.approvals ∧ s' = s ∨
        (∀ row ∈ s.approvals, row.id ≠ a.id) ∧
          (∀ row ∈ s.approvals, row.executionEpoch = a.executionEpoch →
            row.toolCallId ≠ a.toolCallId) ∧ s' = { s with approvals := s.approvals ++ [a] }) := by
  unfold createApprovalFenced assertActiveRunLease at h
  split at h
  · simp [domainError] at h
  rename_i hep
  by_cases ha : s.leaseActive lease now
  swap
  · simp only [ha] at h
    cases h
  simp only [ha, if_true] at h
  split at h
  · simp [domainError] at h
  rename_i hw
  have hwa : ∃ row, s.toolCall? lease.executionEpoch a.toolCallId = some row ∧
      row.status = .waitingApproval := by
    cases hr : s.toolCall? lease.executionEpoch a.toolCallId with
    | none => rw [hr] at hw; simp at hw
    | some row => rw [hr] at hw; exact ⟨row, rfl, by simpa using hw⟩
  refine ⟨ha, not_not.1 hep, hwa, ?_⟩
  split at h
  · split at h
    · cases h
    rename_i hid
    split at h
    · cases h
    rename_i hc
    cases h
    refine .inr ⟨?_, ?_, rfl⟩
    · intro row hrow heq
      exact hid (any_eq_true.2 ⟨row, hrow, by simpa using heq⟩)
    · intro row hrow hre heq
      exact hc (any_eq_true.2 ⟨row, hrow, by simp [hre, heq]⟩)
  next row hf =>
    split at h
    · simp [domainError] at h
    next heq =>
      cases h
      exact .inl ⟨not_not.1 heq ▸ mem_of_find?_eq_some hf, rfl⟩

def createCheckpointFenced (s : RunStore) (lease : RunLease) (now : Timestamp) (c : Checkpoint) :
    Except Failure (Checkpoint × RunStore) :=
  if c.runId ≠ lease.runId ∨ c.sessionId ≠ lease.sessionId ∨
      c.executionEpoch ≠ lease.executionEpoch then
    domainError "checkpoint_run_mismatch" "the checkpoint does not belong to the leased run"
  else
    match assertActiveRunLease s lease now with
    | .error f => .error f
    | .ok () =>
      match s.checkpoints.find? (fun row =>
          row.checkpoint.executionEpoch = lease.executionEpoch && row.checkpoint.id = c.id) with
      | none =>
        if s.checkpoints.any (fun row => row.checkpoint.id = c.id) then
          .error (.integrity "pk_checkpoints")
        else if s.checkpoints.any (fun row =>
            row.checkpoint.executionEpoch = c.executionEpoch &&
              row.checkpoint.toolCallId = c.toolCallId) then
          .error (.integrity "uq_checkpoints_tool_call")
        else .ok (c, { s with checkpoints := s.checkpoints ++ [{ checkpoint := c }] })
      | some row =>
        if row.checkpoint ≠ c then
          domainError "checkpoint_id_conflict" "the checkpoint ID belongs to different state"
            false (.ofList [("checkpoint_id", .str (uuidText c.id))])
        else .ok (row.checkpoint, s)

theorem createCheckpointFenced_inv {c returned : Checkpoint}
    (h : createCheckpointFenced s lease now c = .ok (returned, s')) :
    s.leaseActive lease now ∧ c.executionEpoch = lease.executionEpoch ∧
      ((∃ row ∈ s.checkpoints, row.checkpoint = c) ∧ s' = s ∨
        (∀ row ∈ s.checkpoints, row.checkpoint.id ≠ c.id) ∧
          (∀ row ∈ s.checkpoints, row.checkpoint.executionEpoch = c.executionEpoch →
            row.checkpoint.toolCallId ≠ c.toolCallId) ∧
          s' = { s with checkpoints := s.checkpoints ++ [{ checkpoint := c }] }) := by
  unfold createCheckpointFenced assertActiveRunLease at h
  split at h
  · simp [domainError] at h
  rename_i hid
  by_cases ha : s.leaseActive lease now
  swap
  · simp only [ha] at h
    cases h
  simp only [ha, if_true] at h
  refine ⟨ha, by_contra fun hne => hid (.inr (.inr hne)), ?_⟩
  split at h
  · split at h
    · cases h
    rename_i hpk
    split at h
    · cases h
    rename_i huq
    cases h
    refine .inr ⟨?_, ?_, rfl⟩
    · intro row hrow heq
      exact hpk (any_eq_true.2 ⟨row, hrow, by simpa using heq⟩)
    · intro row hrow hre heq
      exact huq (any_eq_true.2 ⟨row, hrow, by simp [hre, heq]⟩)
  next row hf =>
    split at h
    · simp [domainError] at h
    next heq =>
      cases h
      exact .inl ⟨⟨row, mem_of_find?_eq_some hf, not_not.1 heq⟩, rfl⟩

def completeCheckpointFenced (s : RunStore) (lease : RunLease) (now : Timestamp) (id : Uuid)
    (snapshot : SnapshotReference) (revision : String) : Except Failure (Unit × RunStore) :=
  match assertActiveRunLease s lease now with
  | .error f => .error f
  | .ok () =>
    match s.checkpoint? id with
    | none => domainError "checkpoint_not_found" "the checkpoint does not exist"
    | some row =>
      if row.checkpoint.executionEpoch ≠ lease.executionEpoch then
        domainError "checkpoint_not_found" "the checkpoint does not exist"
      else if row.completed ≠ none ∧ row.completed ≠ some (snapshot, revision) then
        domainError "checkpoint_state_conflict"
          "the checkpoint already has different completed state"
      else
        .ok ((), { s with
          checkpoints := KeyedTable.upsert CheckpointRecord.key
            { row with completed := some (snapshot, revision) } s.checkpoints })

theorem completeCheckpointFenced_inv {id : Uuid} {snapshot : SnapshotReference} {revision : String}
    {u : Unit} (h : completeCheckpointFenced s lease now id snapshot revision = .ok (u, s')) :
    s.leaseActive lease now ∧ ∃ row, s.checkpoint? id = some row ∧
        row.checkpoint.executionEpoch = lease.executionEpoch ∧
        s' = { s with
          checkpoints := upsert CheckpointRecord.key
            { row with completed := some (snapshot, revision) } s.checkpoints } := by
  unfold completeCheckpointFenced assertActiveRunLease at h
  by_cases ha : s.leaseActive lease now
  swap
  · simp only [ha] at h
    cases h
  simp only [ha, if_true] at h
  refine ⟨ha, ?_⟩
  split at h
  · simp [domainError] at h
  rename_i row hrow
  split at h
  · simp [domainError] at h
  next hep =>
    split at h
    · simp [domainError] at h
    · cases h
      exact ⟨row, hrow, not_not.1 hep, rfl⟩

structure StoreCodec where
  messageBytes : GatewayMessage → ℕ

/-- `coalesce(max(sequence), 0) + 1` over the session's messages. -/
def RunStore.nextSequence (s : RunStore) : ℕ := (s.messages.map (·.sequence)).foldl max 0 + 1

def journalRow (lease : RunLease) (occurredAt : Timestamp) (position sequence : ℕ)
    (m : GatewayMessage) : MessageRecord :=
  { id := .transcript lease.executionEpoch position
    executionEpoch := lease.executionEpoch
    sequence := sequence
    message := m
    transcriptIndex := some position
    createdAt := occurredAt }

/-- The insertion loop of `append_transcript_fenced`. -/
def appendTranscriptRows (lease : RunLease) (occurredAt : Timestamp) :
    ℕ → List GatewayMessage → ℕ → List MessageRecord → Except Failure (List MessageRecord)
  | _, [], _, rows => .ok rows
  | index, m :: ms, sequence, rows =>
    match rows.find? (·.id = .transcript lease.executionEpoch (index + 1)) with
    | some row =>
      if row.executionEpoch ≠ lease.executionEpoch ∨ row.message ≠ m ∨
          row.transcriptIndex ≠ some (index + 1) then
        domainError "transcript_message_conflict"
          "the transcript position contains different durable content"
      else appendTranscriptRows lease occurredAt (index + 1) ms sequence rows
    | none =>
      appendTranscriptRows lease occurredAt (index + 1) ms (sequence + 1)
        (rows ++ [journalRow lease occurredAt (index + 1) sequence m])

def appendTranscriptFenced (codec : StoreCodec) (s : RunStore) (lease : RunLease) (now : Timestamp)
    (startIndex : ℕ) (messages : List GatewayMessage) (occurredAt : Timestamp) :
    Except Failure (Unit × RunStore) :=
  if messages = [] ∨ 4096 < messages.length then
    .error (.validation "transcript suffix must contain between 1 and 4096 messages")
  else if 8 * 1024 * 1024 < (messages.map codec.messageBytes).sum then
    domainError "transcript_limit" "the durable transcript suffix exceeds its byte limit"
  else
    match assertActiveRunLease s lease now with
    | .error f => .error f
    | .ok () =>
      match appendTranscriptRows lease occurredAt startIndex messages s.nextSequence s.messages with
      | .error f => .error f
      | .ok rows => .ok ((), { s with messages := rows })

theorem appendTranscriptRows_inv {occurredAt : Timestamp} :
    ∀ {ms : List GatewayMessage} {index sequence : ℕ} {rows rows' : List MessageRecord},
      appendTranscriptRows lease occurredAt index ms sequence rows = .ok rows' →
      ∃ new, rows' = rows ++ new ∧
        (∀ r ∈ new, r.executionEpoch = lease.executionEpoch ∧ r.message ∈ ms ∧
          r.createdAt = occurredAt) ∧
        ∀ m ∈ ms, ∃ r ∈ rows', r.executionEpoch = lease.executionEpoch ∧ r.message = m := by
  intro ms
  induction ms with
  | nil =>
    intro index sequence rows rows' h
    cases h
    exact ⟨[], by simp, by simp, by simp⟩
  | cons m _ ih =>
    intro index sequence rows rows' h
    simp only [appendTranscriptRows] at h
    split at h
    next row hf =>
      split at h
      · simp [domainError] at h
      rename_i hs
      have hep : row.executionEpoch = lease.executionEpoch :=
        by_contra fun hne => hs (.inl hne)
      have hms : row.message = m := by_contra fun hne => hs (.inr (.inl hne))
      obtain ⟨new, rfl, hnew, hall⟩ := ih h
      refine ⟨new, rfl, ?_, ?_⟩
      · intro r hr
        obtain ⟨h1, h2, h3⟩ := hnew r hr
        exact ⟨h1, mem_cons_of_mem _ h2, h3⟩
      · intro m' hm'
        rcases mem_cons.1 hm' with rfl | hm'
        · exact ⟨row, mem_append_left _ (mem_of_find?_eq_some hf), hep, hms⟩
        · exact hall m' hm'
    · obtain ⟨new, rfl, hnew, hall⟩ := ih h
      refine ⟨journalRow lease occurredAt (index + 1) sequence m :: new, by simp, ?_, ?_⟩
      · intro r hr
        rcases mem_cons.1 hr with rfl | hr
        · exact ⟨rfl, mem_cons_self .., rfl⟩
        · obtain ⟨h1, h2, h3⟩ := hnew r hr
          exact ⟨h1, mem_cons_of_mem _ h2, h3⟩
      · intro m' hm'
        rcases mem_cons.1 hm' with rfl | hm'
        · exact ⟨journalRow lease occurredAt (index + 1) sequence m', by simp, rfl, rfl⟩
        · exact hall m' hm'

theorem appendTranscriptFenced_inv {codec : StoreCodec} {startIndex : ℕ}
    {messages : List GatewayMessage} {occurredAt : Timestamp} {u : Unit}
    (h : appendTranscriptFenced codec s lease now startIndex messages occurredAt = .ok (u, s')) :
    s.leaseActive lease now ∧ ∃ new, s' = { s with messages := s.messages ++ new } ∧
      (∀ r ∈ new, r.executionEpoch = lease.executionEpoch ∧ r.message ∈ messages ∧
        r.createdAt = occurredAt) ∧ ∀ m ∈ messages, ∃ r ∈ s'.messages,
        r.executionEpoch = lease.executionEpoch ∧ r.message = m := by
  unfold appendTranscriptFenced assertActiveRunLease at h
  split at h
  · cases h
  split at h
  · simp [domainError] at h
  by_cases ha : s.leaseActive lease now
  swap
  · simp only [ha] at h
    cases h
  simp only [ha, if_true] at h
  refine ⟨ha, ?_⟩
  cases hr : appendTranscriptRows lease occurredAt startIndex messages s.nextSequence s.messages with
  | error => rw [hr] at h; cases h
  | ok =>
    rw [hr] at h
    cases h
    obtain ⟨new, rfl, hnew, hall⟩ := appendTranscriptRows_inv hr
    exact ⟨new, rfl, hnew, hall⟩

end AgentPlatform
