/-
**Histories of the durable tables: every interleaving of the platform's transactions.**
-/

import AgentPlatform.Histories
import AgentPlatform.RunQueue

namespace AgentPlatform

open KeyedTable RunStore ToolCallStatus

inductive StoreOp where
  | claim (workerId : String) (token : Uuid) (occurredAt expiresAt : Timestamp)
  | start (lease : RunLease) (occurredAt : Timestamp)
  | heartbeat (lease : RunLease) (occurredAt expiresAt : Timestamp)
  | saveToolCall (lease : RunLease) (now : Timestamp) (call : ToolCall)
  | createApproval (lease : RunLease) (now : Timestamp) (approval : ApprovalRecord)
  | createCheckpoint (lease : RunLease) (now : Timestamp) (checkpoint : Checkpoint)
  | completeCheckpoint (lease : RunLease) (now : Timestamp) (id : Uuid)
      (snapshot : SnapshotReference) (revision : String)
  | appendTranscript (codec : StoreCodec) (lease : RunLease) (now : Timestamp) (startIndex : ℕ)
      (messages : List GatewayMessage) (occurredAt : Timestamp)
  | finish (lease : RunLease) (result : RunExecutionResult) (occurredAt : Timestamp)
  | recoverExpired (occurredAt : Timestamp)
  | requestCancel (occurredAt : Timestamp)
  | decide (approvalId : Uuid) (decision : ApprovalDecision)
  | rewind (checkpointId : Uuid) (now : Timestamp)

def RunStore.commit {α : Type} (s : RunStore) : Except Failure (α × RunStore) → RunStore
  | .ok (_, s') => s'
  | .error _ => s

def RunStore.apply (s : RunStore) : StoreOp → RunStore
  | .claim w t at' ex => s.commit (AgentPlatform.claim s w t at' ex)
  | .start l at' => s.commit (AgentPlatform.start s l at')
  | .heartbeat l at' ex => s.commit (AgentPlatform.heartbeat s l at' ex)
  | .saveToolCall l now c => s.commit (saveToolCallFenced s l now c)
  | .createApproval l now a => s.commit (createApprovalFenced s l now a)
  | .createCheckpoint l now c => s.commit (createCheckpointFenced s l now c)
  | .completeCheckpoint l now id sn rev => s.commit (completeCheckpointFenced s l now id sn rev)
  | .appendTranscript codec l now i ms at' =>
    s.commit (appendTranscriptFenced codec s l now i ms at')
  | .finish l r at' => s.commit (AgentPlatform.finish s l r at')
  | .recoverExpired at' => s.commit ((AgentPlatform.recoverExpired s at').map ((), ·))
  | .requestCancel at' => s.commit ((AgentPlatform.requestCancel s at').map ((), ·))
  | .decide id d => s.commit (decideApproval s id d)
  | .rewind id now => s.commit (AgentPlatform.rewind s id now)

theorem RunStore.commit_cases {α : Type} (s : RunStore) (x : Except Failure (α × RunStore)) :
    s.commit x = s ∨ ∃ a, x = .ok (a, s.commit x) := by
  cases x with
  | error => exact .inl rfl
  | ok p => exact .inr ⟨p.1, rfl⟩

theorem RunStore.commit_map_cases (s : RunStore) (x : Except Failure RunStore) :
    s.commit (x.map ((), ·)) = s ∨ x = .ok (s.commit (x.map ((), ·))) := by
  cases x with
  | error => exact .inl rfl
  | ok => exact .inr rfl

/-- **What an operation leaves**. -/
inductive RunStore.Outcome (s : RunStore) : StoreOp → RunStore → Prop
  | kept (op : StoreOp) : s.Outcome op s
  | claim {w t at' ex lease? s'} (h : AgentPlatform.claim s w t at' ex = .ok (lease?, s')) :
      s.Outcome (.claim w t at' ex) s'
  | start {l at' l' s'} (h : AgentPlatform.start s l at' = .ok (l', s')) :
      s.Outcome (.start l at') s'
  | heartbeat {l at' ex c s'} (h : AgentPlatform.heartbeat s l at' ex = .ok (c, s')) :
      s.Outcome (.heartbeat l at' ex) s'
  | saveToolCall {l now c r s'} (h : saveToolCallFenced s l now c = .ok (r, s')) :
      s.Outcome (.saveToolCall l now c) s'
  | createApproval {l now a r s'} (h : createApprovalFenced s l now a = .ok (r, s')) :
      s.Outcome (.createApproval l now a) s'
  | createCheckpoint {l now c r s'} (h : createCheckpointFenced s l now c = .ok (r, s')) :
      s.Outcome (.createCheckpoint l now c) s'
  | completeCheckpoint {l now id sn rev u s'}
      (h : completeCheckpointFenced s l now id sn rev = .ok (u, s')) :
      s.Outcome (.completeCheckpoint l now id sn rev) s'
  | appendTranscript {codec l now i ms at' u s'}
      (h : appendTranscriptFenced codec s l now i ms at' = .ok (u, s')) :
      s.Outcome (.appendTranscript codec l now i ms at') s'
  | finish {l r at' status s'} (h : AgentPlatform.finish s l r at' = .ok (status, s')) :
      s.Outcome (.finish l r at') s'
  | recoverExpired {at' s'} (h : AgentPlatform.recoverExpired s at' = .ok s') :
      s.Outcome (.recoverExpired at') s'
  | requestCancel {at' s'} (h : AgentPlatform.requestCancel s at' = .ok s') :
      s.Outcome (.requestCancel at') s'
  | decide {id d a? s'} (h : decideApproval s id d = .ok (a?, s')) : s.Outcome (.decide id d) s'
  | rewind {id now r? s'} (h : AgentPlatform.rewind s id now = .ok (r?, s')) :
      s.Outcome (.rewind id now) s'

theorem RunStore.outcome (s : RunStore) (op : StoreOp) : s.Outcome op (s.apply op) := by
  have commit : ∀ {α : Type} {x : Except Failure (α × RunStore)},
      (∀ a s', x = .ok (a, s') → s.Outcome op s') → s.Outcome op (s.commit x) := by
    intro α x hx
    obtain he | ⟨a, ho⟩ := s.commit_cases x
    · rw [he]
      exact .kept op
    · exact hx a _ ho
  have commitMap : ∀ {x : Except Failure RunStore},
      (∀ s', x = .ok s' → s.Outcome op s') → s.Outcome op (s.commit (x.map ((), ·))) := by
    intro x hx
    obtain he | ho := s.commit_map_cases x
    · rw [he]
      exact .kept op
    · exact hx _ ho
  cases op with
  | claim => exact commit fun _ _ => .claim
  | start => exact commit fun _ _ => .start
  | heartbeat => exact commit fun _ _ => .heartbeat
  | saveToolCall => exact commit fun _ _ => .saveToolCall
  | createApproval => exact commit fun _ _ => .createApproval
  | createCheckpoint => exact commit fun _ _ => .createCheckpoint
  | completeCheckpoint => exact commit fun _ _ => .completeCheckpoint
  | appendTranscript => exact commit fun _ _ => .appendTranscript
  | finish => exact commit fun _ _ => .finish
  | recoverExpired => exact commitMap fun _ => .recoverExpired
  | requestCancel => exact commitMap fun _ => .requestCancel
  | decide => exact commit fun _ _ => .decide
  | rewind => exact commit fun _ _ => .rewind

structure Submission where
  tenantId : Uuid
  runId : Uuid
  sessionId : Uuid
  workspaceId : Uuid
  routeName : String
  approvalMode : ApprovalMode
  messageId : Uuid
  task : String
  plan : JsonObject
  createdAt : Timestamp

/-- The plan `_insert_initial_state` writes for a submission without initial tasks. -/
def untaskedPlan : JsonObject := .ofList [("tasks", .arr .nil)]

/-- The tables `_insert_initial_state` leaves. -/
def submit (x : Submission) : RunStore :=
  { run :=
      { tenantId := x.tenantId, id := x.runId, sessionId := x.sessionId
        workspaceId := x.workspaceId, status := .queued, createdAt := x.createdAt }
    routeName := x.routeName
    approvalMode := x.approvalMode
    messages :=
      [{ id := .submission x.messageId, sequence := 1
         message := { role := .user, content := .text x.task }, createdAt := x.createdAt }]
    taskPlans := [{ version := 1, plan := x.plan }] }

structure RunStore.WellFormed (s : RunStore) : Prop where
  callKeys : KeyedTable.Unique ToolCall.key s.toolCalls
  checkpointKeys : KeyedTable.Unique CheckpointRecord.key s.checkpoints
  checkpointCalls : ∀ k ∈ s.checkpoints, ∀ k' ∈ s.checkpoints,
    k.checkpoint.executionEpoch = k'.checkpoint.executionEpoch →
    k.checkpoint.toolCallId = k'.checkpoint.toolCallId → k.checkpoint.id = k'.checkpoint.id
  approvalCalls : ∀ a ∈ s.approvals, ∃ c, s.toolCall? a.executionEpoch a.toolCallId = some c ∧
    c.status ≠ .received
  callEpochs : ∀ c ∈ s.toolCalls, c.executionEpoch ≤ s.run.executionEpoch
  messageEpochs : ∀ m ∈ s.messages, m.executionEpoch ≤ s.run.executionEpoch
  checkpointEpochs : ∀ k ∈ s.checkpoints, k.checkpoint.executionEpoch ≤ s.run.executionEpoch

theorem RunStore.WellFormed.submit (x : Submission) : (submit x).WellFormed where
  callKeys := unique_nil
  checkpointKeys := unique_nil
  checkpointCalls := by simp [AgentPlatform.submit]
  approvalCalls := by simp [AgentPlatform.submit]
  callEpochs := by simp [AgentPlatform.submit]
  messageEpochs := by simp [AgentPlatform.submit]
  checkpointEpochs := by simp [AgentPlatform.submit]

variable {s s' : RunStore} {l : RunLease} {now : Timestamp}

theorem RunStore.WellFormed.of_sameTables (h : s.WellFormed) (ht : s.SameTables s')
    (hep : s'.run.executionEpoch = s.run.executionEpoch) : s'.WellFormed where
  callKeys := by rw [ht.toolCalls]; exact h.callKeys
  checkpointKeys := by rw [ht.checkpoints]; exact h.checkpointKeys
  checkpointCalls := by rw [ht.checkpoints]; exact h.checkpointCalls
  approvalCalls := by
    simp only [ht.approvals, toolCall?, ht.toolCalls]
    exact h.approvalCalls
  callEpochs := by rw [ht.toolCalls, hep]; exact h.callEpochs
  messageEpochs := by rw [ht.messages, hep]; exact h.messageEpochs
  checkpointEpochs := by rw [ht.checkpoints, hep]; exact h.checkpointEpochs

theorem saveToolCallRow_not_received {row c returned row' : ToolCall}
    (h : saveToolCallRow (some row) c = .ok (returned, row')) (hrow : row.status ≠ .received) :
    row'.status ≠ .received := by
  obtain ⟨hn, -⟩ | ⟨_, hr, -, -, rfl, -⟩ | ⟨_, hr, -, -, rfl, ht⟩ := saveToolCallRow_cases h
  · cases hn
  · rwa [← Option.some.inj hr]
  · intro hrec
    have hlt := rank_lt_of_mem_transitions ht
    rw [ToolCall.overwrite_status] at hrec
    rw [hrec] at hlt
    exact absurd hlt (Nat.not_lt_zero _)

namespace RunStore.WellFormed

theorem saveToolCall {c r : ToolCall} (h : s.WellFormed)
    (ho : saveToolCallFenced s l now c = .ok (r, s')) : s'.WellFormed := by
  obtain ⟨hac, -⟩ := saveToolCallFenced_inv ho
  obtain ⟨row, hrow, hkey, hs', hse, hot⟩ := saveToolCallFenced_lookup ho
  subst hs'
  refine ⟨h.callKeys.upsert row, h.checkpointKeys, h.checkpointCalls, ?_, ?_, h.messageEpochs,
    h.checkpointEpochs⟩
  · intro a ha
    obtain ⟨call, hc, hst⟩ := h.approvalCalls a ha
    by_cases hk : (a.executionEpoch, a.toolCallId) = (l.executionEpoch, c.id)
    · obtain ⟨he, hid⟩ := Prod.mk.inj hk
      rw [he, hid] at hc ⊢
      rw [hc] at hrow
      exact ⟨row, hse, saveToolCallRow_not_received hrow hst⟩
    · rw [hot _ _ hk]
      exact ⟨call, hc, hst⟩
  · intro call hc
    rcases mem_of_mem_upsert hc with rfl | hc
    · have he : call.executionEpoch = l.executionEpoch := (Prod.mk.inj hkey).1
      exact (he.trans (leaseActive_epoch hac).symm).le
    · exact h.callEpochs call hc

theorem createApproval {a r : ApprovalRecord} (h : s.WellFormed)
    (ho : createApprovalFenced s l now a = .ok (r, s')) : s'.WellFormed := by
  obtain ⟨-, hep, ⟨row, hrow, hw⟩, ⟨-, rfl⟩ | ⟨-, -, rfl⟩⟩ := createApprovalFenced_inv ho
  · exact h
  refine ⟨h.callKeys, h.checkpointKeys, h.checkpointCalls, ?_, h.callEpochs, h.messageEpochs,
    h.checkpointEpochs⟩
  intro b hb
  rcases mem_append.1 hb with hb | hb
  · exact h.approvalCalls b hb
  · obtain rfl := mem_singleton.1 hb
    exact ⟨row, by rw [hep]; exact hrow, by rw [hw]; simp⟩

theorem createCheckpoint {c r : Checkpoint} (h : s.WellFormed)
    (ho : createCheckpointFenced s l now c = .ok (r, s')) : s'.WellFormed := by
  obtain ⟨ha, hep, ⟨-, rfl⟩ | ⟨hid, hc, rfl⟩⟩ := createCheckpointFenced_inv ho
  · exact h
  refine ⟨h.callKeys, h.checkpointKeys.append_single hid, ?_, h.approvalCalls, h.callEpochs,
    h.messageEpochs, ?_⟩
  · intro k hk k' hk' he ht
    rcases mem_append.1 hk with hk | hk <;> rcases mem_append.1 hk' with hk' | hk'
    · exact h.checkpointCalls k hk k' hk' he ht
    · obtain rfl := mem_singleton.1 hk'
      exact absurd ht (hc k hk he)
    · obtain rfl := mem_singleton.1 hk
      exact absurd ht.symm (hc k' hk' he.symm)
    · rw [mem_singleton.1 hk, mem_singleton.1 hk']
  · intro k hk
    rcases mem_append.1 hk with hk | hk
    · exact h.checkpointEpochs k hk
    · obtain rfl := mem_singleton.1 hk
      exact (hep.trans (leaseActive_epoch ha).symm).le

theorem completeCheckpoint {id : Uuid} {sn : SnapshotReference} {rev : String}
    {u : Unit} (h : s.WellFormed) (ho : completeCheckpointFenced s l now id sn rev = .ok (u, s'))
    : s'.WellFormed := by
  obtain ⟨-, row, hrow, -, rfl⟩ := completeCheckpointFenced_inv ho
  have hs : ∀ k ∈ upsert CheckpointRecord.key
      { row with completed := some (sn, rev) } s.checkpoints,
      ∃ k₀ ∈ s.checkpoints, k.checkpoint = k₀.checkpoint := by
    intro k hk
    rcases mem_of_mem_upsert hk with rfl | hk
    · exact ⟨row, (lookup_some hrow).1, rfl⟩
    · exact ⟨k, hk, rfl⟩
  refine ⟨h.callKeys, h.checkpointKeys.upsert _, ?_, h.approvalCalls, h.callEpochs,
    h.messageEpochs, ?_⟩
  · intro k hk k' hk'
    obtain ⟨k₀, hk₀, heq⟩ := hs k hk
    obtain ⟨k₀', hk₀', heq'⟩ := hs k' hk'
    rw [heq, heq']
    exact h.checkpointCalls k₀ hk₀ k₀' hk₀'
  · intro k hk
    obtain ⟨k₀, hk₀, heq⟩ := hs k hk
    rw [heq]
    exact h.checkpointEpochs k₀ hk₀

theorem appendTranscript {codec : StoreCodec} {i : ℕ} {ms : List GatewayMessage}
    {at' : Timestamp} {u : Unit} (h : s.WellFormed)
    (ho : appendTranscriptFenced codec s l now i ms at' = .ok (u, s')) : s'.WellFormed := by
  obtain ⟨ha, _, rfl, hnew, -⟩ := appendTranscriptFenced_inv ho
  refine ⟨h.callKeys, h.checkpointKeys, h.checkpointCalls, h.approvalCalls, h.callEpochs, ?_,
    h.checkpointEpochs⟩
  intro m hm
  rcases mem_append.1 hm with hm | hm
  · exact h.messageEpochs m hm
  · exact ((hnew m hm).1.trans (leaseActive_epoch ha).symm).le

theorem decide {id : Uuid} {d : ApprovalDecision} {a? : Option ApprovalRecord}
    (h : s.WellFormed) (ho : decideApproval s id d = .ok (a?, s')) : s'.WellFormed := by
  obtain rfl | ⟨row, hrow, -, -, ha, -, hm, ht, hc, hid, -⟩ := decideApproval_inv ho
  · exact h
  refine ⟨ht ▸ h.callKeys, hc ▸ h.checkpointKeys, hc ▸ h.checkpointCalls, ?_, ?_, ?_, ?_⟩
  · intro a hmem
    rw [ha] at hmem
    simp only [toolCall?, ht]
    rcases mem_of_mem_upsert hmem with rfl | hmem
    · exact h.approvalCalls row (lookup_some hrow).1
    · exact h.approvalCalls a hmem
  · rw [ht, hid.executionEpoch]; exact h.callEpochs
  · rw [hm, hid.executionEpoch]; exact h.messageEpochs
  · rw [hc, hid.executionEpoch]; exact h.checkpointEpochs

theorem rewind {id : Uuid} {r? : Option Run} (h : s.WellFormed)
    (ho : rewind s id now = .ok (r?, s')) : s'.WellFormed := by
  obtain rfl | ⟨_, -, -, -, hep, -, -, ht, ha, hc, -, -, _, hm, hco⟩ := rewind_inv ho
  · exact h
  refine ⟨ht ▸ h.callKeys, hc ▸ h.checkpointKeys, hc ▸ h.checkpointCalls, ?_, ?_, ?_, ?_⟩
  · simp only [ha, toolCall?, ht]
    exact h.approvalCalls
  · rw [ht, hep]; exact fun c hc => (h.callEpochs c hc).trans (Nat.le_succ _)
  · intro m hmem
    rw [hm] at hmem
    rw [hep]
    rcases mem_append.1 hmem with hmem | hmem
    · exact (h.messageEpochs m hmem).trans (Nat.le_succ _)
    · exact (hco m hmem).1.le
  · rw [hc, hep]; exact fun k hk => (h.checkpointEpochs k hk).trans (Nat.le_succ _)

theorem apply (h : s.WellFormed) (op : StoreOp) : (s.apply op).WellFormed := by
  have hou := s.outcome op
  generalize s.apply op = s' at hou ⊢
  cases hou with
  | kept => exact h
  | claim ho =>
    obtain ⟨-, rfl⟩ | ⟨_, -, -, -, ht, hep, -⟩ := claim_inv ho
    · exact h
    · exact h.of_sameTables ht hep
  | start ho =>
    obtain ⟨-, ht, hid, -⟩ := start_inv ho
    exact h.of_sameTables ht hid.executionEpoch
  | heartbeat ho =>
    obtain ⟨-, ht, hid⟩ := heartbeat_inv ho
    exact h.of_sameTables ht hid.executionEpoch
  | saveToolCall ho => exact h.saveToolCall ho
  | createApproval ho => exact h.createApproval ho
  | createCheckpoint ho => exact h.createCheckpoint ho
  | completeCheckpoint ho => exact h.completeCheckpoint ho
  | appendTranscript ho => exact h.appendTranscript ho
  | finish ho =>
    obtain ⟨-, -, -, ht, hep, -⟩ := finish_inv ho
    exact h.of_sameTables ht hep
  | recoverExpired ho =>
    obtain ⟨ht, hid, -⟩ := recoverExpired_inv ho
    exact h.of_sameTables ht hid.executionEpoch
  | requestCancel ho =>
    obtain ⟨ht, hid, -⟩ := requestCancel_inv ho
    exact h.of_sameTables ht hid.executionEpoch
  | decide ho => exact h.decide ho
  | rewind ho => exact h.rewind ho

theorem foldl (h : s.WellFormed) (ops : List StoreOp) :
    (ops.foldl RunStore.apply s).WellFormed := by
  induction ops generalizing s with
  | nil => exact h
  | cons op _ ih => exact ih (h.apply op)

end RunStore.WellFormed

theorem wellFormed_history (x : Submission) (ops : List StoreOp) :
    (ops.foldl RunStore.apply (submit x)).WellFormed :=
  (RunStore.WellFormed.submit x).foldl ops

/-- A save keeps the identity of every row. -/
theorem RunStore.toolCall?_saved {c returned row' row : ToolCall} {epoch : ℕ} {id : String}
    (h : saveToolCallRow (s.toolCall? c.executionEpoch c.id) c = .ok (returned, row'))
    (hrow : s.toolCall? epoch id = some row) :
    ∃ row₁, { s with toolCalls := upsert ToolCall.key row' s.toolCalls }.toolCall? epoch id =
      some row₁ ∧ row₁.identity = row.identity := by
  have hkey := saveToolCallRow_key h
  by_cases hk : (epoch, id) = c.key
  · obtain ⟨rfl, rfl⟩ := Prod.mk.inj hk
    have hself := @KeyedTable.lookup_upsert_self _ _ _ ToolCall.key row' s.toolCalls
    rw [hrow] at h
    exact ⟨row', by rw [hkey] at hself; exact hself, saveToolCallRow_identity h⟩
  · refine ⟨row, ?_, rfl⟩
    rw [toolCall?, lookup_upsert_of_ne fun heq => hk (heq.symm.trans hkey)]
    exact hrow

end AgentPlatform
