/-
**The durable state machine of one logical tool call.**
-/

import AgentPlatform.DomainValues

namespace AgentPlatform

structure ToolCall where
  id : String
  runId : Uuid
  executionEpoch : ℕ := 1
  turnNumber : ℕ
  toolName : String
  arguments : JsonObject
  argumentHash : String
  status : ToolCallStatus
  workspaceVersion : Option String := none
  result : Option JsonObject := none
  error : Option ErrorDetail := none
  startedAt : Option Timestamp := none
  completedAt : Option Timestamp := none
  deriving DecidableEq

def ToolCall.completedBeforeStart (c : ToolCall) : Bool :=
  match c.completedAt, c.startedAt with
  | some completed, some started => completed < started
  | _, _ => false

/-- `ToolCall.validate_execution`: the first check that fails. -/
def ToolCall.invalidity (hash : JsonObject → String) (c : ToolCall) : Option String :=
  if c.argumentHash ≠ hash c.arguments then
    some "argument_hash does not match canonical arguments"
  else if c.completedBeforeStart then
    some "completed_at may not precede started_at"
  else if (c.status = .running ∨ c.status = .completed) ∧ c.startedAt = none then
    some (c.status.value ++ " tool call must have started_at")
  else if c.status.terminal ∧ c.completedAt = none then
    some (c.status.value ++ " tool call must have completed_at")
  else if ¬ c.status.terminal ∧ c.completedAt ≠ none then
    some "non-terminal tool call may not have completed_at"
  else if c.status = .completed ∧ (c.result = none ∨ c.error ≠ none) then
    some "completed tool call requires only a result"
  else if (c.status = .failed ∨ c.status = .cancelled) ∧ (c.error = none ∨ c.result ≠ none) then
    some "failed or cancelled tool call requires only an error"
  else if ¬ c.status.terminal ∧ (c.result ≠ none ∨ c.error ≠ none) then
    some "non-terminal tool call may not have a result or error"
  else none

/-- `workspace_version: IdentifierString | None`. -/
def normalizedVersion : Option String → Except Failure (Option String)
  | none => .ok none
  | some version =>
    match identifierString? version with
    | some stripped => .ok (some stripped)
    | none => .error (.validation "workspace_version must contain 1 to 255 characters")

def ToolCall.validate (hash : JsonObject → String) (c : ToolCall) : Except Failure ToolCall :=
  if c.turnNumber < 1 then
    .error (.validation "turn_number must be greater than or equal to 1")
  else
    match normalizedVersion c.workspaceVersion with
    | .error f => .error f
    | .ok version =>
      let normalized := { c with workspaceVersion := version }
      match normalized.invalidity hash with
      | some message => .error (.validation message)
      | none => .ok normalized

def ToolCall.identity (c : ToolCall) : String × String × ℕ × JsonObject :=
  (c.argumentHash, c.toolName, c.turnNumber, c.arguments)

theorem ToolCall.validate_eq_ok {hash : JsonObject → String} {c c' : ToolCall}
    (h : c.validate hash = .ok c') : ∃ version, normalizedVersion c.workspaceVersion = .ok version ∧
      c' = { c with workspaceVersion := version } ∧ c'.invalidity hash = none := by
  unfold ToolCall.validate at h
  split at h
  · cases h
  cases hv : normalizedVersion c.workspaceVersion with
  | error => rw [hv] at h; cases h
  | ok version =>
    rw [hv] at h
    dsimp only at h
    split at h
    · cases h
    next hi =>
      cases h
      exact ⟨version, rfl, rfl, hi⟩

def ToolCallStatus.transitions : ToolCallStatus → List ToolCallStatus
  | .received => [.waitingApproval, .running, .failed, .cancelled]
  | .waitingApproval => [.running, .failed, .cancelled]
  | .running => [.completed, .failed, .cancelled]
  | .completed => []
  | .failed => []
  | .cancelled => []

def ToolCallStatus.predecessors : ToolCallStatus → List ToolCallStatus
  | .received => []
  | .waitingApproval => [.received]
  | .running => [.received, .waitingApproval]
  | .completed => [.received, .waitingApproval, .running]
  | .failed => [.received, .waitingApproval, .running]
  | .cancelled => [.received, .waitingApproval, .running]

def ToolCallStatus.rank : ToolCallStatus → ℕ
  | .received => 0
  | .waitingApproval => 1
  | .running => 2
  | .completed | .failed | .cancelled => 3

theorem ToolCallStatus.rank_lt_of_mem_transitions {s t : ToolCallStatus}
    (h : t ∈ s.transitions) : s.rank < t.rank := by
  cases s <;> cases t <;> simp_all [ToolCallStatus.transitions, ToolCallStatus.rank]

theorem ToolCallStatus.mem_predecessors_iff {s t : ToolCallStatus} :
    t ∈ s.predecessors ↔ t.rank < s.rank := by
  cases s <;> cases t <;> simp [ToolCallStatus.predecessors, ToolCallStatus.rank]

def ToolCall.rowMatches (row c : ToolCall) : Bool :=
  row.status = c.status && row.workspaceVersion = c.workspaceVersion && row.result = c.result &&
    row.error = c.error

def ToolCall.overwrite (row c : ToolCall) : ToolCall :=
  { row with
    status := c.status
    workspaceVersion := c.workspaceVersion
    result := c.result
    error := c.error
    startedAt := c.startedAt
    completedAt := c.completedAt }

def toolCallIdConflict (c : ToolCall) : Failure :=
  .domain
    { code := "tool_call_id_conflict"
      message := "the tool-call ID belongs to a different logical invocation"
      details := .ofList [("run_id", .str (uuidText c.runId)), ("tool_call_id", .str c.id)] }

def toolCallStateConflict (row c : ToolCall) : Failure :=
  .domain
    { code := "tool_call_state_conflict"
      message := "the durable tool-call state cannot be overwritten"
      details := .ofList
        [("run_id", .str (uuidText c.runId)), ("tool_call_id", .str c.id),
          ("current_status", .str row.status.value),
          ("requested_status", .str c.status.value)] }

/-- `_save_tool_call` on the row that is stored under the call's key, if there is one: the call it
returns and the row it leaves. -/
def saveToolCallRow (row? : Option ToolCall) (c : ToolCall) :
    Except Failure (ToolCall × ToolCall) :=
  match row? with
  | none => .ok (c, c)
  | some row =>
    if row.identity ≠ c.identity then .error (toolCallIdConflict c)
    else if row.rowMatches c then .ok (row, row)
    else if c.status ∈ row.status.predecessors then .ok (row, row)
    else if c.status ∉ row.status.transitions then .error (toolCallStateConflict row c)
    else .ok (c, row.overwrite c)

@[simp] theorem ToolCall.overwrite_status (row c : ToolCall) :
    (row.overwrite c).status = c.status := rfl

@[simp] theorem ToolCall.overwrite_identity (row c : ToolCall) :
    (row.overwrite c).identity = row.identity := rfl

theorem saveToolCallRow_cases {row? : Option ToolCall} {c returned row' : ToolCall}
    (h : saveToolCallRow row? c = .ok (returned, row')) : (row? = none ∧ returned = c ∧ row' = c) ∨
    (∃ row, row? = some row ∧ row.identity = c.identity ∧ returned = row ∧ row' = row ∧
      (row.rowMatches c = true ∨ c.status.rank < row.status.rank)) ∨
    (∃ row, row? = some row ∧ row.identity = c.identity ∧ returned = c ∧
      row' = row.overwrite c ∧ c.status ∈ row.status.transitions) := by
  cases row? with
  | none =>
    simp only [saveToolCallRow, Except.ok.injEq, Prod.mk.injEq] at h
    exact .inl ⟨rfl, h.1.symm, h.2.symm⟩
  | some row =>
    right
    simp only [saveToolCallRow] at h
    split at h
    · cases h
    rename_i hid
    have hid : row.identity = c.identity := not_not.1 hid
    split at h
    next hm =>
      cases h
      exact .inl ⟨_, rfl, hid, rfl, rfl, .inl hm⟩
    · split at h
      next hp =>
        cases h
        exact .inl ⟨_, rfl, hid, rfl, rfl, .inr (ToolCallStatus.mem_predecessors_iff.1 hp)⟩
      · split at h
        · cases h
        next ht =>
          cases h
          exact .inr ⟨_, rfl, hid, rfl, rfl, not_not.1 ht⟩

theorem saveToolCallRow_identity {row c returned row' : ToolCall}
    (h : saveToolCallRow (some row) c = .ok (returned, row')) : row'.identity = row.identity := by
  obtain ⟨hn, -⟩ | ⟨_, hr, -, -, rfl, -⟩ | ⟨_, hr, -, -, rfl, -⟩ := saveToolCallRow_cases h
  · cases hn
  · rw [Option.some.inj hr]
  · rw [Option.some.inj hr, ToolCall.overwrite_identity]

end AgentPlatform
