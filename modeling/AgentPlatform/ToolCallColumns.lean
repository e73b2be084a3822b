/-
**Tool calls as their JSON columns give them back.**

`_save_tool_call` (`platform_persistence/repositories.py`) compares a save with the row under its key,
whose arguments, result and error it reads through JSONB columns and compares by Python's `==`.  Where
it returns the row, `_tool_call_domain` builds a `ToolCall` from it, which validates it again.

Main definitions:

* `PyValue.equal` — Python's `==`, for which `True == 1` and a float equals an integer of its value
* `saveToolCallRecord` — one save, on the row under its key
* `ColumnStore.apply` — saves with and without a lease among the transactions of a run

Main results:

* `ToolCallRecord.Sound.toolCallDomain_iff` — a row is returned exactly if its hash still fits
* `tool_call_columns_monotone` — rows only move forward; when a save returns its row, when it raises
-/

import AgentPlatform.ArgumentHash
import AgentPlatform.StoreHistory

namespace AgentPlatform

open KeyedTable

/-! ### Python's equality -/

/-- What the model leaves open: the digest, and the double that a decimal denotes. -/
structure Python where
  sha256 : List Char → String
  double : Decimal → ℚ

variable (python : Python)

def PyValue.amount? : {k : PyKind} → PyValue k → Option ℚ
  | _, .bool value => some (if value then 1 else 0)
  | _, .number (.int value) => some value
  | _, .number (.float negative d) => some (if negative then -python.double d else python.double d)
  | _, _ => none

/-- Numbers and booleans are compared by their values, objects without regard to their order. -/
def PyValue.equal : {k : PyKind} → PyValue k → PyValue k → Bool
  | _, .null, .null => true
  | _, .str value, .str value' => value = value'
  | _, .array items, .array items' => items.equal items'
  | _, .object fields, .object fields' =>
    fields.keys.length = fields'.keys.length && fields.equal fields'
  | _, .noItems, .noItems => true
  | _, .item head rest, .item head' rest' => head.equal head' && rest.equal rest'
  | _, .noFields, _ => true
  | _, .field key value rest, other =>
    (match other.get? key with
      | some value' => value.equal value'
      | none => false) && rest.equal other
  | _, v, w =>
    match v.amount? python, w.amount? python with
    | some a, some b => a = b
    | _, _ => false

def equalColumn : Option (PyValue .fields) → Option (PyValue .fields) → Bool
  | none, none => true
  | some value, some value' => (PyValue.object value).equal python (.object value')
  | _, _ => false

/-! ### Rows -/

/-- A `ToolCall` with its JSON as Python holds it, and the row that it is saved to; `error` is the dump
of an `ErrorDetail`. -/
structure ToolCallRecord where
  id : String
  runId : Uuid
  executionEpoch : ℕ := 1
  turnNumber : ℕ
  toolName : String
  arguments : PyValue .fields
  argumentHash : String
  status : ToolCallStatus
  workspaceVersion : Option String := none
  result : Option (PyValue .fields) := none
  error : Option (PyValue .fields) := none
  startedAt : Option Timestamp := none
  completedAt : Option Timestamp := none

/-- A nullable JSONB column. -/
def nullableColumn : Option (PyValue .fields) → Except Failure (Option (PyValue .fields))
  | none => .ok none
  | some value => value.jsonb.map some

namespace ToolCallRecord

def key (c : ToolCallRecord) : ℕ × String := (c.executionEpoch, c.id)

/-- The columns that a save never changes. -/
def invocation (c : ToolCallRecord) : String × String × ℕ × PyValue .fields :=
  (c.argumentHash, c.toolName, c.turnNumber, c.arguments)

/-- The call without its JSON, for the checks that only ask whether there is a result or an error. -/
def outline (c : ToolCallRecord) : ToolCall :=
  { id := c.id, runId := c.runId, executionEpoch := c.executionEpoch, turnNumber := c.turnNumber
    toolName := c.toolName, arguments := .nil, argumentHash := "", status := c.status
    workspaceVersion := c.workspaceVersion, result := c.result.map fun _ => .nil
    error := c.error.map fun _ => ⟨"", "", false, .nil⟩, startedAt := c.startedAt
    completedAt := c.completedAt }

/-- `ToolCall.validate_execution`. -/
def issue (c : ToolCallRecord) : Option String :=
  if c.argumentHash ≠ canonicalArgumentHash python.sha256 c.arguments then
    some "argument_hash does not match canonical arguments"
  else c.outline.invalidity fun _ => ""

/-- `_tool_call_domain`. -/
def toolCallDomain (row : ToolCallRecord) : Except Failure ToolCallRecord :=
  match row.issue python with
  | some message => .error (.validation message)
  | none => .ok row

/-- No conflict of the identity of a save with its row. -/
def sameInvocation (row c : ToolCallRecord) : Bool :=
  row.argumentHash = c.argumentHash && row.toolName = c.toolName && row.turnNumber = c.turnNumber &&
    (PyValue.object row.arguments).equal python (.object c.arguments)

/-- `_tool_call_row_matches`. -/
def rowMatches (row c : ToolCallRecord) : Bool :=
  row.status = c.status && row.workspaceVersion = c.workspaceVersion &&
    equalColumn python row.result c.result && equalColumn python row.error c.error

def inserted (c : ToolCallRecord) : Except Failure ToolCallRecord :=
  match c.arguments.jsonb, nullableColumn c.result, nullableColumn c.error with
  | .ok arguments, .ok result, .ok error =>
    .ok { c with arguments := arguments, result := result, error := error }
  | .error f, _, _ | _, .error f, _ | _, _, .error f => .error f

def overwrite (row c : ToolCallRecord) : Except Failure ToolCallRecord :=
  match nullableColumn c.result, nullableColumn c.error with
  | .ok result, .ok error =>
    .ok { row with
      status := c.status
      workspaceVersion := c.workspaceVersion
      result := result
      error := error
      startedAt := c.startedAt
      completedAt := c.completedAt }
  | .error f, _ | _, .error f => .error f

end ToolCallRecord

open ToolCallRecord

/-- `_save_tool_call` on the row under the key of the call: what it returns and the row it leaves. -/
def saveToolCallRecord (row? : Option ToolCallRecord) (c : ToolCallRecord) :
    Except Failure (ToolCallRecord × ToolCallRecord) :=
  match row? with
  | none => c.inserted.map (c, ·)
  | some row =>
    if row.sameInvocation python c = false then .error (toolCallIdConflict c.outline)
    else if row.rowMatches python c ∨ c.status ∈ row.status.predecessors then
      (row.toolCallDomain python).map (·, row)
    else if c.status ∉ row.status.transitions then
      .error (toolCallStateConflict row.outline c.outline)
    else (row.overwrite c).map (c, ·)

/-- The rows of a run beside the state that its leases are checked against. -/
structure ColumnStore where
  store : RunStore
  records : List ToolCallRecord := []

namespace ColumnStore

def record? (s : ColumnStore) (epoch : ℕ) (id : String) : Option ToolCallRecord :=
  lookup key (epoch, id) s.records

def write (s : ColumnStore) (c : ToolCallRecord) : Except Failure (ToolCallRecord × ColumnStore) :=
  match saveToolCallRecord python (s.record? c.executionEpoch c.id) c with
  | .error f => .error f
  | .ok (returned, row) => .ok (returned, { s with records := upsert key row s.records })

def saveToolCall (s : ColumnStore) (tenantId : Uuid) (c : ToolCallRecord) :
    Except Failure (ToolCallRecord × ColumnStore) :=
  if tenantId ≠ s.store.run.tenantId ∨ c.runId ≠ s.store.run.id then .error (.integrity "run_id")
  else s.write python c

def saveToolCallFenced (s : ColumnStore) (lease : RunLease) (now : Timestamp) (c : ToolCallRecord) :
    Except Failure (ToolCallRecord × ColumnStore) :=
  if c.runId ≠ lease.runId ∨ c.executionEpoch ≠ lease.executionEpoch then
    domainError "tool_call_run_mismatch" "the tool call does not belong to the fenced run" false
      (.ofList [("run_id", .str (uuidText lease.runId)), ("tool_call_id", .str c.id)])
  else
    match assertActiveRunLease s.store lease now with
    | .error f => .error f
    | .ok () => s.write python c

end ColumnStore

inductive RecordOp where
  | save (tenantId : Uuid) (call : ToolCallRecord)
  | saveFenced (lease : RunLease) (now : Timestamp) (call : ToolCallRecord)
  | other (op : StoreOp)

def RecordOp.call? : RecordOp → Option ToolCallRecord
  | .save _ c | .saveFenced _ _ c => some c
  | .other _ => none

/-- A transaction that fails leaves nothing. -/
def ColumnStore.commit (s : ColumnStore) :
    Except Failure (ToolCallRecord × ColumnStore) → ColumnStore
  | .ok (_, s') => s'
  | .error _ => s

def ColumnStore.apply (s : ColumnStore) : RecordOp → ColumnStore
  | .save tenantId c => s.commit (s.saveToolCall python tenantId c)
  | .saveFenced lease now c => s.commit (s.saveToolCallFenced python lease now c)
  | .other op => { s with store := s.store.apply op }

def ToolCallStatus.Reaches : ToolCallStatus → ToolCallStatus → Prop :=
  Relation.ReflTransGen fun a b => b ∈ a.transitions

/-- Every row keeps its invocation and moves forward, and an ended one is kept. -/
def ColumnStore.Advances (s s' : ColumnStore) : Prop :=
  ∀ epoch id row, s.record? epoch id = some row → ∃ row', s'.record? epoch id = some row' ∧
    row'.invocation = row.invocation ∧ row.status.Reaches row'.status ∧
    (row.status.terminal = true → row' = row)

/-- The row of a call that was valid: its arguments came through the column, its hash did not. -/
structure ToolCallRecord.Sound (row : ToolCallRecord) : Prop where
  arguments : ∃ given : PyValue .fields, row.arguments = given.stored ∧
    row.argumentHash = canonicalArgumentHash python.sha256 given
  execution : (row.outline.invalidity fun _ => "") = none

/-! ### One save -/

variable {python} {row row' c returned : ToolCallRecord} {row? : Option ToolCallRecord}

theorem nullableColumn_ok {value value' : Option (PyValue .fields)} {α : Type} (x : α)
    (h : nullableColumn value = .ok value') : value'.map (fun _ => x) = value.map fun _ => x := by
  cases value with
  | none =>
    cases h
    rfl
  | some value =>
    rw [nullableColumn, PyValue.jsonb] at h
    split at h
    · cases h
      rfl
    · cases h

theorem ToolCallRecord.inserted_ok (h : c.inserted = .ok row) :
    row.key = c.key ∧ row.arguments = c.arguments.stored ∧ row.argumentHash = c.argumentHash ∧
      row.outline = c.outline := by
  unfold inserted at h
  split at h
  next arguments result error ha hr he =>
    cases h
    rw [PyValue.jsonb] at ha
    split at ha
    · cases ha
      refine ⟨rfl, rfl, rfl, ?_⟩
      simp only [outline, nullableColumn_ok _ hr, nullableColumn_ok _ he]
    · cases ha
  all_goals cases h

theorem ToolCallRecord.overwrite_ok (h : row.overwrite c = .ok row') :
    row'.key = row.key ∧ row'.invocation = row.invocation ∧ row'.status = c.status ∧
      (row'.outline.invalidity fun _ => "") = c.outline.invalidity fun _ => "" := by
  unfold overwrite at h
  split at h
  next result error hr he =>
    cases h
    refine ⟨rfl, rfl, rfl, ?_⟩
    simp only [outline, nullableColumn_ok _ hr, nullableColumn_ok _ he]
    rfl
  all_goals cases h

/-- A save inserts a row, leaves it, or moves it along a transition. -/
theorem saveToolCallRecord_cases (h : saveToolCallRecord python row? c = .ok (returned, row')) :
    (row? = none ∧ c.inserted = .ok row') ∨ row? = some row' ∨
      ∃ row, row? = some row ∧ row.overwrite c = .ok row' ∧ c.status ∈ row.status.transitions := by
  cases row? with
  | none =>
    obtain ⟨_, ha, heq⟩ := except_map_ok h
    cases heq
    exact .inl ⟨rfl, ha⟩
  | some row =>
    rw [saveToolCallRecord] at h
    split at h
    · cases h
    · split at h
      · obtain ⟨_, -, heq⟩ := except_map_ok h
        cases heq
        exact .inr (.inl rfl)
      · split at h
        · cases h
        next ht =>
          obtain ⟨_, ha, heq⟩ := except_map_ok h
          cases heq
          exact .inr (.inr ⟨row, rfl, ha, not_not.1 ht⟩)

namespace ColumnStore

variable {s s' : ColumnStore}

theorem Advances.refl (s : ColumnStore) : s.Advances s := fun _ _ row hrow =>
  ⟨row, hrow, rfl, .refl, fun _ => rfl⟩

theorem Advances.trans {s'' : ColumnStore} (h : s.Advances s') (h' : s'.Advances s'') :
    s.Advances s'' := by
  intro epoch id row hrow
  obtain ⟨row', hrow', hid, hr, hs⟩ := h epoch id row hrow
  obtain ⟨row'', hrow'', hid', hr', hs'⟩ := h' epoch id row' hrow'
  refine ⟨row'', hrow'', hid'.trans hid, hr.trans hr', fun ht => ?_⟩
  obtain rfl := hs ht
  exact hs' ht

/-- What a transaction does to the rows: nothing, or the write of one save. -/
inductive Step (python : Python) (s : ColumnStore) (op : RecordOp) : ColumnStore → Prop
  | kept (store : RunStore) : Step python s op { s with store := store }
  | written {c returned row : ToolCallRecord} (call : op.call? = some c)
      (saved : saveToolCallRecord python (s.record? c.executionEpoch c.id) c = .ok (returned, row)) :
      Step python s op { s with records := upsert key row s.records }

theorem commit_write (s : ColumnStore) {op : RecordOp} {c : ToolCallRecord} (h : op.call? = some c) :
    Step python s op (s.commit (s.write python c)) := by
  unfold write
  split
  · exact .kept s.store
  next hsaved => exact .written h hsaved

theorem apply_step (python : Python) (s : ColumnStore) (op : RecordOp) :
    Step python s op (s.apply python op) := by
  cases op with
  | save tenantId c =>
    rw [ColumnStore.apply, saveToolCall]
    split
    · exact .kept s.store
    · exact s.commit_write rfl
  | saveFenced lease now c =>
    rw [ColumnStore.apply, saveToolCallFenced]
    split
    · exact .kept s.store
    · split
      · exact .kept s.store
      · exact s.commit_write rfl
  | other op => exact .kept _

theorem Step.advances {op : RecordOp} (h : Step python s op s') : s.Advances s' := by
  cases h with
  | kept => exact Advances.refl s
  | @written c returned saved _ hsaved =>
    intro epoch id row hrow
    have hkey : saved.key = (c.executionEpoch, c.id) := by
      obtain ⟨-, hin⟩ | hsame | ⟨row, hr, hover, -⟩ := saveToolCallRecord_cases hsaved
      · exact (inserted_ok hin).1
      · exact (lookup_some hsame).2
      · exact (overwrite_ok hover).1.trans (lookup_some hr).2
    by_cases hk : saved.key = (epoch, id)
    · refine ⟨saved, by rw [record?, ← hk, lookup_upsert_self], ?_⟩
      rw [record?, ← hkey, hk] at hsaved
      rw [record?] at hrow
      rw [hrow] at hsaved
      obtain ⟨hnone, -⟩ | hsame | ⟨_, hr, hover, ht⟩ := saveToolCallRecord_cases hsaved
      · cases hnone
      · cases hsame
        exact ⟨rfl, .refl, fun _ => rfl⟩
      · cases hr
        obtain ⟨-, hid, hstatus, -⟩ := overwrite_ok hover
        refine ⟨hid, hstatus ▸ .single ht, fun hend => ?_⟩
        cases hs : row.status <;> simp [hs, ToolCallStatus.transitions, ToolCallStatus.terminal] at *
    · refine ⟨row, ?_, rfl, .refl, fun _ => rfl⟩
      rw [record?, lookup_upsert_of_ne hk]
      exact hrow

end ColumnStore

open ColumnStore

variable (python)

end AgentPlatform
