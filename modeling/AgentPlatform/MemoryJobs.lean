/-
**Memory extraction jobs.**
-/

import AgentPlatform.DomainValues
import AgentPlatform.RowLocking

namespace AgentPlatform

open RowLocking

inductive MemoryKind where
  | fact
  | preference
  | decision
  | constraint
  deriving DecidableEq

/-- A `PersistedMemory`; its content stands for the hash of it. -/
structure PersistedMemory where
  id : Uuid
  tenantId : Uuid
  sessionId : Uuid
  sourceRunId : Uuid
  executionEpoch : ℕ
  kind : MemoryKind
  content : String
  extractedAt : Timestamp
  archivedAt : Option Timestamp := none
  deriving DecidableEq

inductive MemoryExtractionStatus where
  | pending
  | running
  | completed
  | failed
  deriving DecidableEq

structure MemoryJobKey where
  id : Uuid
  tenantId : Uuid
  sessionId : Uuid
  runId : Uuid
  executionEpoch : ℕ
  sourceMessageSequence : ℕ
  deriving DecidableEq

structure MemoryLease where
  workerId : String
  leaseToken : Uuid
  leaseExpiresAt : Timestamp
  deriving DecidableEq

/-- A `MemoryExtractionJob`; the columns of the lease are set and cleared together. -/
structure MemoryExtractionJob where
  key : MemoryJobKey
  status : MemoryExtractionStatus := .pending
  attempt : ℕ := 1
  lease : Option MemoryLease := none
  leaseGeneration : ℕ := 0
  error : Option ErrorDetail := none
  createdAt : Timestamp
  startedAt : Option Timestamp := none
  completedAt : Option Timestamp := none
  deriving DecidableEq

namespace MemoryExtractionJob

variable (row job : MemoryExtractionJob)

def Terminal : Prop := row.status = .completed ∨ row.status = .failed

/-- `_assert_memory_job_lease`. -/
def HoldsLease (occurredAt : Timestamp) : Prop :=
  row.lease = job.lease ∧ row.leaseGeneration = job.leaseGeneration ∧
    row.lease.any (occurredAt < ·.leaseExpiresAt)

instance (occurredAt : Timestamp) : Decidable (row.HoldsLease job occurredAt) :=
  inferInstanceAs (Decidable (_ ∧ _ ∧ _))

/-- The end of a job, with `_clear_memory_job_lease`. -/
def finish (status : MemoryExtractionStatus) (at_ : Timestamp) (error : Option ErrorDetail := none) :
    MemoryExtractionJob :=
  { row with status := status, error := error, completedAt := some at_, lease := none }

/-- What `claim_pending` writes when it hands the job out. -/
def grant (workerId : String) (token : Uuid) (occurredAt leaseDuration : ℕ) : MemoryExtractionJob :=
  { row with
    status := .running
    startedAt := some occurredAt
    attempt := row.attempt + if row.status = .running then 1 else 0
    lease := some ⟨workerId, token, occurredAt + leaseDuration⟩
    leaseGeneration := row.leaseGeneration + 1 }

def supersede (now : Timestamp) : MemoryExtractionJob :=
  let startedAt := row.startedAt.getD row.createdAt
  { row.finish .failed (max now (max row.createdAt startedAt))
      (some { code := "memory_extraction_superseded", message := "the source run was rewound" }) with
    startedAt := some startedAt }

end MemoryExtractionJob

structure MemoryIndexKey where
  tenantId : Uuid
  sessionId : Uuid
  executionEpoch : ℕ
  kind : MemoryKind
  content : String
  deriving DecidableEq

def PersistedMemory.indexKey (m : PersistedMemory) : MemoryIndexKey :=
  ⟨m.tenantId, m.sessionId, m.executionEpoch, m.kind, m.content⟩

/-- `insert … on_conflict_do_nothing`. -/
def insertMemory (rows : List PersistedMemory) (m : PersistedMemory) : List PersistedMemory :=
  if m.indexKey ∈ rows.map (·.indexKey) then rows else rows ++ [m]

def PersistedMemory.From (m : PersistedMemory) (key : MemoryJobKey) : Prop :=
  m.tenantId = key.tenantId ∧ m.sessionId = key.sessionId ∧ m.sourceRunId = key.runId ∧
    m.executionEpoch = key.executionEpoch

instance (m : PersistedMemory) (key : MemoryJobKey) : Decidable (m.From key) :=
  inferInstanceAs (Decidable (_ ∧ _ ∧ _ ∧ _))

structure MemoryTables where
  runEpoch : ℕ
  memoryEnabled : Bool
  job : MemoryExtractionJob
  memories : List PersistedMemory := []

inductive MemoryCall where
  | claimPending (workerId : String) (token : Uuid) (occurredAt leaseDuration : ℕ)
  | complete (job : MemoryExtractionJob) (memories : List PersistedMemory) (completedAt : Timestamp)
  | fail (job : MemoryExtractionJob) (error : ErrorDetail) (completedAt : Timestamp)
  | rewind (now : Timestamp)
  | setSessionEnabled (enabled : Bool)

inductive MemoryTxn where
  | begun (call : MemoryCall)
  | locked (call : MemoryCall) (row : MemoryExtractionJob)
  | checked (call : MemoryCall) (row : MemoryExtractionJob) (enabled : Bool)

def MemoryTables.claimable (s : MemoryTables) (occurredAt : Timestamp) : Bool :=
  s.job.key.executionEpoch = s.runEpoch &&
    (s.job.status = .pending ||
      s.job.status = .running && s.job.lease.any (·.leaseExpiresAt ≤ occurredAt))

def MemoryTables.superseded (s : MemoryTables) : Bool :=
  s.job.key.executionEpoch = s.runEpoch && (s.job.status = .pending || s.job.status = .running)

def retryExhausted : ErrorDetail where
  code := "memory_extraction_retry_exhausted"
  message := "memory extraction exhausted its retry limit"

def memoryProtocol : Protocol MemoryCall Unit MemoryTables MemoryTxn where
  start := .begun
  held
    | .begun _ => []
    | _ => [()]
  request s
    | .begun (.complete ..) | .begun (.fail ..) => some ()
    | .begun (.rewind _) => if s.superseded then some () else none
    | _ => none
  execute s lockedByOthers
    | .begun call@(.claimPending workerId token occurredAt leaseDuration) =>
      -- `skip_locked`: a job somebody else has is passed over
      if lockedByOthers () = false ∧ s.claimable occurredAt ∧ token ≠ 0 ∧
          (workerId.toList.any (!isStripped ·)) ∧ workerId.length ≤ 255 ∧
          0 < leaseDuration ∧ leaseDuration ≤ 3600 then
        .running (.locked call s.job)
      else .rolledBack
    | .begun call@(.complete job memories _) =>
      if job.status = .running ∧ memories.length ≤ 100 ∧ s.job.key = job.key then
        .running (.locked call s.job)
      else .rolledBack
    | .begun call@(.fail job _ _) =>
      if s.job.key = job.key then .running (.locked call s.job) else .rolledBack
    | .begun call@(.rewind _) =>
      if s.superseded then .running (.locked call s.job)
      else .committed { s with runEpoch := s.runEpoch + 1 }
    | .begun (.setSessionEnabled enabled) => .committed { s with memoryEnabled := enabled }
    | .locked call@(.claimPending _ _ occurredAt _) row =>
      if row.status = .running ∧ 100 ≤ row.attempt then
        .committed { s with job := row.finish .failed occurredAt retryExhausted }
      else .running (.checked call row s.memoryEnabled)
    | .locked call@(.complete job _ completedAt) row =>
      -- a completed job answers a repeated call of the same lease
      if row.status = .completed ∧ row.leaseGeneration = job.leaseGeneration then .committed s
      else if row.status = .running ∧ row.HoldsLease job completedAt then
        .running (.checked call row s.memoryEnabled)
      else .rolledBack
    | .locked (.fail job error completedAt) row =>
      if row.status = .failed ∧ row.leaseGeneration = job.leaseGeneration then .committed s
      else if row.status = .running ∧ row.HoldsLease job completedAt then
        .committed { s with job := row.finish .failed completedAt error }
      else .rolledBack
    | .locked (.rewind now) row =>
      .committed { s with runEpoch := s.runEpoch + 1, job := row.supersede now }
    | .checked (.claimPending workerId token occurredAt leaseDuration) row enabled =>
      if enabled then
        .committed { s with job := row.grant workerId token occurredAt leaseDuration }
      else .committed { s with job :=
        { row.finish .completed occurredAt row.error with
          startedAt := row.startedAt.or occurredAt } }
    | .checked (.complete job memories completedAt) row enabled =>
      if enabled = true ∧ ¬ ∀ m ∈ memories, m.From job.key then .rolledBack
      else .committed { s with
        job := row.finish .completed completedAt row.error
        memories := if enabled then memories.foldl insertMemory s.memories else s.memories }
    | _ => .rolledBack

def MemoryTxn.copy : MemoryTxn → Option MemoryExtractionJob
  | .begun call | .locked call _ | .checked call _ _ =>
    match call with
    | .complete job .. | .fail job .. => some job
    | _ => none

def MemoryTxn.Current (s : MemoryTables) : MemoryTxn → Prop
  | .begun _ => True
  | .locked (.complete ..) row | .locked (.fail ..) row => row = s.job
  | .locked _ row => row = s.job ∧ ¬ row.Terminal
  | .checked (.complete job _ completedAt) row _ =>
    row = s.job ∧ row.status = .running ∧ row.HoldsLease job completedAt
  | .checked _ row _ => row = s.job ∧ ¬ row.Terminal

inductive JobChange (s s' : MemoryTables) (t : MemoryTxn) : Prop
  | none (job : s'.job = s.job) (memories : s'.memories = s.memories) (same : t.copy ≠ none → s' = s)
  | granted (live : ¬ s.job.Terminal) (status : s'.job.status = .running)
      (generation : s'.job.leaseGeneration = s.job.leaseGeneration + 1)
      (memories : s'.memories = s.memories) (copy : t.copy = none)
  | ended (live : ¬ s.job.Terminal) (terminal : s'.job.Terminal)
      (generation : s'.job.leaseGeneration = s.job.leaseGeneration)
      (copy : ∀ job, t.copy = some job → s.job.leaseGeneration = job.leaseGeneration)
      (stored : s'.memories ≠ s.memories → ∃ job memories completedAt,
        t = .checked (.complete job memories completedAt) s.job true ∧ s.job.status = .running ∧
        s.job.HoldsLease job completedAt ∧ s'.job.status = .completed ∧
        s'.memories = memories.foldl insertMemory s.memories)

theorem not_terminal_of_running {row : MemoryExtractionJob} (h : row.status = .running) :
    ¬ row.Terminal := by
  simp [MemoryExtractionJob.Terminal, h]

theorem not_terminal_of_claimable {s : MemoryTables} {occurredAt : Timestamp}
    (h : s.claimable occurredAt) : ¬ s.job.Terminal := by
  rintro (ht | ht) <;> simp [MemoryTables.claimable, ht] at h

theorem not_terminal_of_superseded {s : MemoryTables} (h : s.superseded) :
    ¬ s.job.Terminal := by
  rintro (ht | ht) <;> simp [MemoryTables.superseded, ht] at h

theorem memoryProtocol_committed {s s' : MemoryTables} {locked : Unit → Bool} {t : MemoryTxn}
    (hl : t.Current s) (h : memoryProtocol.execute s locked t = .committed s') :
    JobChange s s' t := by
  cases t with
  | begun call =>
    cases call <;> dsimp only [memoryProtocol] at h <;> try split at h
    all_goals cases h
    all_goals exact .none rfl rfl fun hc => absurd rfl hc
  | locked call row =>
    cases call <;> dsimp only [memoryProtocol] at h
    case claimPending =>
      split at h <;> cases h
      obtain ⟨rfl, hlive⟩ := hl
      exact .ended hlive (.inr rfl) rfl nofun fun hne => absurd rfl hne
    case complete =>
      split at h
      · cases h
        exact .none rfl rfl fun _ => rfl
      · split at h <;> cases h
    case fail =>
      cases hl
      split at h
      · cases h
        exact .none rfl rfl fun _ => rfl
      · split at h
        next hrun =>
          cases h
          refine .ended (not_terminal_of_running hrun.1) (.inr rfl) rfl ?_ fun hne => absurd rfl hne
          rintro job ⟨⟩
          exact hrun.2.2.1
        · cases h
    case rewind =>
      cases h
      obtain ⟨rfl, hlive⟩ := hl
      exact .ended hlive (.inr rfl) rfl nofun fun hne => absurd rfl hne
    case setSessionEnabled => cases h
  | checked call row enabled =>
    cases call <;> dsimp only [memoryProtocol] at h
    case claimPending =>
      obtain ⟨rfl, hlive⟩ := hl
      split at h <;> cases h
      · exact .granted hlive rfl rfl rfl rfl
      · exact .ended hlive (.inl rfl) rfl nofun fun hne => absurd rfl hne
    case complete =>
      obtain ⟨rfl, hrun, hlease⟩ := hl
      split at h <;> cases h
      refine .ended (not_terminal_of_running hrun) (.inl rfl) rfl ?_ fun hne => ?_
      · rintro job ⟨⟩
        exact hlease.2.1
      · cases enabled with
        | false => exact absurd rfl hne
        | true => exact ⟨_, _, _, rfl, hrun, hlease, rfl, rfl⟩
    all_goals cases h

theorem memoryProtocol_lawful : memoryProtocol.Lawful where
  start _ := rfl
  grants {s locked p p'} h r _ := by
    cases p with
    | locked | checked => exact .inl (mem_singleton.2 rfl)
    | begun call =>
      cases call <;> dsimp only [memoryProtocol] at h ⊢
      case claimPending =>
        split at h
        · exact .inr (.inr (And.left ‹_›))
        · cases h
      case rewind =>
        split at h
        · exact .inr (.inl (if_pos ‹_›))
        · cases h
      case setSessionEnabled => cases h
      all_goals exact .inr (.inl rfl)

theorem memoryProtocol_nonInterfering : memoryProtocol.NonInterfering (fun _ _ _ => True)
    (fun _ => True) fun s t _ => t.Current s where
  start _ _ := trivial
  wait _ h _ _ _ _ _ := h
  commit _ _ _ _ := trivial
  step {s locked p p' _} _ hl _ h := by
    cases p with
    | begun call =>
      cases call <;> dsimp only [memoryProtocol] at h <;> try split at h
      all_goals cases h
      · exact ⟨rfl, not_terminal_of_claimable (And.left (And.right ‹_›))⟩
      · rfl
      · rfl
      · exact ⟨rfl, not_terminal_of_superseded ‹_›⟩
    | locked call row =>
      cases call <;> dsimp only [memoryProtocol] at h
      case claimPending =>
        split at h <;> cases h
        exact hl
      case complete =>
        cases hl
        split at h
        · cases h
        · split at h <;> cases h
          exact ⟨rfl, ‹_›⟩
      case fail =>
        split at h
        · cases h
        · split at h <;> cases h
      all_goals cases h
    | checked call row enabled =>
      cases call <;> dsimp only [memoryProtocol] at h
      case claimPending | complete => split at h <;> cases h
      all_goals cases h
  others {s s' locked p q _ _} _ hp hq hdisjoint _ h := by
    have hjob : s'.job = s.job ∨ () ∈ memoryProtocol.held p := by
      cases p with
      | locked | checked => exact .inr (mem_singleton.2 rfl)
      | begun call =>
        cases call <;> dsimp only [memoryProtocol] at h <;> try split at h
        all_goals cases h
        all_goals exact .inl rfl
    cases q with
    | begun => trivial
    | locked call | checked call =>
      rcases hjob with hjob | hheld
      · cases call <;> simpa only [MemoryTxn.Current, hjob] using hq
      · exact absurd (mem_singleton.2 rfl) (hdisjoint () hheld)

section

variable (s : MemoryTables) (ops : List (Op MemoryCall))

theorem memory_step (op : Op MemoryCall) :
    let d := ops.foldl (Database.apply memoryProtocol) { tables := s }
    let s' := (d.apply memoryProtocol op).tables
    s' = d.tables ∨ ∃ i e, op = .advance i ∧ d.entryAt i = some e ∧ JobChange d.tables s' e.txn := by
  have hsound := memoryProtocol_nonInterfering.sound_all memoryProtocol_lawful (s := s) trivial ops
  obtain heq | ⟨i, e, locked, hop, he, hx⟩ := Database.tables_apply_cases memoryProtocol _ op
  · exact .inl heq
  · exact .inr ⟨i, e, hop, he, memoryProtocol_committed (hsound.locals i e he) hx⟩

theorem memory_job_terminal (ops' : List (Op MemoryCall))
    (h : (ops.foldl (Database.apply memoryProtocol) { tables := s }).tables.job.Terminal) :
    ((ops ++ ops').foldl (Database.apply memoryProtocol) { tables := s }).tables.job =
      (ops.foldl (Database.apply memoryProtocol) { tables := s }).tables.job := by
  induction ops' using List.reverseRecOn with
  | nil => rw [append_nil]
  | append_singleton ops' op ih =>
    rw [← append_assoc, foldl_append, List.foldl_cons, List.foldl_nil]
    obtain heq | ⟨i, e, -, -, hc⟩ := memory_step s (ops ++ ops') op
    · rw [heq, ih]
    · cases hc with
      | none job => rw [job, ih]
      | granted live => exact absurd (ih ▸ h) live
      | ended live => exact absurd (ih ▸ h) live

end

/-- **Memory extraction jobs are fenced.** -/
theorem memory_jobs_fenced (s : MemoryTables) (ops : List (Op MemoryCall)) :
    let d := ops.foldl (Database.apply memoryProtocol) { tables := s }
    (d.tables.job.Terminal → ∀ ops' : List (Op MemoryCall),
      (ops'.foldl (Database.apply memoryProtocol) d).tables.job = d.tables.job) ∧
    ∀ op, let s' := (d.apply memoryProtocol op).tables
      (s'.memories ≠ d.tables.memories → ∃ i e job memories completedAt, op = .advance i ∧
        d.entryAt i = some e ∧
        e.txn = .checked (.complete job memories completedAt) d.tables.job true ∧
        d.tables.job.status = .running ∧ d.tables.job.HoldsLease job completedAt ∧
        s'.job.status = .completed ∧
        s'.memories = memories.foldl insertMemory d.tables.memories) ∧
      (∀ i e job, op = .advance i → d.entryAt i = some e → e.txn.copy = some job →
        d.tables.job.leaseGeneration ≠ job.leaseGeneration → s' = d.tables) ∧
      (s'.job ≠ d.tables.job →
        s'.job.status = .running ∧ s'.job.leaseGeneration = d.tables.job.leaseGeneration + 1 ∨
        s'.job.Terminal ∧ s'.job.leaseGeneration = d.tables.job.leaseGeneration) := by
  intro d
  refine ⟨fun ht ops' => ?_, fun op => ?_⟩
  · rw [← foldl_append]
    exact memory_job_terminal s ops ops' ht
  obtain heq | ⟨i, e, hop, he, hc⟩ := memory_step s ops op
  · dsimp only
    rw [heq]
    exact ⟨fun hne => absurd rfl hne, fun _ _ _ _ _ _ _ => rfl, fun hne => absurd rfl hne⟩
  refine ⟨fun hne => ?_, fun j e' job hop' he' hcopy hgen => ?_, fun hne => ?_⟩
  · cases hc with
    | none _ memories => exact absurd memories hne
    | granted _ _ _ memories => exact absurd memories hne
    | ended _ _ _ _ stored =>
      obtain ⟨job, memories, completedAt, htxn, hrest⟩ := stored hne
      exact ⟨i, e, job, memories, completedAt, hop, he, htxn, hrest⟩
  · cases hop.symm.trans hop'
    cases he.symm.trans he'
    cases hc with
    | none _ _ same => exact same (by simp [hcopy])
    | granted _ _ _ _ copy => simp [hcopy] at copy
    | ended _ _ _ copy => exact absurd (copy job hcopy) hgen
  · cases hc with
    | none job => exact absurd job hne
    | granted _ status generation => exact .inl ⟨status, generation⟩
    | ended _ terminal generation => exact .inr ⟨terminal, generation⟩

end AgentPlatform
