/-
**What a statement of the queue does.**
-/

import AgentPlatform.FleetSteps
import AgentPlatform.QueueTransactions

namespace AgentPlatform

open QueueTables RecoverState List Bool

open RowLocking

variable {t t' : QueueTables} {locked : QueueRow → Bool} {call : RecoverCall}

theorem QueueTables.candidate?_some {call : ClaimCall} {skipped : List (Uuid × Uuid)}
    {c : Candidate} (h : t.candidate? locked call skipped = some c) :
    ∃ r ∈ t.fleet.runs, r.key = c.key ∧ r.store.run.workspaceId = c.workspaceId ∧
      r.store.run.status = .queued ∧ locked (.run c.key) = false := by
  simp only [candidate?, map_eq_some_iff] at h
  obtain ⟨r, hr, rfl⟩ := h
  have hmem := mem_of_head? hr
  rw [mem_insertionSort, mem_filter] at hmem
  simp only [claimable, and_eq_true, not_eq_true', decide_eq_true_eq] at hmem
  exact ⟨r, hmem.1, rfl, rfl, hmem.2.1.1.1.1, hmem.2.1.2⟩

theorem QueueTables.mem_dueRetries {key : Uuid × Uuid} (h : key ∈ t.dueRetries locked call) :
    ∃ r ∈ t.fleet.runs, r.key = key ∧ r.store.run.status = .retryPending ∧
      r.store.run.retryReadyAt.any (· ≤ call.occurredAt) = true ∧ locked (.run key) = false := by
  obtain ⟨r, hr, rfl⟩ := mem_map.mp h
  have hmem := mem_of_mem_take hr
  rw [mem_insertionSort, mem_filter] at hmem
  simp only [and_eq_true, not_eq_true', decide_eq_true_eq] at hmem
  exact ⟨r, hmem.1, rfl, hmem.2.1.1, hmem.2.1.2, hmem.2.2⟩

theorem QueueTables.mem_expiredLeases {recovered : ℕ} {key : Uuid × Uuid}
    (h : key ∈ t.expiredLeases locked call recovered) :
    ∃ r ∈ t.fleet.runs, r.key = key ∧ r.store.lease.isSome ∧ locked (.lease key) = false := by
  obtain ⟨r, hr, rfl⟩ := mem_map.mp h
  have hmem := mem_of_mem_take hr
  rw [mem_insertionSort, mem_filter] at hmem
  simp only [and_eq_true, not_eq_true', Option.any_eq_true] at hmem
  obtain ⟨hr, ⟨_, hrow, -⟩, hl⟩ := hmem
  exact ⟨r, hr, rfl, by rw [hrow]; rfl, hl⟩

def ClaimStage.candidate? : ClaimStage → Option Candidate
  | .insertQuota c | .lockQuota c | .countActive c | .insertWorkspace c | .lockWorkspace c
  | .take c => some c
  | .lockWorker | .selectCandidate => none

def ClaimStage.counting? : ClaimStage → Option Candidate
  | .countActive c | .insertWorkspace c | .lockWorkspace c | .take c => some c
  | .lockWorker | .selectCandidate | .insertQuota _ | .lockQuota _ => none

/-- **Everything a statement of a claim that goes on can do.** -/
inductive ClaimStep (t : QueueTables) (locked : QueueRow → Bool) (call : ClaimCall)
    (st : ClaimState) : ClaimState → Prop
  | worker (stage : st.stage = .lockWorker)
      (request : st.request t call = some (.worker call.workerId)) :
      ClaimStep t locked call st
        { st with stage := .selectCandidate, held := .worker call.workerId :: st.held }
  | candidate (c : Candidate) (stage : st.stage = .selectCandidate)
      (found : t.candidate? locked call st.skipped = some c) :
      ClaimStep t locked call st { st with stage := .insertQuota c, held := .run c.key :: st.held }
  | quotaFound (c : Candidate) (stage : st.stage = .insertQuota c) :
      ClaimStep t locked call st { st with stage := .lockQuota c }
  | quotaInserted (c : Candidate) (stage : st.stage = .insertQuota c)
      (request : st.request t call = some (.quota c.tenantId)) :
      ClaimStep t locked call st { st with
        stage := .lockQuota c
        quotas := st.quotas ++ [{ tenantId := c.tenantId, quota := call.defaultQuota }]
        held := .quota c.tenantId :: st.held }
  | quotaLocked (c : Candidate) (stage : st.stage = .lockQuota c)
      (request : st.request t call = some (.quota c.tenantId)) :
      ClaimStep t locked call st
        { st with stage := .countActive c, held := .quota c.tenantId :: st.held }
  | full (c : Candidate) (stage : st.stage = .countActive c) : ClaimStep t locked call st (st.skip c)
  | room (c : Candidate) (row : TenantQuotaRecord) (stage : st.stage = .countActive c)
      (found : (st.view t).quota? c.tenantId = some row)
      (room : t.activeRuns c.tenantId < row.quota.maxActiveRuns) :
      ClaimStep t locked call st { st with stage := .insertWorkspace c }
  | workspaceFound (c : Candidate) (stage : st.stage = .insertWorkspace c) :
      ClaimStep t locked call st { st with stage := .lockWorkspace c }
  | workspaceInserted (c : Candidate) (stage : st.stage = .insertWorkspace c)
      (request : st.request t call = some (.workspace c.workspaceKey)) :
      ClaimStep t locked call st { st with
        stage := .lockWorkspace c
        workspaces := st.workspaces ++ [{ tenantId := c.tenantId, workspaceId := c.workspaceId }]
        held := .workspace c.workspaceKey :: st.held }
  | workspaceBusy (c : Candidate) (stage : st.stage = .lockWorkspace c) :
      ClaimStep t locked call st (st.skip c)
  | workspaceOwned (c : Candidate) (w : WorkspaceLeaseRecord) (stage : st.stage = .lockWorkspace c)
      (free : locked (.workspace c.workspaceKey) = false)
      (found : (st.view t).fleet.workspace? c.tenantId c.workspaceId = some w) :
      ClaimStep t locked call st
        (({ st with held := .workspace c.workspaceKey :: st.held } : ClaimState).skip c)
  | workspaceFree (c : Candidate) (w : WorkspaceLeaseRecord) (stage : st.stage = .lockWorkspace c)
      (free : locked (.workspace c.workspaceKey) = false)
      (found : (st.view t).fleet.workspace? c.tenantId c.workspaceId = some w)
      (unowned : w.owner = none) :
      ClaimStep t locked call st
        { st with held := .workspace c.workspaceKey :: st.held, stage := .take c }

theorem ClaimState.running_inv {st st' : ClaimState} {call : ClaimCall}
    (h : st.execute t locked call = .running st') : ClaimStep t locked call st st' := by
  cases hst : st.stage <;> simp only [ClaimState.execute, hst] at h
  case lockWorker =>
    split at h
    · cases h
    next row hrow =>
      split at h
      · cases h
      · cases h
        exact .worker hst (by simp [ClaimState.request, hst, hrow])
  case selectCandidate =>
    split at h
    · cases h
    · split at h
      · cases h
      next c hc =>
        cases h
        exact .candidate c hst hc
  case insertQuota c =>
    split at h
    · cases h
      exact .quotaFound c hst
    next hn =>
      cases h
      exact .quotaInserted c hst (by simp [ClaimState.request, hst, hn])
  case lockQuota c =>
    split at h
    · cases h
    · cases h
      exact .quotaLocked c hst (by simp [ClaimState.request, hst])
  case countActive c =>
    split at h
    · cases h
    rename_i row hrow
    split at h
    · cases h
      exact .full c hst
    next hr =>
      cases h
      exact .room c row hst hrow (Nat.lt_of_not_le hr)
  case insertWorkspace c =>
    split at h
    · cases h
      exact .workspaceFound c hst
    next hn =>
      cases h
      exact .workspaceInserted c hst (by simp [ClaimState.request, hst, hn])
  case lockWorkspace c =>
    split at h
    · cases h
      exact .workspaceBusy c hst
    rename_i hf
    have hf := eq_false_of_not_eq_true hf
    split at h
    · cases h
      exact .workspaceBusy c hst
    rename_i w hw
    split at h
    · cases h
      exact .workspaceOwned c w hst hf hw
    next hown =>
      cases h
      exact .workspaceFree c w hst hf hw (by simpa using hown)
  case take c =>
    split at h
    · cases h
    · split at h <;> cases h

theorem ClaimState.committed_inv {st : ClaimState} {call : ClaimCall}
    (h : st.execute t locked call = .committed t') : t' = t ∨ t' = st.view t ∨
      ∃ c lease f, st.stage = .take c ∧
        (∀ r ∈ t.fleet.runs, ∀ row, r.store.lease = some row → row.leaseToken ≠ call.token) ∧
        (st.view t).fleet.claim call.workerId c.tenantId c.runId call.token call.workspaceToken
          call.occurredAt call.expiresAt = .ok (some lease, f) ∧
        t' = { st.view t with fleet := f } := by
  cases hst : st.stage <;> simp only [ClaimState.execute, hst] at h
  case lockWorker =>
    repeat' split at h
    all_goals cases h
    exact .inl rfl
  case selectCandidate =>
    repeat' split at h
    all_goals cases h
    all_goals exact .inr (.inl rfl)
  case take c =>
    split at h
    · cases h
    rename_i ht
    split at h
    next lease f hc =>
      cases h
      refine .inr (.inr ⟨c, lease, f, rfl, ?_, hc, rfl⟩)
      intro r hr row hrow hs
      exact ht (any_eq_true.mpr ⟨r, hr, by simp [hrow, hs]⟩)
    · cases h
  all_goals
    repeat' split at h
    all_goals cases h

def CreateCall.sessionRow (call : CreateCall) : QueueRow :=
  .session (call.submission.tenantId, call.submission.sessionId)

inductive CreateStep (t : QueueTables) (call : CreateCall) (st : CreateState) : CreateState → Prop
  | missing (stage : st.stage = .findExisting) :
      CreateStep t call st
        { st with stage := if call.withTask then .lockSession else .insertQuota }
  | session (stage : st.stage = .lockSession)
      (request : st.request t call = some call.sessionRow) :
      CreateStep t call st { st with stage := .insertQuota, held := call.sessionRow :: st.held }
  | quotaFound (stage : st.stage = .insertQuota) : CreateStep t call st { st with stage := .lockQuota }
  | quotaInserted (stage : st.stage = .insertQuota)
      (request : st.request t call = some (.quota call.submission.tenantId)) :
      CreateStep t call st { st with
        stage := .lockQuota
        quotas := st.quotas ++ [{ tenantId := call.submission.tenantId, quota := call.defaultQuota }]
        held := .quota call.submission.tenantId :: st.held }
  | quotaLocked (stage : st.stage = .lockQuota)
      (request : st.request t call = some (.quota call.submission.tenantId)) :
      CreateStep t call st
        { st with stage := .recheck, held := .quota call.submission.tenantId :: st.held }
  | unclaimed (stage : st.stage = .recheck) : CreateStep t call st { st with stage := .insertAdmission }
  | admissionFound (stage : st.stage = .insertAdmission) :
      CreateStep t call st { st with stage := .lockAdmission }
  | admissionInserted (row : QueueAdmissionRecord) (stage : st.stage = .insertAdmission)
      (request : st.request t call = some .admission) :
      CreateStep t call st
        { st with stage := .lockAdmission, admission := some row, held := .admission :: st.held }
  | admissionLocked (row : Option QueueAdmissionRecord) (stage : st.stage = .lockAdmission)
      (request : st.request t call = some .admission) :
      CreateStep t call st
        { st with stage := .insertRun, admission := row, held := .admission :: st.held }

theorem CreateState.running_inv {st st' : CreateState} {call : CreateCall}
    (h : st.execute t call = .running st') : CreateStep t call st st' := by
  cases hst : st.stage <;> simp only [CreateState.execute, hst] at h
  case findExisting =>
    split at h
    · cases h
    · cases h
      exact .missing hst
  case lockSession =>
    split at h
    · cases h
    next row hrow =>
      cases h
      refine .session hst ?_
      obtain ⟨hf, -⟩ := Option.filter_eq_some_iff.mp hrow
      simp [CreateState.request, hst, hf, CreateCall.sessionRow]
  case insertQuota =>
    split at h
    · cases h
      exact .quotaFound hst
    next hn =>
      cases h
      exact .quotaInserted hst (by simp [CreateState.request, hst, hn])
  case lockQuota =>
    split at h
    · cases h
    · cases h
      exact .quotaLocked hst (by simp [CreateState.request, hst])
  case recheck =>
    split at h
    · cases h
    · cases h
      exact .unclaimed hst
  case insertAdmission =>
    split at h
    · cases h
      exact .admissionFound hst
    next hn =>
      cases h
      exact .admissionInserted _ hst (by simp [CreateState.request, hst, hn])
  case lockAdmission =>
    have hreq : st.request t call = some .admission := by simp [CreateState.request, hst]
    split at h
    · cases h
    split at h
    · split at h
      · cases h
      · cases h
        exact .admissionLocked _ hst hreq
    · cases h
      exact .admissionLocked st.admission hst hreq
  case insertRun =>
    split at h
    · cases h
    · split at h
      · cases h
      · split at h <;> cases h

theorem CreateState.committed_inv {st : CreateState} {call : CreateCall}
    (h : st.execute t call = .committed t') : t' = t ∨ t' = st.view t ∨
      (∀ r ∈ t.fleet.runs, r.store.run.id ≠ call.submission.runId) ∧
        ∃ columns, t' = { st.view t with
          fleet := { t.fleet with runs := t.fleet.runs ++ [{ store := call.store }] }
          columns := columns } := by
  cases hst : st.stage <;> simp only [CreateState.execute, hst] at h
  case findExisting =>
    split at h <;> cases h
    exact .inl rfl
  case recheck =>
    split at h <;> cases h
    exact .inr (.inl rfl)
  case insertRun =>
    split at h
    · cases h
    split at h
    · cases h
      exact .inr (.inl rfl)
    split at h
    · cases h
    next hnew =>
      cases h
      refine .inr (.inr ⟨?_, _, rfl⟩)
      intro r hr hs
      exact hnew (.inl (any_eq_true.mpr ⟨r, hr, by simpa using hs⟩))
  all_goals
    repeat' split at h
    all_goals cases h

inductive FinishStep (t : QueueTables) (call : FinishCall) (st : FinishState) : FinishState → Prop
  | lease (row : RunLeaseRecord) (stage : st.stage = .lockLease)
      (found : FinishState.leaseRow t call = some row) :
      FinishStep t call st { stage := .lockRun, held := .lease call.key :: st.held }
  | run (stage : st.stage = .lockRun) (request : st.request t call = some (.run call.key)) :
      FinishStep t call st { stage := .lockWorkspace, held := .run call.key :: st.held }
  | noWorkspace (stage : st.stage = .lockWorkspace) :
      FinishStep t call st { st with stage := .lockWorker }
  | workspace (w : WorkspaceLeaseRecord) (stage : st.stage = .lockWorkspace)
      (found : t.workspaceOf call.lease.leaseToken = some w) :
      FinishStep t call st { stage := .lockWorker, held := .workspace w.key :: st.held }

theorem FinishState.running_inv {st st' : FinishState} {call : FinishCall}
    (h : st.execute t call = .running st') : FinishStep t call st st' := by
  cases hst : st.stage <;> simp only [FinishState.execute, hst] at h
  case lockLease =>
    split at h
    · cases h
    next row hrow =>
      cases h
      exact .lease row hst hrow
  case lockRun =>
    split at h
    · cases h
    next r hr =>
      split at h
      · cases h
      · cases h
        exact .run hst (by simp [FinishState.request, hst, hr])
  case lockWorkspace =>
    split at h
    · cases h
      exact .noWorkspace hst
    next w hw =>
      cases h
      exact .workspace w hst hw
  case lockWorker =>
    split at h <;> cases h

theorem FinishState.committed_inv {st : FinishState} {call : FinishCall}
    (h : st.execute t call = .committed t') : st.stage = .lockWorker ∧ ∃ status f,
      t.fleet.finish call.lease call.result call.occurredAt = .ok (status, f) ∧
        t' = { t with fleet := f } := by
  cases hst : st.stage <;> simp only [FinishState.execute, hst] at h
  case lockWorker =>
    split at h
    · cases h
    next status f hf =>
      cases h
      exact ⟨rfl, status, f, hf, rfl⟩
  all_goals
    repeat' split at h
    all_goals cases h

inductive RecoverStep (t : QueueTables) (locked : QueueRow → Bool) (call : RecoverCall)
    (st : RecoverState) : RecoverState → Prop
  | retries (stage : st.stage = .lockRetries) :
      RecoverStep t locked call st { st with
        stage := .lockLeases
        retries := t.dueRetries locked call
        held := (t.dueRetries locked call).map .run ++ st.held }
  | leases (stage : st.stage = .lockLeases) :
      RecoverStep t locked call st { st with
        stage := .lockRun (t.expiredLeases locked call st.retries.length)
        leases := t.expiredLeases locked call st.retries.length
        held := (t.expiredLeases locked call st.retries.length).map .lease ++ st.held }
  | run (key : Uuid × Uuid) (rest : List (Uuid × Uuid))
      (stage : st.stage = .lockRun (key :: rest)) :
      RecoverStep t locked call st { st with
        stage := .lockWorkspace key rest
        held := (st.request t).toList ++ st.held }
  | workspace (key : Uuid × Uuid) (rest : List (Uuid × Uuid))
      (stage : st.stage = .lockWorkspace key rest) :
      RecoverStep t locked call st { st with
        stage := .lockWorker key rest
        held := (st.request t).toList ++ st.held }
  | worker (key : Uuid × Uuid) (rest : List (Uuid × Uuid))
      (stage : st.stage = .lockWorker key rest) :
      RecoverStep t locked call st { st with
        stage := .lockRun rest
        held := (st.request t).toList ++ st.held }

theorem RecoverState.running_inv {st st' : RecoverState}
    (h : st.execute t locked call = .running st') : RecoverStep t locked call st st' := by
  cases hst : st.stage with
  | lockRetries =>
    simp only [RecoverState.execute, hst] at h
    split at h
    · cases h
    · cases h
      exact .retries hst
  | lockLeases =>
    simp only [RecoverState.execute, hst] at h
    cases h
    exact .leases hst
  | lockRun keys =>
    cases keys with
    | nil =>
      simp only [RecoverState.execute, hst] at h
      split at h <;> cases h
    | cons key rest =>
      have hreq : st.request t = (t.fleet.run? key.1 key.2).map fun _ => QueueRow.run key := by
        simp [RecoverState.request, hst]
      simp only [RecoverState.execute, hst] at h
      rw [← hreq] at h
      split at h
      · cases h
      · cases h
        exact .run key rest hst
  | lockWorkspace key rest =>
    have hreq : st.request t =
        (workspace t key).map fun w => QueueRow.workspace w.key := by
      simp [RecoverState.request, hst]
    simp only [RecoverState.execute, hst] at h
    rw [← hreq] at h
    cases h
    exact .workspace key rest hst
  | lockWorker key rest =>
    have hreq : st.request t =
        (worker t key).map fun w => QueueRow.worker w.workerId := by
      simp [RecoverState.request, hst]
    simp only [RecoverState.execute, hst] at h
    rw [← hreq] at h
    cases h
    exact .worker key rest hst

theorem RecoverState.committed_inv {st : RecoverState}
    (h : st.execute t locked call = .committed t') : st.stage = .lockRun [] ∧ ∃ f,
      t.fleet.recoverExpired call.occurredAt (st.retries ++ st.leases) = .ok f ∧
        t' = { t with fleet := f } := by
  cases hst : st.stage with
  | lockRetries =>
    simp only [RecoverState.execute, hst] at h
    split at h <;> cases h
  | lockLeases | lockWorkspace | lockWorker =>
    simp only [RecoverState.execute, hst] at h
    cases h
  | lockRun keys =>
    cases keys with
    | nil =>
      simp only [RecoverState.execute, hst] at h
      split at h
      · cases h
      next f hf =>
        cases h
        exact ⟨rfl, f, hf, rfl⟩
    | cons =>
      simp only [RecoverState.execute, hst] at h
      split at h <;> cases h

theorem outcome_map_running {S P Q : Type} {g : P → Q} {o : Outcome S P} {q : Q}
    (h : o.map g = .running q) : ∃ p, o = .running p ∧ q = g p := by
  cases o with
  | running p =>
    cases h
    exact ⟨p, rfl, rfl⟩
  | committed | rolledBack => cases h

theorem outcome_map_committed {S P Q : Type} {g : P → Q} {o : Outcome S P} {s : S}
    (h : o.map g = .committed s) : o = .committed s := by
  cases o with
  | running | rolledBack => cases h
  | committed =>
    cases h
    rfl

theorem granted_cons {p : QueueTxn} {r r' : QueueRow} {held : List QueueRow} (hr : r ∈ r' :: held)
    (hr' : queueProtocol.request t p = some r' ∨ locked r' = false) :
    r ∈ held ∨ queueProtocol.request t p = some r ∨ locked r = false := by
  rcases mem_cons.mp hr with rfl | h
  · exact .inr hr'
  · exact .inl h

theorem queueProtocol_lawful : queueProtocol.Lawful where
  start := by rintro (call | call | call | call) <;> rfl
  grants := by
    intro t locked p p' h r hr
    cases p with
    | claim =>
      obtain ⟨st', hst, rfl⟩ := outcome_map_running h
      cases ClaimState.running_inv hst with
      | worker _ request | quotaInserted c stage request | quotaLocked c stage request
      | workspaceInserted _ _ request => exact granted_cons hr (.inl request)
      | candidate _ _ found =>
        obtain ⟨-, -, -, -, -, hf⟩ := candidate?_some found
        exact granted_cons hr (.inr hf)
      | workspaceOwned c w stage free found | workspaceFree c w stage free found unowned =>
        exact granted_cons hr (.inr free)
      | quotaFound | full | room | workspaceFound | workspaceBusy => exact .inl hr
    | create =>
      obtain ⟨st', hst, rfl⟩ := outcome_map_running h
      cases CreateState.running_inv hst with
      | session stage request | quotaInserted stage request | quotaLocked stage request
      | admissionInserted row stage request | admissionLocked row stage request =>
        exact granted_cons hr (.inl request)
      | missing | quotaFound | unclaimed | admissionFound => exact .inl hr
    | finish =>
      obtain ⟨st', hst, rfl⟩ := outcome_map_running h
      cases FinishState.running_inv hst with
      | lease _ stage found | workspace w stage found =>
        refine granted_cons hr (.inl ?_)
        simp [queueProtocol, QueueTxn.request, FinishState.request, stage, found]
      | run _ request => exact granted_cons hr (.inl request)
      | noWorkspace => exact .inl hr
    | recoverExpired =>
      obtain ⟨st', hst, rfl⟩ := outcome_map_running h
      cases RecoverState.running_inv hst with
      | retries =>
        rcases mem_append.mp hr with hnew | hold
        · obtain ⟨key, hkey, rfl⟩ := mem_map.mp hnew
          obtain ⟨-, -, -, -, -, hf⟩ := mem_dueRetries hkey
          exact .inr (.inr hf)
        · exact .inl hold
      | leases =>
        rcases mem_append.mp hr with hnew | hold
        · obtain ⟨key, hkey, rfl⟩ := mem_map.mp hnew
          obtain ⟨-, -, -, -, hf⟩ := mem_expiredLeases hkey
          exact .inr (.inr hf)
        · exact .inl hold
      | run key rest stage | workspace key rest stage | worker key rest stage =>
        rcases mem_append.mp hr with hnew | hold
        · exact .inr (.inl (Option.mem_toList.mp hnew))
        · exact .inl hold

end AgentPlatform
