/-
**A suspended run and the decision that wakes it.**
-/

import AgentPlatform.StoreHistory

namespace AgentPlatform

open RunStore

def LostWakeup (s : RunStore) : Prop :=
  s.run.status = .waitingApproval ∧ s.pendingApprovals s.run.executionEpoch = []

instance (s : RunStore) : Decidable (LostWakeup s) := by
  unfold LostWakeup
  infer_instance

/-- A `finish` that suspends the run commits while an approval of the current epoch is undecided. -/
def SuspendsWhilePending (s : RunStore) : StoreOp → Prop
  | .finish lease result occurredAt =>
    ∀ s', finish s lease result occurredAt = .ok (.waitingApproval, s') →
      s.pendingApprovals s.run.executionEpoch ≠ []
  | _ => True

variable {s s' : RunStore} {at' : Timestamp}

theorem RunStore.pendingApprovals_congr (h : s'.approvals = s.approvals) (epoch : ℕ)
    : s'.pendingApprovals epoch = s.pendingApprovals epoch := by
  simp only [pendingApprovals, h]

theorem not_lostWakeup_of_same (h : ¬ LostWakeup s)
    (hst : s'.run.status = .waitingApproval → s.run.status = .waitingApproval)
    (hep : s'.run.executionEpoch = s.run.executionEpoch) (ha : s'.approvals = s.approvals) :
    ¬ LostWakeup s' := by
  rintro ⟨hw, hp⟩
  rw [hep, pendingApprovals_congr ha] at hp
  exact h ⟨hst hw, hp⟩

theorem not_lostWakeup_of_status {status : RunStatus} (h : s.run.status = status)
    (hne : status ≠ .waitingApproval) : ¬ LostWakeup s := by
  rintro ⟨hw, -⟩
  exact hne (h.symm.trans hw)

theorem not_lostWakeup_claim {w : String} {t : Uuid} {ex : Timestamp} {l? : Option RunLease}
    (h : ¬ LostWakeup s) (ho : claim s w t at' ex = .ok (l?, s')) : ¬ LostWakeup s' := by
  obtain ⟨-, rfl⟩ | ⟨_, -, -, hst, -⟩ := claim_inv ho
  · exact h
  · exact not_lostWakeup_of_status hst (by simp)

theorem not_lostWakeup_createApproval {l : RunLease} {now : Timestamp} {a r : ApprovalRecord}
    (h : ¬ LostWakeup s) (ho : createApprovalFenced s l now a = .ok (r, s')) : ¬ LostWakeup s' := by
  obtain ⟨-, -, -, ⟨-, rfl⟩ | ⟨-, -, rfl⟩⟩ := createApprovalFenced_inv ho
  · exact h
  · rintro ⟨hw, hp⟩
    refine h ⟨hw, ?_⟩
    simp only [pendingApprovals, filter_append, List.append_eq_nil_iff] at hp ⊢
    exact hp.1

theorem not_lostWakeup_decide {id : Uuid} {d : ApprovalDecision} {a? : Option ApprovalRecord}
    (h : ¬ LostWakeup s) (ho : decideApproval s id d = .ok (a?, s')) : ¬ LostWakeup s' := by
  obtain rfl | ⟨_, -, -, -, -, -, -, -, -, hid, ⟨-, -, hst⟩ | ⟨hm, hrun⟩⟩ := decideApproval_inv ho
  · exact h
  · exact not_lostWakeup_of_status hst (by simp)
  · rintro ⟨hw, hp⟩
    rw [hrun] at hw
    rw [hid.executionEpoch] at hp
    exact hm ⟨hw, hp⟩

theorem not_lostWakeup_requestCancel (h : ¬ LostWakeup s) (ho : requestCancel s at' = .ok s')
    : ¬ LostWakeup s' := by
  obtain ⟨ht, hid, hst | ⟨hst, -⟩⟩ := requestCancel_inv ho
  · exact not_lostWakeup_of_status hst (by simp)
  · exact not_lostWakeup_of_same h (fun hw => hst ▸ hw) hid.executionEpoch ht.approvals

theorem not_lostWakeup_recoverExpired (h : ¬ LostWakeup s) (ho : recoverExpired s at' = .ok s')
    : ¬ LostWakeup s' := by
  obtain ⟨ht, hid, hst | hst | hst⟩ := recoverExpired_inv ho
  · exact not_lostWakeup_of_same h (fun hw => hst ▸ hw) hid.executionEpoch ht.approvals
  · exact not_lostWakeup_of_status hst (by simp)
  · exact not_lostWakeup_of_status hst (by simp)

/-- **What `finish` does to the property**. -/
theorem lostWakeup_finish_iff {l : RunLease} {r : RunExecutionResult} {status : RunStatus}
    (ho : finish s l r at' = .ok (status, s')) :
    LostWakeup s' ↔ status = .waitingApproval ∧ s.pendingApprovals s.run.executionEpoch = [] := by
  obtain ⟨-, -, hst, ht, hep, -⟩ := finish_inv ho
  simp only [LostWakeup, hst, hep, pendingApprovals_congr ht.approvals]

theorem not_lostWakeup_outcome {op : StoreOp} (h : ¬ LostWakeup s) (hou : s.Outcome op s')
    (hop : ∀ l r at', op ≠ .finish l r at') : ¬ LostWakeup s' := by
  have same : ∀ {s' : RunStore}, s'.run = s.run → s'.approvals = s.approvals → ¬ LostWakeup s' :=
    fun hrun ha => not_lostWakeup_of_same h (fun hw => hrun ▸ hw) (by rw [hrun]) ha
  cases hou with
  | kept => exact h
  | claim ho => exact not_lostWakeup_claim h ho
  | start ho => exact not_lostWakeup_of_status (start_inv ho).1 (by simp)
  | heartbeat ho =>
    obtain ⟨hst, ht, hid⟩ := heartbeat_inv ho
    exact not_lostWakeup_of_same h (fun hw => hst ▸ hw) hid.executionEpoch ht.approvals
  | saveToolCall ho =>
    obtain ⟨-, -, row, -, rfl⟩ := saveToolCallFenced_inv ho
    exact same rfl rfl
  | createApproval ho => exact not_lostWakeup_createApproval h ho
  | createCheckpoint ho =>
    obtain ⟨-, -, ⟨-, rfl⟩ | ⟨-, -, rfl⟩⟩ := createCheckpointFenced_inv ho <;> exact same rfl rfl
  | completeCheckpoint ho =>
    obtain ⟨-, row, -, -, rfl⟩ := completeCheckpointFenced_inv ho
    exact same rfl rfl
  | appendTranscript ho =>
    obtain ⟨-, _, rfl, -⟩ := appendTranscriptFenced_inv ho
    exact same rfl rfl
  | finish => exact absurd rfl (hop _ _ _)
  | recoverExpired ho => exact not_lostWakeup_recoverExpired h ho
  | requestCancel ho => exact not_lostWakeup_requestCancel h ho
  | decide ho => exact not_lostWakeup_decide h ho
  | rewind ho =>
    obtain rfl | ⟨_, -, -, hst, -⟩ := rewind_inv ho
    · exact h
    · exact not_lostWakeup_of_status hst (by simp)

theorem lostWakeup_apply_iff (s : RunStore) (op : StoreOp) (h : ¬ LostWakeup s) :
    SuspendsWhilePending s op ↔ ¬ LostWakeup (s.apply op) := by
  cases op with
  | finish l r at' =>
    constructor
    · intro hp
      obtain he | ⟨_, ho⟩ := s.commit_cases (finish s l r at')
      · simpa only [RunStore.apply, he] using h
      · rw [RunStore.apply, lostWakeup_finish_iff ho]
        rintro ⟨rfl, hn⟩
        exact hp _ ho hn
    · intro hl s' ho hn
      apply hl
      rw [RunStore.apply, ho]
      exact (lostWakeup_finish_iff ho).2 ⟨rfl, hn⟩
  | _ =>
    refine iff_of_true trivial (not_lostWakeup_outcome h (s.outcome _) ?_)
    intro _ _ _ hop
    cases hop

/-- **No wakeup is lost exactly when every suspension commits while an approval is undecided**. -/
theorem no_lostWakeup_iff (x : Submission) (ops : List StoreOp) :
    (∀ past, past <+: ops → ¬ LostWakeup (past.foldl RunStore.apply (submit x))) ↔
      History.Admissible RunStore.apply SuspendsWhilePending (submit x) ops := by
  have h0 : ¬ LostWakeup (submit x) :=
    not_lostWakeup_of_status (show (submit x).run.status = .queued from rfl) (by simp)
  exact (History.Admissible.iff_along lostWakeup_apply_iff h0).symm

def raceSubmission : Submission :=
  { tenantId := 1, runId := 2, sessionId := 3, workspaceId := 4, routeName := "default"
    approvalMode := .requireAll, messageId := 5, task := "list the files", plan := untaskedPlan
    createdAt := 0 }

def raceLease : RunLease :=
  { tenantId := 1, runId := 2, sessionId := 3, workspaceId := 4, workerId := "worker-1"
    routeName := "default", leaseToken := 10, generation := 1, attempt := 1, executionEpoch := 1
    acquiredAt := 1, expiresAt := 100, checkpointId := none, cancellationRequested := false }

def raceCall (status : ToolCallStatus) : ToolCall :=
  { id := "call-1", runId := 2, turnNumber := 1, toolName := "list_files", arguments := .nil
    argumentHash := "44136fa355b3678a1146ad16f7e8649e94fb4fc21fe77e8310c060f61caaff8a"
    status := status }

def raceHistory : List StoreOp :=
  [.claim "worker-1" 10 1 100, .start raceLease 2, .saveToolCall raceLease 3 (raceCall .received),
   .saveToolCall raceLease 4 (raceCall .waitingApproval), .createApproval raceLease 5
     { id := 20, toolCallId := "call-1", status := .pending, arguments := .nil, requestedAt := 5
       reason := "Session policy requires confirmation before list_files." },
   .decide 20 { approved := true, decidedBy := "reviewer-1", decidedAt := 6 },
   .finish raceLease { status := .waitingApproval } 7]

theorem lostWakeup_decided_before_finish :
    LostWakeup (raceHistory.foldl RunStore.apply (submit raceSubmission)) := by
  decide

end AgentPlatform
