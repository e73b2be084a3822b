/-
**The run queue's invariant.**
-/

import AgentPlatform.StoreHistory

namespace AgentPlatform

open RunStatus RunStore

def RunExecutionResult.invalidity (r : RunExecutionResult) : Option String :=
  if r.status ∉ [.completed, .failed, .cancelled, .waitingApproval, .retryPending] then
    some "worker execution result must release its run lease"
  else if r.status = .failed ∧ r.error = none then
    some "failed worker execution requires an error"
  else if r.status ≠ .failed ∧ r.error ≠ none then
    some "only failed worker execution may include an error"
  else if ¬ (r.status = .retryPending ↔ r.retryDelay ≠ none) then
    some "retry-pending execution requires only a retry delay"
  else none

theorem RunExecutionResult.releases {r : RunExecutionResult} (h : r.invalidity = none) :
    r.status.assigned = false := by
  have hmem : r.status ∈ [.completed, .failed, .cancelled, .waitingApproval, .retryPending] := by
    by_contra hne
    simp [invalidity, hne] at h
  simp only [mem_cons, not_mem_nil, or_false] at hmem
  rcases hmem with h | h | h | h | h <;> simp [h, assigned]

def StoreOp.Valid : StoreOp → Prop
  | .claim w _ _ _ => (∃ given, identifierString? given = some w) ∧ pythonStrip w = w
  | .finish _ r _ => r.invalidity = none
  | _ => True

abbrev QueueOp := { op : StoreOp // op.Valid }

def RunStore.perform (s : RunStore) (op : QueueOp) : RunStore := s.apply op.val

structure Run.Advances (r r' : Run) : Prop where
  attempt : r.attempt ≤ r'.attempt
  executionEpoch : r.executionEpoch ≤ r'.executionEpoch
  leaseGeneration : r.leaseGeneration ≤ r'.leaseGeneration

/-- The row `claim` inserts. -/
def claimedLease (r : Run) (workerId : String) (token : Uuid) (occurredAt expiresAt : Timestamp) :
    RunLeaseRecord :=
  { tenantId := r.tenantId, runId := r.id, workerId := workerId, leaseToken := token
    generation := r.leaseGeneration + 1, acquiredAt := occurredAt
    lastHeartbeatAt := occurredAt, expiresAt := expiresAt }

/-- **Everything a transaction can do to a run's row and its lease row.** -/
inductive QueueStep (r : Run) (l : Option RunLeaseRecord) :
    StoreOp → Run → Option RunLeaseRecord → Prop
  | kept (op : StoreOp) : QueueStep r l op r l
  | claimed {w : String} {t : Uuid} {at' ex : Timestamp} {run : Run}
      (free : l = none) (uncancelled : r.cancellationRequested = false)
      (moved : transitionRun r .leased at' (some w) (some ex) = .ok run) :
      QueueStep r l (.claim w t at' ex) { run with leaseGeneration := r.leaseGeneration + 1 }
        (some (claimedLease r w t at' ex))
  | started {lease : RunLease} {at' : Timestamp} {run : Run} (leased : r.status = .leased)
      (moved : transitionRun r .running at' = .ok run) : QueueStep r l (.start lease at') run l
  | renewed {lease : RunLease} {at' ex : Timestamp} {row : RunLeaseRecord} (held : l = some row)
      (assigned : r.status.assigned = true) :
      QueueStep r l (.heartbeat lease at' ex) { r with leaseExpiresAt := some ex }
        (some { row with lastHeartbeatAt := at', expiresAt := ex })
  | finished {lease : RunLease} {result : RunExecutionResult} {at' : Timestamp} {run run' : Run}
      (moved : transitionRun r
        (if r.cancellationRequested then .cancelled else result.status) at' = .ok run)
      (columns : ∃ checkpoint retry, run' = { run with
        lastCheckpointId := checkpoint, retryReadyAt := retry }) :
      QueueStep r l (.finish lease result at') run' none
  | retried {at' : Timestamp} {run : Run} (pending : r.status = .retryPending)
      (moved : transitionRun r .queued at' = .ok run) :
      QueueStep r l (.recoverExpired at') { run with retryReadyAt := none } l
  | cancelledExpired {at' : Timestamp} {run : Run} (cancelling : r.cancellationRequested = true)
      (moved : transitionRun r .cancelled at' = .ok run) :
      QueueStep r l (.recoverExpired at') run none
  | requeuedExpired {at' : Timestamp} {lost run : Run} (uncancelled : r.cancellationRequested = false)
      (moved : transitionRun r .lost at' = .ok lost)
      (moved' : transitionRun lost .queued at' = .ok run) :
      QueueStep r l (.recoverExpired at') run none
  | discarded {at' : Timestamp} {row : RunLeaseRecord} (held : l = some row)
      (foreign : ¬ (r.leaseGeneration = row.generation ∧ r.assignedWorkerId = some row.workerId ∧
        (r.status = .leased ∨ r.status = .running))) :
      QueueStep r l (.recoverExpired at') r none
  | cancelled {at' : Timestamp} {run : Run} (idle : r.status.unassigned = true)
      (moved : transitionRun r .cancelled at' = .ok run) : QueueStep r l (.requestCancel at') run l
  | cancelling {at' : Timestamp} (assigned : r.status.assigned = true) :
      QueueStep r l (.requestCancel at') { r with cancellationRequested := true } l
  | woken {id : Uuid} {d : ApprovalDecision} {run : Run} (waiting : r.status = .waitingApproval)
      (moved : transitionRun r .queued d.decidedAt = .ok run) : QueueStep r l (.decide id d) run l
  | rewound {id : Uuid} {now : Timestamp} {run : Run} (moved : rewindRun r id = .ok run) :
      QueueStep r l (.rewind id now) { run with retryReadyAt := none } l

section Operations

variable {s s' : RunStore} {lease : RunLease} {at' ex : Timestamp}

theorem claim_queueStep {w : String} {t : Uuid} {lease? : Option RunLease}
    (h : claim s w t at' ex = .ok (lease?, s')) :
    QueueStep s.run s.lease (.claim w t at' ex) s'.run s'.lease := by
  obtain ⟨-, rfl⟩ | ⟨run, -, hf, hfr, hrun, _, rfl, rfl, -⟩ := claim_ok h
  · exact .kept _
  · have hid := (transitionRun_frame hrun).2
    have hs := QueueStep.claimed (t := t) hfr hf hrun
    rw [claimedLease, ← hid.tenantId, ← hid.id] at hs
    exact hs

theorem start_queueStep {lease' : RunLease} (h : start s lease at' = .ok (lease', s')) :
    QueueStep s.run s.lease (.start lease at') s'.run s'.lease := by
  obtain ⟨_, run, -, hl, hrun, rfl, -⟩ := start_ok h
  exact .started hl hrun

theorem heartbeat_queueStep {c : Bool} (h : heartbeat s lease at' ex = .ok (c, s')) :
    QueueStep s.run s.lease (.heartbeat lease at' ex) s'.run s'.lease := by
  obtain ⟨_, hown, ha, rfl⟩ := heartbeat_ok h
  refine .renewed (ownedLeaseRow_ok hown).1 ?_
  rcases ha with hst | hst <;> rw [hst] <;> rfl

theorem finish_queueStep {result : RunExecutionResult} {status : RunStatus}
    (h : finish s lease result at' = .ok (status, s')) :
    QueueStep s.run s.lease (.finish lease result at') s'.run s'.lease := by
  obtain ⟨_, run, -, rfl, hrun, rfl⟩ := finish_ok h
  exact .finished hrun ⟨_, _, rfl⟩

theorem recoverExpired_queueStep (h : recoverExpired s at' = .ok s') :
    QueueStep s.run s.lease (.recoverExpired at') s'.run s'.lease := by
  cases recoverExpired_ok h with
  | kept => exact .kept _
  | retried pending moved => exact .retried pending moved
  | cancelled _ _ _ requested moved => exact .cancelledExpired requested moved
  | requeued _ _ _ unrequested moved moved' =>
    exact .requeuedExpired unrequested moved moved'
  | discarded held foreign => exact .discarded held foreign

theorem requestCancel_queueStep (h : requestCancel s at' = .ok s') :
    QueueStep s.run s.lease (.requestCancel at') s'.run s'.lease := by
  cases requestCancel_ok h with
  | kept => exact .kept _
  | cancelled idle moved => exact .cancelled idle moved
  | cancelling assigned => exact .cancelling assigned

theorem decideApproval_queueStep {id : Uuid} {d : ApprovalDecision} {a? : Option ApprovalRecord}
    (h : decideApproval s id d = .ok (a?, s')) :
    QueueStep s.run s.lease (.decide id d) s'.run s'.lease := by
  obtain rfl | ⟨_, run, -, -, -, rfl, ⟨hw, -, hrun⟩ | ⟨-, rfl⟩⟩ := decideApproval_ok h
  · exact .kept _
  · exact .woken hw hrun
  · exact .kept _

theorem rewind_queueStep {id : Uuid} {now : Timestamp} {r? : Option Run}
    (h : rewind s id now = .ok (r?, s')) :
    QueueStep s.run s.lease (.rewind id now) s'.run s'.lease := by
  obtain ⟨-, rfl⟩ | ⟨_, _, run, -, -, hrun, -, rfl⟩ := rewind_ok h
  · exact .kept _
  · exact .rewound hrun

end Operations

theorem RunStore.queueStep (s : RunStore) (op : StoreOp) :
    QueueStep s.run s.lease op (s.apply op).run (s.apply op).lease := by
  have hou := s.outcome op
  generalize s.apply op = s' at hou ⊢
  cases hou with
  | kept => exact .kept op
  | claim ho => exact claim_queueStep ho
  | start ho => exact start_queueStep ho
  | heartbeat ho => exact heartbeat_queueStep ho
  | saveToolCall ho =>
    obtain ⟨-, -, row, -, rfl⟩ := saveToolCallFenced_inv ho
    exact .kept _
  | createApproval ho =>
    obtain ⟨-, -, -, ⟨-, rfl⟩ | ⟨-, -, rfl⟩⟩ := createApprovalFenced_inv ho <;> exact .kept _
  | createCheckpoint ho =>
    obtain ⟨-, -, ⟨-, rfl⟩ | ⟨-, -, rfl⟩⟩ := createCheckpointFenced_inv ho <;> exact .kept _
  | completeCheckpoint ho =>
    obtain ⟨-, row, -, -, rfl⟩ := completeCheckpointFenced_inv ho
    exact .kept _
  | appendTranscript ho =>
    obtain ⟨-, _, rfl, -⟩ := appendTranscriptFenced_inv ho
    exact .kept _
  | finish ho => exact finish_queueStep ho
  | recoverExpired ho => exact recoverExpired_queueStep ho
  | requestCancel ho => exact requestCancel_queueStep ho
  | decide ho => exact decideApproval_queueStep ho
  | rewind ho => exact rewind_queueStep ho

structure RunLeaseRecord.Mirrors (row : RunLeaseRecord) (r : Run) : Prop where
  tenantId : row.tenantId = r.tenantId
  runId : row.runId = r.id
  generation : row.generation = r.leaseGeneration
  worker : r.assignedWorkerId = some row.workerId
  expiry : r.leaseExpiresAt = some row.expiresAt

structure QueueInvariant (r : Run) (l : Option RunLeaseRecord) : Prop where
  leased : r.status.assigned = true ↔ l.isSome = true
  mirrored : ∀ row ∈ l, row.Mirrors r
  waiting : r.status.unassigned = true → l = none ∧ r.cancellationRequested = false
  epoch : r.executionEpoch ≤ r.attempt

open QueueInvariant

theorem RunStatus.assigned_of_unassigned {status : RunStatus} (h : status.unassigned) :
    status.assigned = false := by
  cases status <;> simp_all [assigned, unassigned]

variable {r r' : Run} {new : RunStatus} {at' : Timestamp}

theorem QueueInvariant.released (ha : r.status.assigned = false)
    (hw : r.status.unassigned → r.cancellationRequested = false)
    (hep : r.executionEpoch ≤ r.attempt) : QueueInvariant r none where
  leased := by simp [ha]
  mirrored := by simp
  waiting := fun h => ⟨rfl, hw h⟩
  epoch := hep

theorem transitionRun_columns {w : Option String} {e : Option Timestamp}
    (h : transitionRun r new at' w e = .ok r') :
    (r'.attempt = if new = .queued ∧ (r.status = .retryPending ∨ r.status = .lost)
      then r.attempt + 1 else r.attempt) ∧
    (∀ t ∈ r.startedAt, t ∈ r'.startedAt) ∧
    ∀ v ∈ r'.assignedWorkerId,
      v ∈ r.assignedWorkerId ∨ new = .leased ∧ v = pythonStrip (w.getD "") := by
  obtain ⟨-, hd⟩ := transitionRun_inv h
  cases new with
  | leased =>
    cases e with
    | none => simp [transitionData, domainError] at hd
    | some =>
      simp only [transitionData] at hd
      split at hd
      · simp [domainError] at hd
      · split at hd
        · simp [domainError] at hd
        · cases hd
          simp
  | _ =>
    simp only [transitionData, Except.ok.injEq] at hd
    subst hd
    simp_all

theorem transitionRun_attempt {w : Option String} {e : Option Timestamp}
    (h : transitionRun r new at' w e = .ok r') : r.attempt ≤ r'.attempt := by
  rw [(transitionRun_columns h).1]
  split <;> omega

theorem transitionRun_advances {w : Option String} {e : Option Timestamp}
    (h : transitionRun r new at' w e = .ok r') : r.Advances r' :=
  have hid := (transitionRun_frame h).2
  ⟨transitionRun_attempt h, hid.executionEpoch.ge, hid.leaseGeneration.ge⟩

theorem transitionRun_cancellation (h : transitionRun r new at' = .ok r') (hnew : new ≠ .cancelled)
    : r'.cancellationRequested = r.cancellationRequested := by
  obtain ⟨-, hd⟩ := transitionRun_inv h
  cases new with
  | cancelled => exact absurd rfl hnew
  | leased => simp [transitionData, domainError] at hd
  | _ =>
    simp only [transitionData, Except.ok.injEq] at hd
    subst hd
    rfl

theorem QueueInvariant.of_transition (h : transitionRun r new at' = .ok r')
    (hnew : new.assigned = false) (hf : new.unassigned → r.cancellationRequested = false)
    (hep : r.executionEpoch ≤ r.attempt) : QueueInvariant r' none := by
  obtain ⟨hs, hid⟩ := transitionRun_frame h
  apply released
  · rw [hs]
    exact hnew
  · intro hw
    rw [hs] at hw
    have hne : new ≠ .cancelled := by
      rintro rfl
      simp [unassigned] at hw
    rw [transitionRun_cancellation h hne]
    exact hf hw
  · rw [hid.executionEpoch]
    exact hep.trans (transitionRun_attempt h)

theorem transitionRun_leased {run : Run} {w : String} {ex : Timestamp}
    (h : transitionRun r .leased at' (some w) (some ex) = .ok run) :
    run = { r with
      status := .leased, assignedWorkerId := some (pythonStrip w), leaseExpiresAt := some ex } := by
  obtain ⟨-, hd⟩ := transitionRun_inv h
  simp only [transitionData, getD_some] at hd
  split at hd
  · simp [domainError] at hd
  split at hd
  · simp [domainError] at hd
  exact (Except.ok.inj hd).symm

theorem QueueInvariant.claimed {run : Run} {w : String} {t : Uuid} {ex : Timestamp}
    (h : QueueInvariant r none) (hw : pythonStrip w = w)
    (hm : transitionRun r .leased at' (some w) (some ex) = .ok run) :
    QueueInvariant { run with leaseGeneration := r.leaseGeneration + 1 }
      (some (claimedLease r w t at' ex)) := by
  have hrun := transitionRun_leased hm
  rw [hw] at hrun
  subst hrun
  exact
    { leased := by simp [assigned]
      mirrored := by
        rintro _ ⟨⟩
        exact ⟨rfl, rfl, rfl, rfl, rfl⟩
      waiting := by simp [unassigned]
      epoch := h.epoch }

theorem QueueStep.queueInvariant {l l' : Option RunLeaseRecord} {op : StoreOp}
    (h : QueueStep r l op r' l') (hop : op.Valid) (hi : QueueInvariant r l) :
    QueueInvariant r' l' := by
  cases h with
  | kept => exact hi
  | claimed free _ moved =>
    subst free
    exact hi.claimed hop.2 moved
  | started leased moved =>
    obtain ⟨-, hd⟩ := transitionRun_inv moved
    simp only [transitionData, Except.ok.injEq] at hd
    subst hd
    exact
      { leased := by simpa [leased, RunStatus.assigned] using hi.leased
        mirrored := by
          intro row hrow
          obtain ⟨h₁, h₂, h₃, h₄, h₅⟩ := hi.mirrored row hrow
          exact ⟨h₁, h₂, h₃, h₄, h₅⟩
        waiting := by simp [unassigned]
        epoch := hi.epoch }
  | @renewed _ _ _ row held assigned =>
    subst held
    obtain ⟨h₁, h₂, h₃, h₄, -⟩ := hi.mirrored row rfl
    exact
      { leased := hi.leased
        mirrored := by
          rintro _ ⟨⟩
          exact ⟨h₁, h₂, h₃, h₄, rfl⟩
        waiting := by
          intro hw
          have hna := assigned_of_unassigned hw
          simp [hna] at assigned
        epoch := hi.epoch }
  | @finished _ _ _ run _ moved columns =>
    obtain ⟨_, _, rfl⟩ := columns
    have hval := RunExecutionResult.releases hop
    have hrun : QueueInvariant run none := by
      apply of_transition moved
      · by_cases hc : r.cancellationRequested
        · simp [hc, RunStatus.assigned]
        · simpa [hc] using hval
      · intro hw
        by_contra hc
        rw [if_pos (by simpa using hc)] at hw
        cases hw
      · exact hi.epoch
    obtain ⟨h₁, h₂, h₃, h₄⟩ := hrun
    exact ⟨h₁, by simp, h₃, h₄⟩
  | retried pending moved =>
    have hw := hi.waiting (by rw [pending]; rfl)
    rw [hw.1]
    obtain ⟨h₁, h₂, h₃, h₄⟩ :=
      of_transition moved rfl (fun _ => hw.2) hi.epoch
    exact ⟨h₁, by simp, h₃, h₄⟩
  | cancelledExpired _ moved =>
    exact .of_transition moved rfl (by simp [unassigned]) hi.epoch
  | requeuedExpired uncancelled moved moved' =>
    have hl := transitionRun_cancellation moved (by decide)
    have hep := (of_transition moved rfl (fun _ => uncancelled) hi.epoch).epoch
    exact .of_transition moved' rfl (fun _ => hl.trans uncancelled) hep
  | @discarded _ row held foreign =>
    -- a stored lease is never foreign to its run
    subst held
    have hm := hi.mirrored row rfl
    have ha : r.status = .leased ∨ r.status = .running := by
      have := hi.leased.2 rfl
      cases hst : r.status <;> simp [hst, RunStatus.assigned] at this ⊢
    exact absurd ⟨hm.generation.symm, hm.worker, ha⟩ foreign
  | cancelled idle moved =>
    rw [(hi.waiting idle).1]
    exact .of_transition moved rfl (by simp [unassigned]) hi.epoch
  | cancelling assigned =>
    exact
      { leased := hi.leased
        mirrored := by
          intro row hrow
          obtain ⟨h₁, h₂, h₃, h₄, h₅⟩ := hi.mirrored row hrow
          exact ⟨h₁, h₂, h₃, h₄, h₅⟩
        waiting := by
          intro hw
          have hna := assigned_of_unassigned hw
          simp [hna] at assigned
        epoch := hi.epoch }
  | woken waiting moved =>
    have hw := hi.waiting (by rw [waiting]; rfl)
    rw [hw.1]
    exact .of_transition moved rfl (fun _ => hw.2) hi.epoch
  | rewound moved =>
    obtain ⟨hr, rfl⟩ := rewindRun_eq moved
    have hn : l = none := by
      have ha : r.status.assigned = false := by
        cases hst : r.status <;> simp [hst, rewindable, RunStatus.assigned] at hr ⊢
      have hnot := mt hi.leased.2 (by simp [ha])
      simpa using hnot
    rw [hn]
    exact .released rfl (fun _ => rfl) (Nat.succ_le_succ hi.epoch)

theorem QueueStep.advances {l l' : Option RunLeaseRecord} {op : StoreOp}
    (h : QueueStep r l op r' l') : r.Advances r' := by
  cases h with
  | kept | renewed | discarded | cancelling => exact ⟨le_rfl, le_rfl, le_rfl⟩
  | claimed _ _ moved =>
    obtain ⟨h₁, h₂, -⟩ := transitionRun_advances moved
    exact ⟨h₁, h₂, Nat.le_succ _⟩
  | started _ moved | cancelledExpired _ moved | cancelled _ moved | woken _ moved =>
    exact transitionRun_advances moved
  | finished moved columns =>
    obtain ⟨_, _, rfl⟩ := columns
    obtain ⟨h₁, h₂, h₃⟩ := transitionRun_advances moved
    exact ⟨h₁, h₂, h₃⟩
  | retried _ moved =>
    obtain ⟨h₁, h₂, h₃⟩ := transitionRun_advances moved
    exact ⟨h₁, h₂, h₃⟩
  | requeuedExpired _ moved moved' =>
    obtain ⟨h₁, h₂, h₃⟩ := transitionRun_advances moved
    obtain ⟨h₁', h₂', h₃'⟩ := transitionRun_advances moved'
    exact ⟨h₁.trans h₁', h₂.trans h₂', h₃.trans h₃'⟩
  | rewound moved =>
    obtain ⟨-, rfl⟩ := rewindRun_eq moved
    exact ⟨Nat.le_succ _, Nat.le_succ _, le_rfl⟩

theorem queueInvariant_submit (x : Submission) :
    QueueInvariant (submit x).run (submit x).lease :=
  .released rfl (fun _ => rfl) le_rfl

theorem queueInvariant_foldl {s : RunStore} (h : QueueInvariant s.run s.lease)
    (ops : List QueueOp) :
    QueueInvariant (ops.foldl perform s).run (ops.foldl perform s).lease := by
  induction ops generalizing s with
  | nil => exact h
  | cons op _ ih =>
    have hs := (s.queueStep op.val).queueInvariant op.property h
    exact ih hs

/-- A claim keeps the invariant exactly when `transition_run` leaves the worker's id as it is: the
lease row keeps the id given, the run the stripped one. -/
theorem QueueInvariant.claim_iff {s s' : RunStore} {w : String} {t : Uuid} {ex : Timestamp}
    {lease : RunLease} (hi : QueueInvariant s.run s.lease)
    (h : claim s w t at' ex = .ok (some lease, s')) :
    QueueInvariant s'.run s'.lease ↔ pythonStrip w = w := by
  obtain ⟨hnone, -⟩ | ⟨run, -, -, hfree, moved, row, rfl, rfl, -⟩ := claim_ok h
  · cases hnone
  obtain ⟨-, hid⟩ := transitionRun_frame moved
  rw [hfree] at hi
  constructor
  · intro h'
    have hw := (h'.mirrored _ rfl).worker
    rw [transitionRun_leased moved] at hw
    exact Option.some.inj hw
  · intro hw
    have h' := hi.claimed (t := t) hw moved
    rwa [claimedLease, ← hid.tenantId, ← hid.id] at h'

/-- **The run queue's invariant**, for workers whose ids `str.strip` leaves as they are; a claim
with any other id breaks it. -/
theorem queueInvariant_history (x : Submission) (ops : List QueueOp) :
    QueueInvariant (ops.foldl RunStore.perform (submit x)).run
        (ops.foldl RunStore.perform (submit x)).lease ∧
      (∀ op : QueueOp, (ops.foldl RunStore.perform (submit x)).run.Advances
        ((ops.foldl RunStore.perform (submit x)).perform op).run) ∧ ∀ w t at' ex lease s',
        claim (ops.foldl RunStore.perform (submit x)) w t at' ex = .ok (some lease, s') →
          (ops.foldl RunStore.perform (submit x)).run.leaseGeneration < s'.run.leaseGeneration ∧
          (QueueInvariant s'.run s'.lease ↔ pythonStrip w = w) := by
  have hinv := queueInvariant_foldl (queueInvariant_submit x) ops
  refine ⟨hinv, ?_, ?_⟩
  · intro op
    exact (RunStore.queueStep _ op.val).advances
  · intro w t at' ex lease s' hclaim
    refine ⟨?_, hinv.claim_iff hclaim⟩
    obtain ⟨hnone, -⟩ | ⟨_, -, -, -, -, -, -, -, -, hgeneration, -⟩ := claim_inv hclaim
    · cases hnone
    · rw [hgeneration]
      exact Nat.lt_succ_self _

theorem claimed_worker_stripped : identifierString? "w\x1f" = some "w\x1f" ∧
    ∃ lease s', claim (submit ⟨1, 2, 3, 4, "main", .requireAll, 5, "task", untaskedPlan, 0⟩) "w\x1f"
      6 3 9 = .ok (some lease, s') ∧ ¬ QueueInvariant s'.run s'.lease := by
  refine ⟨by decide, _, _, rfl, fun h => ?_⟩
  have hworker := (h.mirrored _ rfl).worker
  exact absurd hworker (by decide)

theorem QueueStep.of_terminal {l l' : Option RunLeaseRecord} {op : StoreOp}
    (h : QueueStep r l op r' l') (ht : r.status.terminal) :
    r' = r ∨ ∃ id now, op = .rewind id now := by
  have hfinal : ∀ new, new ∉ allowedRunTransitions r.status := by
    cases hs : r.status <;> simp_all [terminal, allowedRunTransitions]
  cases h with
  | kept | discarded => exact .inl rfl
  | rewound => exact .inr ⟨_, _, rfl⟩
  | renewed _ ha | cancelling ha => cases hs : r.status <;> simp_all [terminal, assigned]
  | claimed _ _ h | started _ h | finished h | retried _ h | cancelledExpired _ h
  | requeuedExpired _ h | cancelled _ h | woken _ h => cases hfinal _ (transitionRun_allowed h)

/-- **A run that has ended stays as it is until it is rewound.** -/
theorem ended_until_rewound (s : RunStore) (ops : List StoreOp) (ht : s.run.status.terminal)
    (hops : ∀ id now, .rewind id now ∉ ops) : (ops.foldl apply s).run = s.run := by
  induction ops generalizing s with
  | nil => rfl
  | cons op ops ih =>
    simp only [mem_cons, not_or] at hops
    obtain heq | ⟨id, now, rfl⟩ := (s.queueStep op).of_terminal ht
    · exact (ih _ (heq ▸ ht) fun id now => (hops id now).2).trans heq
    · cases (hops id now).1 rfl

theorem cancelled_until_rewound :
    ([.recoverExpired 2, .claim "w" 6 3 9].foldl RunStore.apply ((submit
      ⟨1, 2, 3, 4, "main", .requireAll, 5, "task", untaskedPlan, 0⟩).apply (.requestCancel 1))).run.status =
        .cancelled := by
  rw [ended_until_rewound _ _ rfl (by simp)]
  rfl

end AgentPlatform
