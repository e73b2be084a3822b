/-
**Fencing: a lease that was removed can do nothing any more.**
-/

import AgentPlatform.FleetSteps

namespace AgentPlatform

open Fleet RunLeaseRecord RunStore

def FleetOp.presented : FleetOp → Option Uuid
  | .start l _ | .heartbeat l _ _ | .finish l _ _ | .acquire l _ _ _ | .appendEvent l _ _ _ _
  | .write l _ _ => some l.leaseToken
  | .heartbeatWorkspace l _ _ => some l.runLeaseToken
  | .authorize q _ => some q.leaseToken
  | .submit _ | .registerWorker _ | .heartbeatWorker .. | .setWorkerDraining .. | .claim ..
  | .recoverExpired .. | .control .. | .release _ => none

variable {lease : RunLease} {f f' : Fleet} {s s' : RunStore} {at' : Timestamp}

variable {row : RunLeaseRecord} {now ex : Timestamp}

theorem RunLeaseRecord.matches_token (h : row.matches lease)
    : row.leaseToken = lease.leaseToken := by
  simp only [RunLeaseRecord.matches, and_eq_true, decide_eq_true_eq] at h
  exact h.1.2

theorem Fleet.hasLease_of_row {r : FleetRun} (hr : r ∈ f.runs) (hrow : r.store.lease = some row)
    : f.HasLease row.leaseToken :=
  ⟨r, hr, by simp [hrow]⟩

theorem RunStore.leaseActive_stored (h : s.leaseActive lease now) :
    s.lease.any (·.leaseToken = lease.leaseToken) = true := by
  simp only [leaseActive, and_eq_true, Option.any_eq_true] at h
  obtain ⟨⟨_, hrow, hm, -⟩, -⟩ := h
  simp [hrow, matches_token hm]

theorem Fleet.onRun_lost {α : Type} {a : α} {e : Failure}
    {g : RunStore → Except Failure (α × RunStore)}
    (h : f.onRun lease.tenantId lease.runId (.error e) g = .ok (a, f'))
    (hg : ∀ s s', g s = .ok (a, s') → s.lease.any (·.leaseToken = lease.leaseToken) = true) :
    f.HasLease lease.leaseToken := by
  obtain ⟨hm, -⟩ | ⟨r, s, hr, hs, -⟩ := onRun_ok h
  · cases hm
  · exact ⟨r, mem_of_run? hr, hg _ _ hs⟩

theorem ownedLeaseRow_token (h : ownedLeaseRow s lease at' = .ok row) :
    s.lease.any (·.leaseToken = lease.leaseToken) = true := by
  obtain ⟨hrow, hm, -, -⟩ := ownedLeaseRow_ok h
  simp [hrow, matches_token hm]

theorem start_token {lease' : RunLease} (h : start s lease at' = .ok (lease', s')) :
    s.lease.any (·.leaseToken = lease.leaseToken) = true := by
  obtain ⟨_, _, hown, -⟩ := start_ok h
  exact ownedLeaseRow_token hown

theorem heartbeat_token {c : Bool} (h : heartbeat s lease at' ex = .ok (c, s')) :
    s.lease.any (·.leaseToken = lease.leaseToken) = true := by
  obtain ⟨_, hown, -⟩ := heartbeat_ok h
  exact ownedLeaseRow_token hown

theorem finish_token {result : RunExecutionResult} {status : RunStatus}
    (h : finish s lease result at' = .ok (status, s')) :
    s.lease.any (·.leaseToken = lease.leaseToken) = true := by
  obtain ⟨_, _, hown, -⟩ := finish_ok h
  exact ownedLeaseRow_token hown

theorem FencedWrite.token {w : FencedWrite} {u : Unit} (h : w.transaction lease now s = .ok (u, s'))
    : s.lease.any (·.leaseToken = lease.leaseToken) = true := by
  suffices ha : s.leaseActive lease now = true from leaseActive_stored ha
  cases w with
  | saveToolCall =>
    obtain ⟨p, hp, -⟩ := except_map_ok h
    exact (saveToolCallFenced_inv hp).1
  | createApproval =>
    obtain ⟨p, hp, -⟩ := except_map_ok h
    exact (createApprovalFenced_inv hp).1
  | createCheckpoint =>
    obtain ⟨p, hp, -⟩ := except_map_ok h
    exact (createCheckpointFenced_inv hp).1
  | completeCheckpoint => exact (completeCheckpointFenced_inv h).1
  | appendTranscript => exact (appendTranscriptFenced_inv h).1

theorem Fleet.acquire_token {token : Uuid} {result : Option WorkspaceWriterLease}
    (h : f.acquire lease token at' ex = .ok (result, f')) : f.HasLease lease.leaseToken := by
  unfold acquire at h
  cases hr : f.run? lease.tenantId lease.runId with
  | none => rw [hr] at h; cases h
  | some r =>
    rw [hr] at h
    dsimp only at h
    cases hl : r.store.lease with
    | none => rw [hl] at h; cases h
    | some row =>
      rw [hl] at h
      dsimp only at h
      by_cases hm : row.matches lease
      · rw [← matches_token hm]
        exact hasLease_of_row (mem_of_run? hr) hl
      · rw [if_pos hm] at h
        cases h

theorem Fleet.heartbeatWorkspace_token {lease lease' : WorkspaceWriterLease}
    (h : f.heartbeatWorkspace lease at' ex = .ok (lease', f')) :
    f.HasLease lease.runLeaseToken := by
  unfold heartbeatWorkspace at h
  cases hl : (f.run? lease.tenantId lease.runId).bind (·.store.lease) with
  | none => rw [hl] at h; cases h
  | some =>
    rw [hl] at h
    obtain ⟨_, hr, hrow⟩ := Option.bind_eq_some_iff.1 hl
    cases hw : f.workspace? lease.tenantId lease.workspaceId with
    | none => rw [hw] at h; cases h
    | some =>
      rw [hw] at h
      dsimp only at h
      split at h
      next hown =>
        rw [← hown.1]
        exact hasLease_of_row (mem_of_run? hr) hrow
      · cases h

theorem Fleet.appendIdempotentFenced_token {key : String} {body : EventBody}
    {event : AgentEventRecord}
    (h : f.appendIdempotentFenced lease now key body at' = .ok (event, f')) :
    f.HasLease lease.leaseToken := by
  obtain ⟨r, _, hr, ha, -⟩ := appendIdempotentFenced_ok h
  exact ⟨r, mem_of_run? hr, leaseActive_stored ha⟩

theorem Fleet.authorized_token {q : SandboxRequest} (h : f.authorized q at')
    : f.HasLease q.leaseToken := by
  unfold authorized at h
  cases hr : f.run? q.tenantId q.runId with
  | none => rw [hr] at h; cases h
  | some =>
    rw [hr] at h
    cases hw : f.workspace? q.tenantId q.workspaceId with
    | none => rw [hw] at h; cases h
    | some =>
      rw [hw] at h
      simp only [and_eq_true, Option.any_eq_true, decide_eq_true_eq] at h
      obtain ⟨⟨⟨⟨⟨⟨⟨⟨_, hrow, hm⟩, -⟩, -⟩, -⟩, -⟩, -⟩, -⟩, -⟩ := h
      rw [← hm.1.1.2]
      exact hasLease_of_row (mem_of_run? hr) hrow

theorem Fleet.hasLease_of_perform {op : FleetOp} {token : Uuid} (hop : op.presented = some token)
    (h : f.perform op = .ok f') : f.HasLease token := by
  cases op with
  | start =>
    cases hop
    obtain ⟨p, hp, -⟩ := except_map_ok h
    exact onRun_lost hp fun _ _ hs => start_token hs
  | heartbeat =>
    cases hop
    obtain ⟨p, hp, -⟩ := except_map_ok h
    exact onRun_lost hp fun _ _ hs => heartbeat_token hs
  | finish =>
    cases hop
    obtain ⟨p, hp, -⟩ := except_map_ok h
    obtain ⟨r, _, hr, hs, -⟩ := Fleet.finish_inv hp
    exact ⟨r, mem_of_run? hr, finish_token hs⟩
  | acquire =>
    cases hop
    obtain ⟨p, hp, -⟩ := except_map_ok h
    exact acquire_token hp
  | heartbeatWorkspace =>
    cases hop
    obtain ⟨p, hp, -⟩ := except_map_ok h
    exact heartbeatWorkspace_token hp
  | appendEvent =>
    cases hop
    obtain ⟨p, hp, -⟩ := except_map_ok h
    exact appendIdempotentFenced_token hp
  | write =>
    cases hop
    obtain ⟨p, hp, -⟩ := except_map_ok h
    exact onRun_lost hp fun _ _ hs => FencedWrite.token hs
  | authorize =>
    cases hop
    obtain ⟨_, hu, -⟩ := except_map_ok h
    unfold authorizeSandboxLease at hu
    split at hu
    next ha => exact authorized_token ha
    · cases hu
  | submit | registerWorker | heartbeatWorker | setWorkerDraining | claim | recoverExpired | control
  | release => cases hop

theorem Fleet.authorized_unique {q q' : SandboxRequest} {at'' : Timestamp}
    (h : f.authorized q at') (h' : f.authorized q' at'')
    (ht : q.tenantId = q'.tenantId) (hwo : q.workspaceId = q'.workspaceId) :
    q.runId = q'.runId ∧ q.leaseToken = q'.leaseToken := by
  have owner : ∀ {q : SandboxRequest} {t : Timestamp}, f.authorized q t = true →
      ∃ w o, f.workspace? q.tenantId q.workspaceId = some w ∧ w.owner = some o ∧
        o.runId = q.runId ∧ o.runLeaseToken = q.leaseToken := by
    intro q t hq
    unfold authorized at hq
    cases hr : f.run? q.tenantId q.runId with
    | none => rw [hr] at hq; cases hq
    | some =>
      rw [hr] at hq
      cases hw : f.workspace? q.tenantId q.workspaceId with
      | none => rw [hw] at hq; cases hq
      | some w =>
        rw [hw] at hq
        simp only [and_eq_true, Option.any_eq_true, decide_eq_true_eq] at hq
        obtain ⟨-, o, ho, hm⟩ := hq
        exact ⟨w, o, rfl, ho, hm.1.1.1, hm.1.2⟩
  obtain ⟨w, o, hw, ho, hrun, hto⟩ := owner h
  obtain ⟨_, _, hw', ho', hrun', hto'⟩ := owner h'
  rw [← ht, ← hwo, hw] at hw'
  cases hw'
  rw [ho] at ho'
  cases ho'
  exact ⟨hrun.symm.trans hrun', hto.symm.trans hto'⟩

def Fleet.after (ops : List FleetOp) : Fleet := ops.foldl Fleet.apply {}

theorem Fleet.after_append (ops ops' : List FleetOp) :
    after (ops ++ ops') = ops'.foldl Fleet.apply (after ops) :=
  foldl_append

theorem Fleet.hasLease_foldl {token : Uuid} :
    ∀ {ops : List FleetOp} {f : Fleet}, (ops.foldl Fleet.apply f).HasLease token →
      f.HasLease token ∨ token ∈ ops.flatMap FleetOp.minted := by
  intro ops
  induction ops with
  | nil =>
    intro f h
    exact .inl h
  | cons op _ ih =>
    intro f h
    rcases ih h with h | h
    · rcases (f.evolves_apply op).leases token h with h | h
      · exact .inl h
      · exact .inr (List.mem_flatMap.2 ⟨op, mem_cons_self .., h⟩)
    · obtain ⟨op', hop', hmin⟩ := List.mem_flatMap.1 h
      exact .inr (List.mem_flatMap.2 ⟨op', mem_cons_of_mem _ hop', hmin⟩)

theorem Fleet.not_hasLease_empty (token : Uuid) : ¬ (after []).HasLease token := by
  rintro ⟨_, hr, -⟩
  cases hr

/-- **Fencing.** -/
theorem removed_lease_fenced (before between later : List FleetOp)
    (htokens : ((before ++ between ++ later).flatMap FleetOp.minted).Nodup) :
    (∀ token, (Fleet.after before).HasLease token →
      ¬ (Fleet.after (before ++ between)).HasLease token →
      ∀ op : FleetOp, op.presented = some token →
        (∃ e, (Fleet.after (before ++ between ++ later)).perform op = .error e) ∧
          (Fleet.after (before ++ between ++ later)).apply op =
            Fleet.after (before ++ between ++ later)) ∧
      (∀ q q' at' at'', q.tenantId = q'.tenantId → q.workspaceId = q'.workspaceId →
        (Fleet.after (before ++ between ++ later)).authorized q at' = true →
        (Fleet.after (before ++ between ++ later)).authorized q' at'' = true →
        q.runId = q'.runId ∧ q.leaseToken = q'.leaseToken) ∧
      ∀ op key, (Fleet.after (before ++ between ++ later)).workspaceGeneration key ≤
        ((Fleet.after (before ++ between ++ later)).apply op).workspaceGeneration key := by
  refine ⟨?_, ?_, ?_⟩
  · intro token hstored hremoved op hop
    have hminted : token ∈ before.flatMap FleetOp.minted :=
      (Fleet.hasLease_foldl hstored).resolve_left (Fleet.not_hasLease_empty token)
    have hgone : ¬ (Fleet.after (before ++ between ++ later)).HasLease token := by
      intro hback
      rw [Fleet.after_append] at hback
      rcases Fleet.hasLease_foldl hback with h | h
      · exact hremoved h
      · rw [append_assoc, List.flatMap_append, List.flatMap_append] at htokens
        have hdisjoint := List.disjoint_of_nodup_append htokens
        exact hdisjoint hminted (mem_append_right _ h)
    have hfails : ∃ e, (Fleet.after (before ++ between ++ later)).perform op = .error e := by
      cases hp : (Fleet.after (before ++ between ++ later)).perform op with
      | error e => exact ⟨e, rfl⟩
      | ok => exact absurd (Fleet.hasLease_of_perform hop hp) hgone
    refine ⟨hfails, ?_⟩
    obtain ⟨e, he⟩ := hfails
    simp only [Fleet.apply, he]
  · intro q q' at' at'' htenant hworkspace h h'
    exact Fleet.authorized_unique h h' htenant hworkspace
  · intro op key
    exact (Fleet.evolves_apply _ op).generations key

/-- A run that worker `w` claims with token 100. -/
def zombieClaim : List FleetOp :=
  [ .submit
      { tenantId := 1, runId := 2, sessionId := 3, workspaceId := 4, routeName := "route"
        approvalMode := .autoApprove, messageId := 5, task := "task", plan := untaskedPlan, createdAt := 0 },
    .registerWorker
      { workerId := "w", totalSlots := 1, availableSlots := 1, status := .active
        registeredAt := 0, lastHeartbeatAt := 0 },
    .claim "w" 1 2 100 101 10 20 ]

def zombieReclaim : List FleetOp :=
  [.recoverExpired 20 [(1, 2)], .claim "w" 1 2 102 103 21 40]

def zombieLease : RunLease :=
  { tenantId := 1, runId := 2, sessionId := 3, workspaceId := 4, workerId := "w"
    routeName := "route", leaseToken := 100, generation := 1, attempt := 1, executionEpoch := 1
    acquiredAt := 10, expiresAt := 20, checkpointId := none, cancellationRequested := false }

theorem removed_lease_fenced_zombie : (Fleet.after zombieClaim).HasLease 100 ∧
      ¬ (Fleet.after (zombieClaim ++ [FleetOp.recoverExpired 20 [(1, 2)]])).HasLease 100 ∧
      (Fleet.after (zombieClaim ++ zombieReclaim)).HasLease 102 ∧
      ∃ e, (Fleet.after (zombieClaim ++ zombieReclaim)).perform (.start zombieLease 22) =
        .error e := by
  have htokens : ((zombieClaim ++ [FleetOp.recoverExpired 20 [(1, 2)]] ++
      [FleetOp.claim "w" 1 2 102 103 21 40]).flatMap FleetOp.minted).Nodup := by decide
  have hstored : (Fleet.after zombieClaim).HasLease 100 := by decide
  have hremoved :
      ¬ (Fleet.after (zombieClaim ++ [FleetOp.recoverExpired 20 [(1, 2)]])).HasLease 100 := by decide
  exact ⟨hstored, hremoved, by decide,
    ((removed_lease_fenced _ _ _ htokens).1 100 hstored hremoved (.start zombieLease 22) rfl).1⟩

end AgentPlatform
