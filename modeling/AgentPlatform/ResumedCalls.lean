/-
**Which calls of a suspended run come back when it is leased again.**

Between a suspension and the load of the next attempt only decisions and the hand-over of the lease
touch the run: its calls, its checkpoints and its epoch stay as they are. Whether the load returns
the suspended calls then depends on the checkpoint it selects, which it does not look at together
with the calls.

Main definitions:
- `RunStore.ResumesCalls`: no checkpoint that would be selected is an uncompleted one of the epoch.
- `RunStore.TakenOver`: what the operations between suspension and load leave alone.

Main results:
- `loadsToolCalls_iff`: the load reads the calls exactly in such a state.
- `resumedCalls_iff`: the load returns exactly the suspended calls with their decisions.
-/

import AgentPlatform.SuspensionSafety

namespace AgentPlatform

open CheckpointRecord RunStore

/-- The order of `before`, on the two columns. -/
def Precedes (t i t' i' : ℕ) : Prop := t < t' ∨ t = t' ∧ i < i'

theorem CheckpointRecord.before_iff {a b : CheckpointRecord} :
    a.before b = true ↔ Precedes a.checkpoint.createdAt a.checkpoint.id b.checkpoint.createdAt
      b.checkpoint.id := by
  simp [before, Precedes]

theorem CheckpointRecord.before_eq_false_iff {a b : CheckpointRecord} :
    a.before b = false ↔ ¬ Precedes a.checkpoint.createdAt a.checkpoint.id b.checkpoint.createdAt
      b.checkpoint.id := by
  rw [← not_eq_true, before_iff]

variable {t i t' i' : ℕ} {s s' : RunStore}

theorem Precedes.asymm (h : Precedes t i t' i') : ¬ Precedes t' i' t i := by
  unfold Precedes at *
  omega

theorem not_precedes_trans {t'' i'' : ℕ} (h : ¬ Precedes t i t' i') (h' : ¬ Precedes t' i' t'' i'')
    : ¬ Precedes t i t'' i'' := by
  unfold Precedes at *
  omega

theorem eq_of_not_precedes (h : ¬ Precedes t i t' i') (h' : ¬ Precedes t' i' t i) : i = i' := by
  unfold Precedes at *
  omega

theorem latestCheckpoint_some : ∀ {rows : List CheckpointRecord} {k : CheckpointRecord},
    latestCheckpoint rows = some k → k ∈ rows ∧ ∀ k' ∈ rows, k.before k' = false
  | c :: rest, k, h => by
      simp only [latestCheckpoint] at h
      split at h
      next hn =>
        cases h
        cases rest with
        | nil => simp [before_eq_false_iff, Precedes]
        | cons =>
          simp only [latestCheckpoint] at hn
          split at hn
          · cases hn
          · split at hn <;> cases hn
      next d hd =>
        obtain ⟨hmem, hl⟩ := latestCheckpoint_some hd
        split at h
        next hb =>
          cases h
          refine ⟨mem_cons_of_mem _ hmem, ?_⟩
          intro k' hk'
          rcases mem_cons.1 hk' with rfl | hk'
          · exact before_eq_false_iff.2
              (before_iff.1 hb).asymm
          · exact hl k' hk'
        next hb =>
          cases h
          refine ⟨mem_cons_self .., ?_⟩
          intro k' hk'
          rcases mem_cons.1 hk' with rfl | hk'
          · simp [before_eq_false_iff, Precedes]
          · rw [before_iff] at hb
            exact before_eq_false_iff.2 (not_precedes_trans hb
              (before_eq_false_iff.1 (hl k' hk')))

theorem latestCheckpoint_eq_none {rows : List CheckpointRecord} :
    latestCheckpoint rows = none ↔ rows = [] := by
  cases rows with
  | nil => simp [latestCheckpoint]
  | cons =>
    simp only [latestCheckpoint, reduceCtorEq, iff_false]
    split
    · simp
    · split <;> simp

def RunStore.Selects (s : RunStore) (k : CheckpointRecord) : Prop :=
  match s.run.lastCheckpointId with
  | some id => k.checkpoint.id = id
  | none => k.checkpoint.executionEpoch = s.run.executionEpoch ∧
      ∀ k' ∈ s.checkpoints, k'.checkpoint.executionEpoch = s.run.executionEpoch →
        k.before k' = false

def RunStore.ResumesCalls (s : RunStore) : Prop :=
  ∀ k ∈ s.checkpoints, s.Selects k → k.checkpoint.executionEpoch = s.run.executionEpoch →
    k.completed ≠ none

structure RunLease.OfRun (lease : RunLease) (s : RunStore) : Prop where
  executionEpoch : lease.executionEpoch = s.run.executionEpoch
  checkpointId : lease.checkpointId = s.run.lastCheckpointId

theorem runLeaseDomain_ofRun (row : RunLeaseRecord) (s : RunStore) :
    (runLeaseDomain row s).OfRun s := ⟨rfl, rfl⟩

theorem selectCheckpoint_iff {lease : RunLease} (hs : s.WellFormed) (hl : lease.OfRun s)
    {k : CheckpointRecord} :
    selectCheckpoint s lease = some k ↔ k ∈ s.checkpoints ∧ s.Selects k := by
  unfold selectCheckpoint Selects
  rw [hl.checkpointId, hl.executionEpoch]
  cases s.run.lastCheckpointId with
  | some => exact hs.checkpointKeys.lookup_eq_some_iff
  | none =>
    dsimp only
    constructor
    · intro h
      obtain ⟨hmem, hla⟩ := latestCheckpoint_some h
      simp only [mem_filter, decide_eq_true_eq] at hmem hla
      exact ⟨hmem.1, hmem.2, fun k' hk' hep => hla k' ⟨hk', hep⟩⟩
    · rintro ⟨hmem, hep, hla⟩
      cases hlt : latestCheckpoint
          (s.checkpoints.filter (·.checkpoint.executionEpoch = s.run.executionEpoch)) with
      | none =>
        have hnil := latestCheckpoint_eq_none.1 hlt
        have : k ∈ s.checkpoints.filter (·.checkpoint.executionEpoch = s.run.executionEpoch) :=
          mem_filter.2 ⟨hmem, by simpa using hep⟩
        rw [hnil] at this
        cases this
      | some k' =>
        obtain ⟨hmem', hla'⟩ := latestCheckpoint_some hlt
        simp only [mem_filter, decide_eq_true_eq] at hmem' hla'
        -- two rows that do not precede each other have one id
        have h1 := hla k' hmem'.1 hmem'.2
        have h2 := hla' k ⟨hmem, hep⟩
        rw [before_eq_false_iff] at h1 h2
        rw [inj_on_of_nodup_map hs.checkpointKeys hmem'.1 hmem (eq_of_not_precedes h2 h1)]

theorem loadsToolCalls_iff {lease : RunLease} (hs : s.WellFormed) (hl : lease.OfRun s) :
    loadsToolCalls lease (selectCheckpoint s lease) = true ↔ s.ResumesCalls := by
  have hiff := @selectCheckpoint_iff s lease hs hl
  unfold loadsToolCalls onActiveBranch ResumesCalls
  rw [hl.executionEpoch]
  cases hse : selectCheckpoint s lease with
  | none =>
    simp only [Option.all_none, Bool.not_true, Bool.or_true, true_iff]
    intro k hk hsl
    rw [hiff.2 ⟨hk, hsl⟩] at hse
    cases hse
  | some k =>
    simp only [all_some, or_eq_true, Bool.not_eq_true', decide_eq_false_iff_not]
    constructor
    · intro h k' hk' hsl hep
      rw [hiff.2 ⟨hk', hsl⟩] at hse
      cases hse
      rcases h with h | h
      · exact absurd hep h
      · exact Option.isSome_iff_ne_none.1 h
    · intro h
      obtain ⟨hk, hsl⟩ := hiff.1 hse
      by_cases hep : k.checkpoint.executionEpoch = s.run.executionEpoch
      · exact .inr (Option.isSome_iff_ne_none.2 (h k hk hsl hep))
      · exact .inl hep

def StoreOp.handover : StoreOp → Bool
  | .claim .. | .start .. | .heartbeat .. | .recoverExpired .. | .requestCancel .. | .decide .. => true
  | _ => false

structure RunStore.TakenOver (s s' : RunStore) : Prop where
  toolCalls : s'.toolCalls = s.toolCalls
  checkpoints : s'.checkpoints = s.checkpoints
  executionEpoch : s'.run.executionEpoch = s.run.executionEpoch
  lastCheckpointId : s'.run.lastCheckpointId = s.run.lastCheckpointId

theorem RunStore.TakenOver.refl (s : RunStore) : s.TakenOver s := ⟨rfl, rfl, rfl, rfl⟩

theorem RunStore.TakenOver.of_same (ht : s.SameTables s') (hid : s.run.SameIdentity s'.run)
    : s.TakenOver s' :=
  ⟨ht.toolCalls, ht.checkpoints, hid.executionEpoch, hid.lastCheckpointId⟩

theorem RunStore.takenOver_apply (s : RunStore) {op : StoreOp} (hop : op.handover) :
    s.TakenOver (s.apply op) := by
  have hou := s.outcome op
  generalize s.apply op = s' at hou ⊢
  cases hou with
  | kept => exact .refl s
  | claim ho =>
    obtain ⟨-, rfl⟩ | ⟨_, -, -, -, ht, hep, hs, -⟩ := claim_inv ho
    · exact .refl _
    · exact ⟨ht.toolCalls, ht.checkpoints, hep, hs⟩
  | start ho =>
    obtain ⟨-, ht, hid, -⟩ := start_inv ho
    exact .of_same ht hid
  | heartbeat ho =>
    obtain ⟨-, ht, hid⟩ := heartbeat_inv ho
    exact .of_same ht hid
  | recoverExpired ho =>
    obtain ⟨ht, hid, -⟩ := recoverExpired_inv ho
    exact .of_same ht hid
  | requestCancel ho =>
    obtain ⟨ht, hid, -⟩ := requestCancel_inv ho
    exact .of_same ht hid
  | decide ho =>
    obtain rfl | ⟨-, -, -, -, -, -, -, ht, hc, hid, -⟩ := decideApproval_inv ho
    · exact .refl _
    · exact ⟨ht, hc, hid.executionEpoch, hid.lastCheckpointId⟩
  | _ => cases hop

theorem RunStore.takenOver_foldl {ops : List StoreOp} (hops : ∀ op ∈ ops, op.handover = true)
    : s.TakenOver (ops.foldl apply s) := by
  induction ops generalizing s with
  | nil => exact .refl s
  | cons op _ ih =>
    have hf := s.takenOver_apply (hops op (mem_cons_self ..))
    have hr := @ih (s.apply op) (fun op' hop' => hops op' (mem_cons_of_mem _ hop'))
    exact ⟨hr.toolCalls.trans hf.toolCalls, hr.checkpoints.trans hf.checkpoints,
      hr.executionEpoch.trans hf.executionEpoch,
      hr.lastCheckpointId.trans hf.lastCheckpointId⟩

theorem RunStore.TakenOver.resumesCalls_iff (h : s.TakenOver s') :
    s'.ResumesCalls ↔ s.ResumesCalls := by
  unfold ResumesCalls Selects
  rw [h.checkpoints, h.executionEpoch, h.lastCheckpointId]

theorem RunStore.TakenOver.openCalls (h : s.TakenOver s') (epoch : ℕ) :
    openCalls s' epoch = openCalls s epoch := by
  unfold AgentPlatform.openCalls
  rw [h.toolCalls]

/-- The pending calls of a run that was loaded. -/
theorem pending_eq_suspended_iff (x : Submission) (before after : List StoreOp)
    (hafter : ∀ op ∈ after, op.handover = true) {suspended resumed : RunStore}
    (hsuspended : suspended = before.foldl RunStore.apply (submit x))
    (hresumed : resumed = after.foldl RunStore.apply suspended) {row : RunLeaseRecord}
    {codec : RecoveryCodec} {now : Timestamp} {r : RunRecoveryState}
    (hload : load codec resumed (runLeaseDomain row resumed) now = .ok r) {S : List ToolCall}
    (hS : S ≠ []) (hopen : ∀ c ∈ S, c ∈ openCalls suspended suspended.run.executionEpoch) :
    (∀ p, p ∈ r.pendingToolCalls ↔ ∃ c ∈ S, p = resumedCall resumed c) ↔
      suspended.ResumesCalls ∧ ∀ c ∈ openCalls suspended suspended.run.executionEpoch, c ∈ S := by
  have hwf : suspended.WellFormed := hsuspended ▸ wellFormed_history x before
  have hwf' : resumed.WellFormed := hresumed ▸ hwf.foldl after
  have htaken : suspended.TakenOver resumed := hresumed ▸ RunStore.takenOver_foldl hafter
  obtain ⟨-, -, _, _, pending, -, -, hpending, rfl, -⟩ := load_inv hload
  obtain ⟨hpending, -⟩ := loadPending_ok hpending
  have hepoch : (runLeaseDomain row resumed).executionEpoch = suspended.run.executionEpoch :=
    htaken.executionEpoch
  rw [← htaken.resumesCalls_iff, ← loadsToolCalls_iff hwf' (runLeaseDomain_ofRun row resumed)]
  rw [hepoch, htaken.openCalls] at hpending
  change (∀ p, p ∈ pending ↔ _) ↔ _
  by_cases hloads :
      loadsToolCalls (runLeaseDomain row resumed)
        (selectCheckpoint resumed (runLeaseDomain row resumed)) = true
  · rw [if_pos hloads] at hpending
    subst hpending
    refine ⟨fun h => ⟨hloads, fun c hc => ?_⟩, ?_⟩
    · obtain ⟨c', hc', heq⟩ := (h (resumedCall resumed c)).1 (mem_map_of_mem hc)
      have hid : c.id = c'.id := by
        rw [← (resumedCall_fields resumed c).1, heq, (resumedCall_fields resumed c').1]
      obtain ⟨hmem, hep, -⟩ := mem_openCalls.1 hc
      obtain ⟨hmem', hep', -⟩ := mem_openCalls.1 (hopen c' hc')
      have hkey : c.key = c'.key := Prod.ext (hep.trans hep'.symm) hid
      rw [inj_on_of_nodup_map hwf.callKeys hmem hmem' hkey]
      exact hc'
    · rintro ⟨-, hall⟩ p
      constructor
      · intro hp
        obtain ⟨c, hc, rfl⟩ := mem_map.1 hp
        exact ⟨c, hall c hc, rfl⟩
      · rintro ⟨c, hc, rfl⟩
        exact mem_map_of_mem (hopen c hc)
  · rw [if_neg hloads] at hpending
    subst hpending
    refine ⟨fun h => ?_, fun h => absurd h.1 hloads⟩
    obtain ⟨c, hc⟩ := List.exists_mem_of_ne_nil S hS
    exact absurd ((h (resumedCall resumed c)).2 ⟨c, hc, rfl⟩) (by simp)

/-- **The pending calls of a resumed run**: what else is loaded can be, and the calls come back
exactly when the selected checkpoint does not hide them, they are all that is open, and they can be
resumed together. -/
theorem resumedCalls_iff (x : Submission) (before after : List StoreOp)
    (hafter : ∀ op ∈ after, op.handover = true) {suspended resumed : RunStore}
    (hsuspended : suspended = before.foldl RunStore.apply (submit x))
    (hresumed : resumed = after.foldl RunStore.apply suspended) {row : RunLeaseRecord}
    {codec : RecoveryCodec} {now : Timestamp} {rest : RunRecoveryState}
    (hrest : load codec resumed.withoutOpenCalls (runLeaseDomain row resumed) now = .ok rest)
    {S : List ToolCall} (hS : S ≠ [])
    (hopen : ∀ c ∈ S, c ∈ openCalls suspended suspended.run.executionEpoch) :
    (∃ r, load codec resumed (runLeaseDomain row resumed) now = .ok r ∧
      ∀ p, p ∈ r.pendingToolCalls ↔ ∃ c ∈ S, p = resumedCall resumed c) ↔
    suspended.ResumesCalls ∧
      (∀ c ∈ openCalls suspended suspended.run.executionEpoch, c ∈ S) ∧
      resumed.Resumable codec resumed.run.executionEpoch ∧
      codec.stateBytes { rest with
        pendingToolCalls := resumedPending resumed (runLeaseDomain row resumed) } ≤
          maxRecoveryStateBytes := by
  have hwf : suspended.WellFormed := hsuspended ▸ wellFormed_history x before
  have hwf' : resumed.WellFormed := hresumed ▸ hwf.foldl after
  have htaken : suspended.TakenOver resumed := hresumed ▸ RunStore.takenOver_foldl hafter
  have hloads := loadsToolCalls_iff hwf' (runLeaseDomain_ofRun row resumed)
  rw [htaken.resumesCalls_iff] at hloads
  constructor
  · rintro ⟨r, hload, hp⟩
    obtain ⟨hres, hall⟩ :=
      (pending_eq_suspended_iff x before after hafter hsuspended hresumed hload hS hopen).1 hp
    obtain ⟨hresumable, hsize⟩ := (load_isOk_iff hwf' hrest).1 ⟨r, hload⟩
    exact ⟨hres, hall, hresumable (hloads.2 hres), hsize⟩
  · rintro ⟨hres, hall, hresumable, hsize⟩
    obtain ⟨r, hload⟩ := (load_isOk_iff hwf' hrest).2 ⟨fun _ => hresumable, hsize⟩
    exact ⟨r, hload, (pending_eq_suspended_iff x before after hafter hsuspended hresumed hload hS
      hopen).2 ⟨hres, hall⟩⟩

def askUser (turn : ℕ) (status : ToolCallStatus) : ToolCall :=
  { id := "call-2", runId := 2, turnNumber := turn, toolName := "ask_user", arguments := .nil
    argumentHash := "hash", status := status }

def demoLease (generation : ℕ) (acquiredAt expiresAt : Timestamp) : RunLease :=
  { tenantId := 1, runId := 2, sessionId := 3, workspaceId := 4, workerId := "worker"
    routeName := "default", leaseToken := 100 + generation, generation := generation
    attempt := 1, executionEpoch := 1, acquiredAt := acquiredAt, expiresAt := expiresAt
    checkpointId := none, cancellationRequested := false }

def suspension (turn : ℕ) : List StoreOp :=
  [.claim "worker" 101 1 100, .start (demoLease 1 1 100) 2,
   .saveToolCall (demoLease 1 1 100) 3 (askUser turn .received),
   .saveToolCall (demoLease 1 1 100) 4 (askUser turn .waitingApproval),
   .createApproval (demoLease 1 1 100) 5
     { id := 20, toolCallId := "call-2", status := .pending, arguments := .nil, requestedAt := 5
       reason := "Workspace mutation by ask_user requires human confirmation." },
   .finish (demoLease 1 1 100) { status := .waitingApproval } 6]

def takeover : List StoreOp :=
  [.decide 20 { approved := true, decidedBy := "human", decidedAt := 7, response := some "yes" },
   .claim "worker" 102 8 200, .start (demoLease 2 8 200) 9]

def resumedRun : RunStore :=
  takeover.foldl RunStore.apply
    ((suspension 3).foldl RunStore.apply (submit (scriptedSubmission .autoApprove)))

def resumedLease : RunLease :=
  runLeaseDomain
    { tenantId := 1, runId := 2, workerId := "worker", leaseToken := 102, generation := 2
      acquiredAt := 8, lastHeartbeatAt := 8, expiresAt := 200 } resumedRun

theorem resumedCalls_answered :
    ∃ r, load scriptedRecovery resumedRun resumedLease 10 = .ok r ∧ ∀ p, p ∈ r.pendingToolCalls ↔
      ∃ c ∈ [askUser 3 .waitingApproval], p = resumedCall resumedRun c :=
  (resumedCalls_iff (scriptedSubmission .autoApprove) (suspension 3) takeover (by decide) rfl rfl
    (show load scriptedRecovery resumedRun.withoutOpenCalls resumedLease 10 =
      .ok { messages := [{ role := .user, content := .text "task" }], taskPlan := untaskedPlan }
      from rfl)
    (by simp) (by decide)).2 ⟨fun k hk => absurd (show k ∈ [] from hk) not_mem_nil,
      by decide, by decide, by decide⟩

def rolledBackEnv : LoopEnv :=
  scriptedEnv 10
    (fun name =>
      if name = "run_command" then some .command
      else if name = "ask_user" then some .interaction
      else none)
    [proposing [{ id := "call-1", name := "run_command", arguments := .nil }],
     proposing [{ id := "call-2", name := "ask_user", arguments := .nil }]]
    (fun _ => { items := [], ending := .crashed })
    (some
      { snapshotBefore := fun _ => .ok { id := 50, uri := "archive", revision := "revision" }
        snapshotAfter := fun _ => none
        rollback := fun _ => true })

def rolledBackHistory : List SystemOp :=
  attemptOps 1 rolledBackEnv 5 100 ++ workOps 1 25 6 ++ [.finish 1 7,
   .decide 20 { approved := true, decidedBy := "human", decidedAt := 40, response := some "yes" }] ++
  attemptOps 2 rolledBackEnv 41 200

def World.recoveredPending (w : World) : List (List DurablePendingToolCall) :=
  w.log.filterMap fun
    | .recovered _ _ r => some r.pendingToolCalls
    | _ => none

theorem resumedCalls_dropped_after_rollback :
    let w := rolledBackHistory.foldl World.apply (submitted (scriptedSubmission .autoApprove))
    (openCalls w.store 1).map (fun c => (c.id, c.status)) = [("call-2", .waitingApproval)] ∧
      w.store.approvals.map (fun a => (a.toolCallId, a.status)) = [("call-2", .approved)] ∧
      w.recoveredPending = [[], []] := by
  decide

end AgentPlatform
