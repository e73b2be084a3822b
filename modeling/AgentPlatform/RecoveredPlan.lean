/-
**The plan of a recovered attempt.**
-/

import AgentPlatform.ResumedCalls
import AgentPlatform.TaskPlans

namespace AgentPlatform

open KeyedTable RunStore World Option

open History (Admissible)

section Versions

variable {s s' : RunStore} {row : TaskPlanRecord} {epoch : ℕ}

theorem RunStore.latestPlan_of_eq (h : s'.taskPlans = s.taskPlans) (epoch : ℕ) :
    s'.latestPlan epoch = s.latestPlan epoch := by
  unfold latestPlan
  rw [h]

theorem RunStore.planVersion_of_eq (h : s'.taskPlans = s.taskPlans) (epoch : ℕ) :
    s'.planVersion epoch = s.planVersion epoch := by
  unfold planVersion
  rw [latestPlan_of_eq h]

theorem RunStore.latestPlan_concat (h : s'.taskPlans = s.taskPlans ++ [row])
    (hv : s.planVersion row.executionEpoch < row.version) :
    s'.latestPlan row.executionEpoch = some row := by
  unfold planVersion at hv
  unfold latestPlan at hv ⊢
  rw [h, filter_append, filter_cons_of_pos (by simp), filter_nil, foldl_append]
  generalize (s.taskPlans.filter (·.executionEpoch = row.executionEpoch)).foldl _ none = best
    at hv
  cases best with
  | none => rfl
  | some => exact if_pos hv

theorem RunStore.latestPlan_eq_none (h : ∀ p ∈ s.taskPlans, p.executionEpoch < epoch) :
    s.latestPlan epoch = none := by
  have hn : s.taskPlans.filter (·.executionEpoch = epoch) = [] := by
    rw [filter_eq_nil_iff]
    intro p hp heq
    exact absurd (of_decide_eq_true heq) (h p hp).ne
  unfold latestPlan
  rw [hn]
  rfl

end Versions

section Writers

variable {s s' : RunStore}

theorem rewind_taskPlans {id : Uuid} {now : Timestamp} {run : Run}
    (h : rewind s id now = .ok (some run, s')) :
    ∃ record, s.checkpoint? id = some record ∧ s'.checkpoints = s.checkpoints ∧
      s'.run.executionEpoch = s.run.executionEpoch + 1 ∧ s'.run.lastCheckpointId = some id ∧
      s'.taskPlans = s.taskPlans ++
        [{ executionEpoch := s.run.executionEpoch + 1, version := 1
           plan := record.checkpoint.taskPlan }] := by
  obtain ⟨hn, -⟩ | ⟨record, _, _, -, hrec, hrun, -, rfl⟩ := rewind_ok h
  · cases hn
  · obtain ⟨-, rfl⟩ := rewindRun_eq hrun
    exact ⟨record, hrec, rfl, rfl, rfl, rfl⟩

theorem RunStore.apply_taskPlans (s : RunStore) (op : StoreOp) :
    (s.apply op).taskPlans = s.taskPlans ∨
      ∃ id now run, rewind s id now = .ok (some run, s.apply op) := by
  have hou := s.outcome op
  generalize s.apply op = s' at hou ⊢
  cases hou with
  | @rewind id now run? _ ho =>
    cases run? with
    | none => exact .inl (congrArg taskPlans (rewind_none ho))
    | some run => exact .inr ⟨id, now, run, ho⟩
  | kept => exact .inl rfl
  | claim ho =>
    obtain ⟨-, rfl⟩ | ⟨run, -, -, -, -, row, -, rfl, -⟩ := claim_ok ho <;> exact .inl rfl
  | start ho =>
    obtain ⟨row, run, -, -, -, rfl, -⟩ := start_ok ho
    exact .inl rfl
  | heartbeat ho =>
    obtain ⟨row, -, -, rfl⟩ := heartbeat_ok ho
    exact .inl rfl
  | finish ho =>
    obtain ⟨row, run, -, -, -, rfl⟩ := finish_ok ho
    exact .inl rfl
  | decide ho =>
    obtain rfl | ⟨row, run, -, -, -, rfl, -⟩ := decideApproval_ok ho <;> exact .inl rfl
  | recoverExpired ho => cases recoverExpired_ok ho <;> exact .inl rfl
  | requestCancel ho => cases requestCancel_ok ho <;> exact .inl rfl
  | saveToolCall ho =>
    obtain ⟨-, -, row, -, rfl⟩ := saveToolCallFenced_inv ho
    exact .inl rfl
  | createApproval ho =>
    obtain ⟨-, -, -, ⟨-, rfl⟩ | ⟨-, -, rfl⟩⟩ := createApprovalFenced_inv ho <;> exact .inl rfl
  | createCheckpoint ho =>
    obtain ⟨-, -, ⟨-, rfl⟩ | ⟨-, -, rfl⟩⟩ := createCheckpointFenced_inv ho <;> exact .inl rfl
  | completeCheckpoint ho =>
    obtain ⟨-, row, -, -, rfl⟩ := completeCheckpointFenced_inv ho
    exact .inl rfl
  | appendTranscript ho =>
    obtain ⟨-, _, rfl, -⟩ := appendTranscriptFenced_inv ho
    exact .inl rfl

theorem World.apply_taskPlans (w : World) (op : SystemOp)
    (hep : (w.apply op).store.run.executionEpoch = w.store.run.executionEpoch) :
    (w.apply op).store.taskPlans = w.store.taskPlans := by
  obtain he | ⟨sop, he⟩ := w.apply_committed op
  · rw [he]
  · obtain hs | ⟨_, _, run, hr⟩ := w.store.apply_taskPlans sop
    · rw [he, hs]
    · obtain ⟨-, -, -, _, -⟩ := rewind_taskPlans hr
      rw [he] at hep
      omega

end Writers

def RunStore.becomesStart (s s' : RunStore) (id : Uuid) : Bool :=
  (s.checkpoint? id).isNone && (s'.checkpoint? id).isSome ||
    s'.run.executionEpoch ≠ s.run.executionEpoch && s'.run.lastCheckpointId = some id

def RunStore.noteStarts (s s' : RunStore) (noted : Uuid → Option (ℕ × ℕ)) (id : Uuid) :
    Option (ℕ × ℕ) :=
  if s.becomesStart s' id then
    some (s'.run.executionEpoch, s'.planVersion s'.run.executionEpoch)
  else noted id

def World.requested (w : World) : SystemOp → Option (RunLease × Timestamp × CheckpointRequest)
  | .work g _ now => (w.attempts g).bind fun a =>
    match a.due with
    | some (.createCheckpoint c) => some (a.lease, now, c)
    | _ => none
  | _ => none

def World.loading (w : World) : SystemOp → Option (RunLease × RecoveryCodec × Timestamp)
  | .load g _ codec _ now => (w.attempts g).bind fun a =>
    match a.phase with
    | .started => some (a.lease, codec, now)
    | _ => none
  | _ => none

structure PlanLoad where
  generation : ℕ
  latest : Option TaskPlanRecord
  recovered : JsonObject
  deriving DecidableEq

def World.planLoad (w : World) (op : SystemOp) : Option PlanLoad :=
  (w.loading op).bind fun (lease, codec, now) =>
    match load codec w.store lease now with
    | .error _ => none
    | .ok r => some
        { generation := lease.generation, latest := w.store.latestPlan lease.executionEpoch
          recovered := r.taskPlan }

structure PlanHistory where
  planning : Planning
  noted : Uuid → Option (ℕ × ℕ) := fun _ => none
  loads : List PlanLoad := []

def PlanHistory.store (b : PlanHistory) : RunStore := b.planning.world.store

section Steps

variable (read : JsonObject → Option TaskPlanUpdate)

def PlanHistory.apply (b : PlanHistory) (op : PlanningOp) : PlanHistory :=
  let planning := b.planning.apply read op
  { planning := planning
    noted := b.store.noteStarts planning.world.store b.noted
    loads := b.loads ++
      match op with
      | .system op => (b.planning.world.planLoad op).toList
      | _ => [] }

end Steps

def PlanHistory.Fresh (b : PlanHistory) : PlanningOp → Prop
  | .system op =>
    (∀ p ∈ b.planning.world.requested op, b.store.leaseActive p.1 p.2.1 = true →
      (b.store.checkpoint? p.2.2.id).isNone = true →
        (b.store.latestPlan p.1.executionEpoch).map (·.plan) = some p.2.2.taskPlan) ∧
    ∀ p ∈ b.planning.world.loading op, b.store.leaseActive p.1 p.2.2 = true →
      ∀ row ∈ selectCheckpoint b.store p.1, b.noted row.checkpoint.id =
        some (p.1.executionEpoch, b.store.planVersion p.1.executionEpoch)
  | _ => True

instance (b : PlanHistory) (op : PlanningOp) : Decidable (b.Fresh op) := by
  unfold PlanHistory.Fresh
  split <;> infer_instance

def planHistory (x : Submission) : PlanHistory := { planning := planning x }

def PlanHistory.Latest (b : PlanHistory) : Prop :=
  ∀ l ∈ b.loads, l.latest.map (·.plan) = some l.recovered

structure RunStore.PlansNoted (s : RunStore) (noted : Uuid → Option (ℕ × ℕ)) : Prop where
  wellFormed : s.WellFormed
  planEpochs : ∀ p ∈ s.taskPlans, p.executionEpoch ≤ s.run.executionEpoch
  planned : (s.latestPlan s.run.executionEpoch).isSome = true
  notedEpochs : ∀ id epoch version, noted id = some (epoch, version) → epoch ≤ s.run.executionEpoch
  plans : ∀ row ∈ s.checkpoints, ∀ version,
    noted row.checkpoint.id = some (s.run.executionEpoch, version) →
      version ≤ s.planVersion s.run.executionEpoch ∧ (version = s.planVersion s.run.executionEpoch →
          (s.latestPlan s.run.executionEpoch).map (·.plan) = some row.checkpoint.taskPlan)

section Notes

variable {s s' : RunStore} {noted : Uuid → Option (ℕ × ℕ)}

theorem RunStore.noteStarts_of_becomesStart {id : Uuid} (h : s.becomesStart s' id) :
    s.noteStarts s' noted id =
      some (s'.run.executionEpoch, s'.planVersion s'.run.executionEpoch) :=
  if_pos h

theorem RunStore.noteStarts_of_not {id : Uuid} (h : s.becomesStart s' id = false) :
    s.noteStarts s' noted id = noted id :=
  if_neg (by simp [h])

theorem RunStore.checkpoint?_isSome {row : CheckpointRecord} (hrow : row ∈ s.checkpoints) :
    (s.checkpoint? row.checkpoint.id).isSome := by
  cases hlk : s.checkpoint? row.checkpoint.id with
  | some => rfl
  | none => exact absurd rfl (lookup_eq_none.1 hlk row hrow)

theorem RunStore.becomesStart_eq_false {row : CheckpointRecord} (hrow : row ∈ s.checkpoints)
    (hep : s'.run.executionEpoch = s.run.executionEpoch) :
    s.becomesStart s' row.checkpoint.id = false := by
  have hs := checkpoint?_isSome hrow
  unfold becomesStart
  cases hlk : s.checkpoint? row.checkpoint.id with
  | none =>
    rw [hlk] at hs
    cases hs
  | some => simp [hep]

namespace RunStore.PlansNoted

theorem noteStarts_epochs (h : s.PlansNoted noted)
    (hle : s.run.executionEpoch ≤ s'.run.executionEpoch) (id : Uuid) (epoch version : ℕ)
    (hnot : s.noteStarts s' noted id = some (epoch, version)) : epoch ≤ s'.run.executionEpoch := by
  unfold noteStarts at hnot
  split at hnot
  · cases hnot
    exact le_rfl
  · exact (h.notedEpochs id epoch version hnot).trans hle

theorem kept (h : s.PlansNoted noted) (hs' : s'.WellFormed)
    (hep : s'.run.executionEpoch = s.run.executionEpoch) (hp : s'.taskPlans = s.taskPlans)
    (hr : ∀ row' ∈ s'.checkpoints, (∃ row ∈ s.checkpoints, row.checkpoint = row'.checkpoint) ∨
        (s.checkpoint? row'.checkpoint.id).isNone = true ∧
          (s.latestPlan s.run.executionEpoch).map (·.plan) = some row'.checkpoint.taskPlan) :
    s'.PlansNoted (s.noteStarts s' noted) where
  wellFormed := hs'
  planEpochs := by
    rw [hp, hep]
    exact h.planEpochs
  planned := by
    rw [latestPlan_of_eq hp, hep]
    exact h.planned
  notedEpochs := h.noteStarts_epochs hep.ge
  plans := by
    intro row' hrow' version hnot
    rw [latestPlan_of_eq hp, planVersion_of_eq hp, hep]
    rcases hr row' hrow' with ⟨row, hrow, hsa⟩ | ⟨hn, hpl⟩
    · rw [← hsa] at hnot ⊢
      rw [noteStarts_of_not (becomesStart_eq_false hrow hep), hep] at hnot
      exact h.plans row hrow version hnot
    · have hst : s.becomesStart s' row'.checkpoint.id := by
        simp [becomesStart, hn, checkpoint?_isSome hrow']
      rw [noteStarts_of_becomesStart hst, planVersion_of_eq hp, hep]
        at hnot
      cases hnot
      exact ⟨le_rfl, fun _ => hpl⟩

theorem updated (h : s.PlansNoted noted) {update : TaskPlanUpdate}
    {row : TaskPlanRecord} (hu : updateTaskPlan s update = .ok (row, s')) :
    s'.PlansNoted (s.noteStarts s' noted) := by
  obtain ⟨-, hrow, hs⟩ := updateTaskPlan_inv hu
  have hep : row.executionEpoch = s.run.executionEpoch := by rw [hrow]
  have hv : row.version = s.planVersion s.run.executionEpoch + 1 := by rw [hrow]
  have hrun : s'.run = s.run := by rw [hs]
  have hpl : s'.taskPlans = s.taskPlans ++ [row] := by rw [hs]
  have hl : s'.latestPlan s'.run.executionEpoch = some row := by
    rw [hrun, ← hep]
    refine latestPlan_concat hpl ?_
    rw [hep, hv]
    exact Nat.lt_succ_self _
  refine
    { wellFormed := ?_
      planEpochs := ?_
      planned := by rw [hl]; rfl
      notedEpochs := h.noteStarts_epochs (by rw [hrun])
      plans := ?_ }
  · rw [hs]
    exact ⟨h.wellFormed.callKeys, h.wellFormed.checkpointKeys, h.wellFormed.checkpointCalls,
      h.wellFormed.approvalCalls, h.wellFormed.callEpochs, h.wellFormed.messageEpochs,
      h.wellFormed.checkpointEpochs⟩
  · intro p hp
    rw [hpl] at hp
    rw [hrun]
    rcases mem_append.1 hp with hold | hnew
    · exact h.planEpochs p hold
    · rw [mem_singleton.1 hnew, hep]
  · intro row' hrow' version hnot
    have hold : row' ∈ s.checkpoints := by
      rw [hs] at hrow'
      exact hrow'
    rw [noteStarts_of_not (becomesStart_eq_false hold (by rw [hrun])), hrun]
      at hnot
    have hle := (h.plans row' hold version hnot).1
    have hnow : s'.planVersion s'.run.executionEpoch = row.version := by
      unfold planVersion
      rw [hl]
      rfl
    rw [hnow]
    exact ⟨by omega, fun heq => absurd heq (by omega)⟩

theorem rewound (h : s.PlansNoted noted) (hs' : s'.WellFormed) {id : Uuid}
    {now : Timestamp} {run : Run} (hr : rewind s id now = .ok (some run, s')) :
    s'.PlansNoted (s.noteStarts s' noted) := by
  obtain ⟨record, hrec, hc, hep, hse, hpl⟩ := rewind_taskPlans hr
  have hn : s.latestPlan (s.run.executionEpoch + 1) = none :=
    latestPlan_eq_none fun p hp => Nat.lt_succ_of_le (h.planEpochs p hp)
  have hl := latestPlan_concat hpl (by
    unfold planVersion
    rw [hn]
    exact Nat.one_pos)
  dsimp only at hl
  rw [← hep] at hl
  refine
    { wellFormed := hs'
      planEpochs := ?_
      planned := by rw [hl]; rfl
      notedEpochs := h.noteStarts_epochs (by omega)
      plans := ?_ }
  · intro p hp
    rw [hpl] at hp
    rcases mem_append.1 hp with hold | hnew
    · have hle := h.planEpochs p hold
      omega
    · rw [mem_singleton.1 hnew, hep]
  · intro row hrow version hnot
    rw [hc] at hrow
    by_cases hid : row.checkpoint.id = id
    · have hf : s.checkpoint? id = some row :=
        h.wellFormed.checkpointKeys.lookup_eq_some_iff.2 ⟨hrow, hid⟩
      obtain rfl : row = record := some_inj.1 (hf.symm.trans hrec)
      have hst : s.becomesStart s' row.checkpoint.id := by
        simp [becomesStart, hid, hse, hep]
      rw [noteStarts_of_becomesStart hst] at hnot
      cases hnot
      exact ⟨le_rfl, fun _ => by rw [hl]; rfl⟩
    · have hst : s.becomesStart s' row.checkpoint.id = false := by
        have hso := checkpoint?_isSome hrow
        have hne : ¬ id = row.checkpoint.id := fun heq => hid heq.symm
        simp [becomesStart, hse, hne, isSome_iff_ne_none.1 hso]
      rw [noteStarts_of_not hst] at hnot
      have hle := h.notedEpochs _ _ _ hnot
      omega

end RunStore.PlansNoted

theorem mem_of_selectCheckpoint {lease : RunLease} {row : CheckpointRecord}
    (h : selectCheckpoint s lease = some row) : row ∈ s.checkpoints := by
  unfold selectCheckpoint at h
  split at h
  · exact (lookup_some h).1
  · exact (mem_filter.1 (latestCheckpoint_some h).1).1

theorem RunStore.PlansNoted.load (h : s.PlansNoted noted) {codec : RecoveryCodec}
    {lease : RunLease} {now : Timestamp} {r : RunRecoveryState}
    (hl : load codec s lease now = .ok r)
    (hf : s.leaseActive lease now → ∀ row ∈ selectCheckpoint s lease,
      noted row.checkpoint.id = some (lease.executionEpoch, s.planVersion lease.executionEpoch)) :
    (s.latestPlan lease.executionEpoch).map (·.plan) = some r.taskPlan := by
  obtain ⟨ha, -, messages, outcomes, pending, -, -, -, rfl, -⟩ := load_inv hl
  have hnot := hf ha
  rw [← leaseActive_epoch ha] at hnot ⊢
  cases hs : selectCheckpoint s lease with
  | none =>
    -- without a checkpoint the plan is read from the versions
    obtain ⟨_, hla⟩ := isSome_iff_exists.1 h.planned
    have hp : (recoveryState s lease none messages outcomes pending).taskPlan =
        currentTaskPlan s lease.executionEpoch := rfl
    rw [hp, currentTaskPlan_eq, ← leaseActive_epoch ha, hla]
    rfl
  | some row =>
    have hp : (recoveryState s lease (some row) messages outcomes pending).taskPlan =
        row.checkpoint.taskPlan := by
      simp only [recoveryState, recoveredCheckpoint, map_some, elim_some]
      unfold checkpointDomain
      split <;> rfl
    rw [hp]
    exact (h.plans row (mem_of_selectCheckpoint hs) _ (hnot row hs)).2 rfl

end Notes

theorem World.apply_work_store {w : World} {g : ℕ} {a : Attempt} (ha : w.attempts g = some a)
    (codec : StoreCodec) (now : Timestamp) :
    (w.apply (.work g codec now)).store = (a.work codec now w.store).1.store := by
  simp only [World.apply, ha, workAttempt]
  split
  · split <;> rfl
  · rfl

theorem Attempt.work_createCheckpoint {a : Attempt} {c : CheckpointRequest}
    (hdue : a.due = some (.createCheckpoint c)) {codec : StoreCodec} {now : Timestamp}
    {s : RunStore} (hl : s.leaseActive a.lease now ≠ true) : (a.work codec now s).1.store = s := by
  unfold Attempt.due at hdue
  split at hdue
  next step rest x hph =>
    split at hdue
    next hn =>
      cases hdue
      unfold Attempt.work
      rw [hph]
      dsimp only
      rw [isNone_iff_eq_none.1 hn]
      dsimp only [performStep]
      split
      · rfl
      next hc => exact absurd (createCheckpointFenced_inv hc).1 hl
    · cases hdue
  · cases hdue

theorem World.requested_of_due {w : World} {op : SystemOp} {lease : RunLease}
    {c : CheckpointRequest} (h : w.due op = some (lease, .createCheckpoint c)) :
    ∃ now, w.requested op = some (lease, now, c) ∧
      ((w.apply op).store ≠ w.store → w.store.leaseActive lease now) := by
  cases op with
  | work _ _ now =>
    obtain ⟨_, ha, hs⟩ := bind_eq_some_iff.1 h
    obtain ⟨_, hdue, hp⟩ := map_eq_some_iff.1 hs
    cases hp
    refine ⟨now, by simp [requested, ha, hdue], fun hc => ?_⟩
    by_contra hl
    rw [apply_work_store ha] at hc
    exact hc (Attempt.work_createCheckpoint hdue hl)
  | _ => cases h

section Steps

variable {read : JsonObject → Option TaskPlanUpdate} {b : PlanHistory}

structure PlanHistory.Sound (b : PlanHistory) : Prop where
  notes : b.store.PlansNoted b.noted
  latest : b.Latest

theorem RunStore.PlansNoted.apply {w : World} {noted : Uuid → Option (ℕ × ℕ)}
    (h : w.store.PlansNoted noted) (op : SystemOp)
    (hf : ∀ p ∈ w.requested op, w.store.leaseActive p.1 p.2.1 = true →
      (w.store.checkpoint? p.2.2.id).isNone = true →
        (w.store.latestPlan p.1.executionEpoch).map (·.plan) = some p.2.2.taskPlan) :
    (w.apply op).store.PlansNoted (w.store.noteStarts (w.apply op).store noted) := by
  have hwf := h.wellFormed.of_committed (w.apply_committed op)
  cases w.apply_branchMoves op with
  | kept kept epoch =>
    exact h.kept hwf epoch (w.apply_taskPlans op epoch) fun row' hrow' =>
      .inl (kept.checkpoints row' hrow')
  | journaled _ _ _ _ _ _ _ stored =>
    refine h.kept hwf (by rw [stored]) (by rw [stored]) fun row' hrow' => .inl ⟨row', ?_, rfl⟩
    rw [stored] at hrow'
    exact hrow'
  | created lease c _ step current fresh stored =>
    obtain ⟨_, hreq, ha⟩ := requested_of_due step
    refine h.kept hwf (by rw [stored]) (by rw [stored]) fun row' hrow' => ?_
    rw [stored] at hrow'
    rcases mem_append.1 hrow' with hold | hnew
    · exact .inl ⟨row', hold, rfl⟩
    -- the new row: the lease was active, so the condition applies
    obtain rfl := mem_singleton.1 hnew
    have hn : (w.store.checkpoint? c.id).isNone = true :=
      isNone_iff_eq_none.2 (lookup_eq_none.2 fresh)
    have hc : (w.apply op).store ≠ w.store := by
      intro hs
      rw [stored] at hs
      have hlen := congrArg (fun s => s.checkpoints.length) hs
      simp at hlen
    have hp := hf _ hreq (ha hc) hn
    rw [current] at hp
    exact .inr ⟨hn, hp⟩
  | rewound _ _ _ rewind => exact h.rewound hwf rewind

theorem RunStore.PlansNoted.update {s : RunStore} {noted : Uuid → Option (ℕ × ℕ)}
    (h : s.PlansNoted noted) (update : TaskPlanUpdate) :
    (s.commit (updateTaskPlan s update)).PlansNoted
      (s.noteStarts (s.commit (updateTaskPlan s update)) noted) := by
  obtain he | ⟨row, ho⟩ := s.commit_cases (updateTaskPlan s update)
  · rw [he]
    exact h.kept h.wellFormed rfl rfl fun row hrow => .inl ⟨row, hrow, rfl⟩
  · exact h.updated ho

theorem Planning.apply_update_store (w : Planning) (g : ℕ) (now : Timestamp) :
    (w.apply read (.update g now)).world.store = w.world.store ∨ ∃ update,
      (w.apply read (.update g now)).world.store =
        w.world.store.commit (updateTaskPlan w.world.store update) := by
  unfold Planning.apply
  dsimp only
  split
  next lease callId update hp =>
    right
    use update
    unfold Planning.runUpdate
    dsimp only
    cases updateTaskPlan w.world.store update <;> rfl
  · exact .inl rfl

theorem PlanHistory.Sound.apply (h : b.Sound) {op : PlanningOp} (hf : b.Fresh op) :
    (b.apply read op).Sound := by
  cases op with
  | system op =>
    refine ⟨h.notes.apply op hf.1, fun l hl => ?_⟩
    rcases mem_append.1 hl with hold | hnew
    · exact h.latest l hold
    obtain ⟨⟨_, _, now⟩, hlo, he⟩ :=
      bind_eq_some_iff.1 (mem_toList.1 hnew)
    dsimp only at he
    split at he
    · cases he
    next r hld =>
      cases he
      exact h.notes.load hld (hf.2 _ hlo)
  | userUpdate update =>
    exact ⟨h.notes.update update, fun l hl => h.latest l (by simpa [PlanHistory.apply] using hl)⟩
  | update g now =>
    refine ⟨?_, fun l hl => h.latest l (by simpa [PlanHistory.apply] using hl)⟩
    unfold PlanHistory.apply PlanHistory.store
    dsimp only
    obtain hs | ⟨update, hu⟩ := @Planning.apply_update_store read b.planning g now
    · rw [hs]
      exact h.notes.kept h.notes.wellFormed rfl rfl fun row hrow => .inl ⟨row, hrow, rfl⟩
    · rw [hu]
      exact h.notes.update update

end Steps

theorem planHistory_sound (x : Submission) : (planHistory x).Sound where
  notes :=
    { wellFormed := .submit x
      planEpochs := by
        intro p hp
        rw [mem_singleton.1 hp]
        exact le_rfl
      planned := rfl
      notedEpochs := fun _ _ _ hnot => by cases hnot
      plans := fun _ _ _ hnot => by cases hnot }
  latest := fun l hl => absurd hl not_mem_nil

/-- **A recovered plan is the latest plan**. -/
theorem recovered_plan_latest (read : JsonObject → Option TaskPlanUpdate) (x : Submission)
    (ops : List PlanningOp)
    (hops : Admissible (PlanHistory.apply read) PlanHistory.Fresh (planHistory x) ops) :
    (ops.foldl (PlanHistory.apply read) (planHistory x)).Latest :=
  (hops.invariant PlanHistory.Sound (fun _ _ hb hop => hb.apply hop) (planHistory_sound x)).latest

def planCall : GatewayToolCall :=
  { id := "call-1", name := "update_task_plan", arguments := planArguments }

def commandCall : GatewayToolCall := { id := "call-2", name := "run_command", arguments := .nil }

def twoCallsEnv (first second : GatewayToolCall) : LoopEnv :=
  scriptedEnv 10
    (fun name =>
      if name = "update_task_plan" then some .controlMutation
      else if name = "run_command" then some .command else none)
    [proposing [first], proposing [second],
     { events := [.textDelta "done", .responseCompleted .stop] }]
    (fun call =>
      if call.name = "update_task_plan" then
        { items := [.completed (.ofList [("task_plan", .obj plannedTasks)])] }
      else { items := [.completed .nil] })
    (some
      { snapshotBefore := fun _ => .ok { id := 51, uri := "archive", revision := "revision" }
        snapshotAfter := fun _ => some
          { id := 52, uri := "archive-after", revision := "revision-after" }
        rollback := fun _ => true })

def updatedThenLost (env : LoopEnv) (before after : ℕ) : List PlanningOp :=
  (attemptOps 1 env 5 100 ++ workOps 1 before 6).map .system ++ [.update 1 7] ++
    (workOps 1 after 8 ++ [SystemOp.recoverExpired 101] ++ attemptOps 2 env 102 200).map .system

def resumedPlan (first second : GatewayToolCall) (before after : ℕ) : PlanHistory :=
  (updatedThenLost (twoCallsEnv first second) before after).foldl
    (PlanHistory.apply readPlanArguments) (planHistory (scriptedSubmission .autoApprove))

theorem recovered_plan_latest_updated_before_command :
    PlanLoad.mk 2 (some { version := 2, plan := plannedTasks }) plannedTasks ∈
        (resumedPlan planCall commandCall 9 16).loads ∧
      (resumedPlan planCall commandCall 9 16).Latest := by
  refine ⟨by decide +kernel, ?_⟩
  unfold resumedPlan
  exact recovered_plan_latest _ _ _ (by decide +kernel)

theorem recovered_plan_outdated :
    ¬ ∀ (read : JsonObject → Option TaskPlanUpdate) (x : Submission) (ops : List PlanningOp),
      (ops.foldl (PlanHistory.apply read) (planHistory x)).Latest := by
  intro h
  have hlatest := h readPlanArguments (scriptedSubmission .autoApprove)
    (updatedThenLost (twoCallsEnv commandCall planCall) 23 4)
  have hload : PlanLoad.mk 2 (some { version := 2, plan := plannedTasks }) untaskedPlan ∈
      (resumedPlan commandCall planCall 23 4).loads := by decide +kernel
  have hplan := hlatest _ hload
  revert hplan
  decide +kernel

end AgentPlatform
