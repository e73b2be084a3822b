/-
**A legal hold against deletion workers.**
-/

import AgentPlatform.DeletionLeases

namespace AgentPlatform

open DeletionSystem KeyedTable LifecycleStore ObjectDeletionJob

theorem LegalHold.active_antitone {h : LegalHold} {t t' : Timestamp} (hle : t ≤ t')
    (ha : h.active t') : h.active t := by
  unfold active at ha ⊢
  rw [and_eq_true] at ha ⊢
  refine ⟨ha.1, ?_⟩
  cases he : h.expiresAt with
  | none => rfl
  | some e =>
    have hl : t' < e := by simpa [he] using ha.2
    simpa using lt_of_le_of_lt hle hl

variable {s s' : LifecycleStore}

theorem LifecycleStore.hasActiveHold_antitone {tenantId : Uuid} {t t' : Timestamp} (hle : t ≤ t')
    (ha : s.hasActiveHold tenantId t') : s.hasActiveHold tenantId t := by
  obtain ⟨hold, hmem, hh⟩ := any_eq_true.1 ha
  rw [and_eq_true] at hh
  refine any_eq_true.2 ⟨hold, hmem, ?_⟩
  rw [and_eq_true]
  exact ⟨hh.1, LegalHold.active_antitone hle hh.2⟩

theorem LifecycleStore.hasActiveHold_congr (h : s'.holds = s.holds) (tenantId : Uuid)
    (t : Timestamp) : s'.hasActiveHold tenantId t = s.hasActiveHold tenantId t := by
  unfold hasActiveHold
  rw [h]

theorem LifecycleStore.no_hold_later {tenantId : Uuid} {t t' : Timestamp} (hle : t ≤ t')
    (hn : s.hasActiveHold tenantId t = false) : s.hasActiveHold tenantId t' = false := by
  cases hl : s.hasActiveHold tenantId t' with
  | false => rfl
  | true =>
    rw [hasActiveHold_antitone hle hl] at hn
    cases hn

theorem LifecycleStore.not_running_of_quiet {tenantId : Uuid}
    (h : s.requireNoRunningDeletions tenantId = .ok ()) {j : ObjectDeletionJob} (hj : j ∈ s.jobs)
    (ht : j.objectKey.tenantId = tenantId) : j.state.isRunning = false := by
  unfold requireNoRunningDeletions at h
  split at h
  · cases h
  rename_i hn
  cases hrun : j.state.isRunning with
  | false => rfl
  | true =>
    refine absurd (any_eq_true.2 ⟨j, hj, ?_⟩) hn
    rw [hrun, decide_eq_true ht]
    rfl

def DeletionOp.Timely (w : DeletionSystem) : DeletionOp → Prop
  | .claim _ clock _ _ _ _ => clock ≤ w.now
  | .issue i => ∀ lease ∈ w.issues (.issue i), w.now < lease.expiresAt
  | _ => True

instance (w : DeletionSystem) (op : DeletionOp) : Decidable (op.Timely w) := by
  unfold DeletionOp.Timely
  split <;> infer_instance

def ObjectDeletionLease.Running (s : LifecycleStore) (l : ObjectDeletionLease) : Prop :=
  ∃ j, s.job? l.objectKey = some j ∧ j.leaseGeneration = l.leaseGeneration ∧
    j.state.isRunning = true

structure HoldSafe (w : DeletionSystem) : Prop where
  fenced : Fenced w.store w.outstanding
  running : ∀ l ∈ w.outstanding, w.now < l.expiresAt → l.Running w.store
  unheld : ∀ j ∈ w.store.jobs, j.state.isRunning = true →
    w.store.hasActiveHold j.objectKey.tenantId w.now = false

theorem JobsKept.running (h : JobsKept s s') {l : ObjectDeletionLease} (hl : l.Running s)
    : l.Running s' := by
  obtain ⟨j, hj, hg, hrun⟩ := hl
  obtain ⟨j', hj', hs, hg'⟩ := h.kept _ j hj
  exact ⟨j', hj', hg'.trans hg, by rw [hs]; exact hrun⟩

theorem JobsKept.running_before (h : JobsKept s s')
    (hu : KeyedTable.Unique ObjectDeletionJob.objectKey s.jobs) {j' : ObjectDeletionJob}
    (hj' : j' ∈ s'.jobs) (hrun : j'.state.isRunning) :
    ∃ j ∈ s.jobs, j.objectKey = j'.objectKey ∧ j.state.isRunning := by
  have hf : s'.job? j'.objectKey = some j' :=
    (h.unique hu).lookup_eq_some_iff.2 ⟨hj', rfl⟩
  cases hb : s.job? j'.objectKey with
  | none =>
    have hp := h.added _ j' hb hf
    cases hs : j'.state with
    | running => rw [hs] at hp; cases hp
    | pending | completed | failed => rw [hs] at hrun; cases hrun
  | some j =>
    obtain ⟨_, hj'', hs, -⟩ := h.kept _ j hb
    rw [hf] at hj''
    cases hj''
    have hmem := lookup_some hb
    exact ⟨j, hmem.1, hmem.2, by rw [← hs]; exact hrun⟩

theorem isRunning_iff {state : DeletionState} :
    state.isRunning = true ↔ ∃ w t e, state = .running w t e := by
  cases state <;> simp [DeletionState.isRunning]

section Claims

variable {s s' : LifecycleStore} {leases : List ObjectDeletionLease}
  {rows : List ObjectDeletionJob} {workerId : String} {token : ObjectKey → Uuid}
  {clock expiresAt : Timestamp}

theorem Claimed.running (h : Claimed s s' leases rows workerId token clock expiresAt)
    {l : ObjectDeletionLease} (hb : l.Backed s) (hl : l.Running s)
    (hc : clock < l.expiresAt) : l.Running s' := by
  obtain ⟨j, hj, hg, hrun⟩ := hl
  obtain ⟨_, hj', -, hx⟩ := hb
  rw [hj] at hj'
  cases hj'
  obtain ⟨w, t, e, hs⟩ := isRunning_iff.1 hrun
  obtain rfl := hx hg w t e hs
  have hsa : j.recover clock = j := by
    obtain hsa | ⟨⟨_, _, _, hs', he⟩, -⟩ := j.recover_cases clock
    · exact hsa
    · rw [hs] at hs'
      cases hs'
      exact absurd hc (not_lt.2 he)
  have hrow : j ∉ rows := by
    intro hmem
    have hp := h.pending j hmem
    rw [hs] at hp
    cases hp
  refine ⟨j, ?_, hg, hrun⟩
  rw [h.job?, hj, map_some, claimed, hsa, if_neg hrow]

theorem Claimed.holds (h : Claimed s s' leases rows workerId token clock expiresAt) :
    s'.holds = s.holds := by
  rw [h.store]

theorem Claimed.lease_running (h : Claimed s s' leases rows workerId token clock expiresAt)
    (hu : KeyedTable.Unique ObjectDeletionJob.objectKey s.jobs) {l : ObjectDeletionLease}
    (hl : l ∈ leases) : l.Running s' := by
  obtain ⟨_, -, hg, -, ha⟩ := h.lease_row hu hl
  refine ⟨_, ha, ?_, rfl⟩
  simp [ObjectDeletionJob.claim, hg]

theorem Claimed.running_before (h : Claimed s s' leases rows workerId token clock expiresAt)
    {j' : ObjectDeletionJob} (hj' : j' ∈ s'.jobs) (hrun : j'.state.isRunning) :
    (∃ j ∈ s.jobs, j.objectKey = j'.objectKey ∧ j.state.isRunning) ∨
      s.hasActiveHold j'.objectKey.tenantId clock = false := by
  rw [h.store] at hj'
  obtain ⟨j, hj, rfl⟩ := mem_map.1 hj'
  rw [claimed_objectKey]
  unfold claimed at hrun
  split at hrun
  next hrow =>
    have hu := h.unheld _ hrow
    rw [recover_objectKey] at hu
    exact .inr hu
  · obtain hs | ⟨-, hend, -⟩ := j.recover_cases clock
    · rw [hs] at hrun
      exact .inl ⟨j, hj, rfl, hrun⟩
    · rw [hend] at hrun
      cases hrun

end Claims

theorem Reported.running_other {lease l : ObjectDeletionLease} {row row' : ObjectDeletionJob}
    (h : Reported s s' lease row row') (hl : l.Running s) (ho : l.stamp ≠ lease.stamp)
    : l.Running s' := by
  obtain ⟨j, hj, hg, hrun⟩ := hl
  refine ⟨j, ?_, hg, hrun⟩
  rw [h.job?]
  split
  next hkey =>
    rw [hkey, h.found] at hj
    cases hj
    refine absurd ?_ ho
    exact Prod.ext hkey (hg.symm.trans h.generation)
  · exact hj

theorem holdSafe_initial (now : Timestamp) : HoldSafe (initial now) where
  fenced := fenced_initial now
  running := nofun
  unheld := nofun

theorem HoldSafe.weaken {w w' : DeletionSystem} (h : HoldSafe w) (hs : w'.store = w.store)
    (hnow : w.now ≤ w'.now) (hf : Fenced w'.store w'.outstanding)
    (hsub : w'.outstanding ⊆ w.outstanding) : HoldSafe w' where
  fenced := hf
  running := by
    intro l hl hli
    rw [hs]
    exact h.running l (hsub hl) (lt_of_le_of_lt hnow hli)
  unheld := by
    intro j hj hrun
    rw [hs] at hj ⊢
    exact no_hold_later hnow (h.unheld j hj hrun)

theorem HoldSafe.apply {w : DeletionSystem} (h : HoldSafe w) {op : DeletionOp}
    (hop : op.Timely w) : HoldSafe (w.apply op) := by
  have hf := h.fenced.apply op
  have hs := w.step op
  generalize w.apply op = w' at hf hs ⊢
  cases hs with
  | kept => exact h
  | ticked => exact h.weaken rfl (Nat.le_add_right _ _) hf (List.Subset.refl _)
  | uploaded => exact h.weaken rfl le_rfl hf (List.Subset.refl _)
  | issued hb | erased hb =>
    exact h.weaken rfl le_rfl hf
      (List.Subperm.subset (outstanding_setBatch_subperm hb (.refl _)))
  | dropped i => exact h.weaken rfl le_rfl hf (outstanding_drop i).subset
  | committed hp =>
    have hk := perform_jobs hp
    refine ⟨hf, fun l hl hli => hk.running (h.running l hl hli), ?_⟩
    intro j' hj' hrun
    obtain ⟨j, hj, hkey, hbe⟩ := hk.running_before h.fenced.unique hj' hrun
    rw [← hkey]
    by_contra hhe
    rcases perform_holds hp (Bool.eq_true_of_not_eq_false hhe) with
      hold | hq
    · exact absurd hold (by rw [h.unheld j hj hbe]; exact nofun)
    · rw [not_running_of_quiet hq hj rfl] at hbe
      cases hbe
  | claimed hc =>
    obtain ⟨_, hcl⟩ := claimObjectDeletions_claimed hc
    refine ⟨hf, ?_, ?_⟩
    · intro l hl hli
      rw [outstanding_claim] at hl
      rcases mem_append.1 hl with hold | hnew
      · exact hcl.running (h.fenced.backed l hold) (h.running l hold hli)
          (lt_of_le_of_lt hop hli)
      · exact hcl.lease_running h.fenced.unique hnew
    · intro j' hj' hrun
      rw [hasActiveHold_congr hcl.holds]
      rcases hcl.running_before hj' hrun with ⟨j, hj, hkey, hbe⟩ | hu
      · rw [← hkey]
        exact h.unheld j hj hbe
      · exact no_hold_later hop hu
  | @reported _ _ lease _ _ _ hb hh hou =>
    obtain rfl | ⟨_, row', hr, -⟩ := hou
    · have hn := outstanding_next hb
      exact h.weaken rfl le_rfl hf
        (fun l hl => hn.symm.subset (mem_cons_of_mem _ hl))
    · have hn := outstanding_next hb
      have hd := (hn.map ObjectDeletionLease.stamp).nodup_iff.1 h.fenced.distinct
      rw [map_cons, List.nodup_cons] at hd
      refine ⟨hf, ?_, ?_⟩
      · intro l hl hli
        have ho : l.stamp ≠ lease.stamp := by
          intro heq
          exact hd.1 (heq ▸ mem_map_of_mem hl)
        exact hr.running_other
          (h.running l (hn.symm.subset (mem_cons_of_mem _ hl)) hli) ho
      · intro j hj hrun
        have hmem : j ∈ upsert ObjectDeletionJob.objectKey row' w.store.jobs :=
          hr.jobs ▸ hj
        rcases mem_of_mem_upsert hmem with rfl | hold
        · rw [hr.ended] at hrun
          cases hrun
        · exact (hasActiveHold_congr hh _ _).trans (h.unheld j hold hrun)

theorem DeletionSystem.issues_outstanding {w : DeletionSystem} {op : DeletionOp}
    {lease : ObjectDeletionLease} (h : w.issues op = some lease) :
    (∃ i, op = .issue i) ∧ lease ∈ w.outstanding := by
  cases op with
  | issue i =>
    refine ⟨⟨i, rfl⟩, ?_⟩
    unfold issues at h
    dsimp only at h
    split at h
    next hb =>
      cases h
      exact (outstanding_perm (working?_some hb)).symm.subset (by simp)
    · cases h
  | _ => cases h

/-- **No delete call under a legal hold, as long as workers are timely.** -/
theorem no_delete_under_hold (now : Timestamp) (ops : List DeletionOp)
    (htimely : History.Admissible DeletionSystem.apply (fun w op => op.Timely w)
      (.initial now) ops) : ∀ past op rest lease, ops = past ++ op :: rest →
      (DeletionSystem.after now past).issues op = some lease →
      (DeletionSystem.after now past).store.hasActiveHold lease.objectKey.tenantId
        (DeletionSystem.after now past).now = false := by
  intro past op rest lease hops hissues
  rw [hops, History.admissible_append] at htimely
  obtain ⟨hpast, hop, -⟩ := htimely
  have hsafe : HoldSafe (DeletionSystem.after now past) :=
    History.Admissible.invariant HoldSafe (fun w op h hop => h.apply hop) (holdSafe_initial now)
      hpast
  obtain ⟨⟨_, rfl⟩, houtstanding⟩ := DeletionSystem.issues_outstanding hissues
  have hlive : (DeletionSystem.after now past).now < lease.expiresAt := hop lease hissues
  obtain ⟨j, hj, -, hrunning⟩ := hsafe.running lease houtstanding hlive
  obtain ⟨hmem, hkey⟩ := KeyedTable.lookup_some hj
  rw [← hkey]
  exact hsafe.unheld j hmem hrunning

section Examples

def expiringPatch (id tenantId : Uuid) (expiresAt : Timestamp) : ArtifactRecord :=
  { id := id, objectKey := .finalPatch tenantId 1 id 1, kind := .finalPatch
    expiresAt := some expiresAt }

def timelyDeletion : List DeletionOp :=
  [ .transaction (.createArtifact (expiringPatch 7 1 5)), .tick 5,
    .transaction (.enqueueExpired 5 10), .claim "w1" 5 60 10 [] (fun _ => 1) ]

theorem no_delete_under_hold_timely :
    ((DeletionSystem.after 0 timelyDeletion).issues (.issue 0)).isSome = true ∧
      ∀ lease, (DeletionSystem.after 0 timelyDeletion).issues (.issue 0) = some lease →
        (DeletionSystem.after 0 timelyDeletion).store.hasActiveHold lease.objectKey.tenantId
          (DeletionSystem.after 0 timelyDeletion).now = false :=
  ⟨by decide +kernel, fun lease h =>
    no_delete_under_hold 0 (timelyDeletion ++ [.issue 0]) (by decide +kernel) timelyDeletion
      (.issue 0) [] lease rfl h⟩

def litigationHold : LegalHold :=
  { id := 1, tenantId := 1, reason := "litigation", placedBy := "counsel", placedAt := 65 }

def lateDeletion : List DeletionOp :=
  [ .transaction (.createArtifact (expiringPatch 6 2 4)),
    .transaction (.createArtifact (expiringPatch 7 1 5)),
    .transaction (.createArtifact (expiringPatch 8 1 5)),
    .tick 4, .transaction (.enqueueExpired 4 10), .claim "w0" 4 61 1 [] (fun _ => 1), .stop 0,
    .tick 1, .transaction (.enqueueExpired 5 10),
    .claim "w1" 5 60 10 [] (fun _ => 2), .issue 1, .tick 59, .erase 1, .complete 1,
    .tick 1, .claim "w2" 65 60 1 [] (fun _ => 3), .transaction (.placeHold litigationHold) ]

theorem delete_under_hold :
    ¬ ∀ (now : Timestamp) (past : List DeletionOp) (op : DeletionOp) (lease : ObjectDeletionLease),
      (DeletionSystem.after now past).issues op = some lease →
      (DeletionSystem.after now past).store.hasActiveHold lease.objectKey.tenantId
        (DeletionSystem.after now past).now = false := by
  intro hsafe
  have hissued : ((DeletionSystem.after 0 lateDeletion).issues (.issue 1)).any (fun lease =>
      (DeletionSystem.after 0 lateDeletion).store.hasActiveHold lease.objectKey.tenantId
        (DeletionSystem.after 0 lateDeletion).now) = true := by
    decide +kernel
  obtain ⟨lease, hlease, hheld⟩ := Option.any_eq_true _ _ |>.1 hissued
  rw [hsafe 0 lateDeletion (.issue 1) lease hlease] at hheld
  cases hheld

end Examples

end AgentPlatform
