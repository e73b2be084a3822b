/-
**The outstanding leases of the deletion workers.**
-/

import AgentPlatform.DeletionWorkers

namespace AgentPlatform

open DeletionSystem KeyedTable LifecycleStore ObjectDeletionJob List

def ObjectDeletionLease.stamp (l : ObjectDeletionLease) : ObjectKey × ℕ :=
  (l.objectKey, l.leaseGeneration)

def ObjectDeletionLease.Backed (s : LifecycleStore) (l : ObjectDeletionLease) : Prop :=
  ∃ j, s.job? l.objectKey = some j ∧ l.leaseGeneration ≤ j.leaseGeneration ∧
    (j.leaseGeneration = l.leaseGeneration → ∀ w t e, j.state = .running w t e → e = l.expiresAt)

structure Fenced (s : LifecycleStore) (leases : List ObjectDeletionLease) : Prop where
  unique : KeyedTable.Unique ObjectDeletionJob.objectKey s.jobs
  backed : ∀ l ∈ leases, l.Backed s
  distinct : (leases.map ObjectDeletionLease.stamp).Nodup

def JobsGrow (s s' : LifecycleStore) : Prop :=
  ∀ key j, s.job? key = some j → ∃ j', s'.job? key = some j' ∧
    j.leaseGeneration ≤ j'.leaseGeneration ∧
    (j'.leaseGeneration = j.leaseGeneration → j'.state.isRunning = true → j'.state = j.state)

variable {s s' : LifecycleStore} {lease : ObjectDeletionLease} {row row' : ObjectDeletionJob}

theorem JobsKept.grow (h : JobsKept s s') : JobsGrow s s' := by
  intro key j hj
  obtain ⟨j', hj', hs, hg⟩ := h.kept key j hj
  exact ⟨j', hj', hg.ge, fun _ _ => hs⟩

theorem ObjectDeletionLease.Backed.grow {l : ObjectDeletionLease} (h : l.Backed s)
    (hg : JobsGrow s s') : l.Backed s' := by
  obtain ⟨j, hj, hle, he⟩ := h
  obtain ⟨j', hj', hle', hs⟩ := hg _ j hj
  refine ⟨j', hj', hle.trans hle', ?_⟩
  intro hge w t e hrun
  have hb : j'.leaseGeneration = j.leaseGeneration := by omega
  have hst := hs hb (by rw [hrun]; rfl)
  exact he (hb.symm.trans hge) w t e (hst.symm.trans hrun)

theorem Fenced.grow {leases : List ObjectDeletionLease} (h : Fenced s leases)
    (hg : JobsGrow s s') (hu : KeyedTable.Unique objectKey s'.jobs)
    : Fenced s' leases where
  unique := hu
  backed := fun l hl => (h.backed l hl).grow hg
  distinct := h.distinct

theorem Fenced.subperm {leases leases' : List ObjectDeletionLease} (h : Fenced s leases)
    (hsub : List.Subperm leases' leases) : Fenced s leases' where
  unique := h.unique
  backed := fun l hl => h.backed l (hsub.subset hl)
  distinct := by
    obtain ⟨l, hp, hs⟩ := hsub
    exact (hp.map _).nodup_iff.1 (h.distinct.sublist (hs.map _))

theorem Reported.job? (h : Reported s s' lease row row') (key : ObjectKey) :
    s'.job? key = if key = lease.objectKey then some row' else s.job? key := by
  unfold LifecycleStore.job?
  rw [h.jobs]
  split
  next hkey => rw [hkey, ← h.objectKey, lookup_upsert_self]
  next hkey => exact lookup_upsert_of_ne (fun heq => hkey (heq.symm.trans h.objectKey)) _

theorem Reported.grow (h : Reported s s' lease row row') : JobsGrow s s' := by
  intro key j hj
  rw [h.job? key]
  split
  next hkey =>
    obtain rfl : row = j := by
      rw [hkey, h.found] at hj
      exact Option.some.inj hj
    refine ⟨row', rfl, h.leaseGeneration.ge, ?_⟩
    intro _ hrun
    rw [h.ended] at hrun
    cases hrun
  · exact ⟨j, hj, le_rfl, fun _ _ => rfl⟩

theorem Reported.generation (h : Reported s s' lease row row') :
    row.leaseGeneration = lease.leaseGeneration := by
  have hown := h.owned
  simp only [matchesLease, and_eq_true, decide_eq_true_eq] at hown
  exact hown.1.1.1.1.2

theorem Reported.running (h : Reported s s' lease row row') :
    row.state = .running lease.workerId lease.leaseToken lease.expiresAt := by
  have hown := h.owned
  simp only [matchesLease, and_eq_true, decide_eq_true_eq] at hown
  exact hown.1.1.1.1.1

structure Claimed (s s' : LifecycleStore) (leases : List ObjectDeletionLease)
    (rows : List ObjectDeletionJob) (workerId : String) (token : ObjectKey → Uuid)
    (at' expiresAt : Timestamp) : Prop where
  recovered : ∀ r ∈ rows, ∃ j ∈ s.jobs, r = j.recover at'
  pending : ∀ r ∈ rows, r.state.isPending = true
  unheld : ∀ r ∈ rows, s.hasActiveHold r.objectKey.tenantId at' = false
  keys : KeyedTable.Unique ObjectDeletionJob.objectKey s.jobs →
    (rows.map ObjectDeletionJob.objectKey).Nodup
  leases : leases = rows.map fun j => j.leased workerId (token j.objectKey) expiresAt
  store : s' = { s with
    jobs := s.jobs.map (ObjectDeletionJob.claimed rows workerId token at' expiresAt) }

theorem LifecycleStore.claimObjectDeletions_claimed {workerId : String} {at' : Timestamp}
    {leaseSeconds limit : ℕ} {locked : List ObjectKey} {token : ObjectKey → Uuid}
    {leases : List ObjectDeletionLease}
    (h : s.claimObjectDeletions workerId at' leaseSeconds limit locked token = .ok (leases, s')) :
    ∃ rows, Claimed s s' leases rows workerId token at' (at' + leaseSeconds) := by
  obtain ⟨rows, hrow, hl, hs⟩ := claimObjectDeletions_inv h
  refine ⟨rows, ?_, ?_, ?_, ?_, hl, hs⟩
  · intro r hr
    obtain ⟨hmem, -, -⟩ := mem_claimable (hrow ▸ hr)
    obtain ⟨j, hj, heq⟩ := mem_map.1 hmem
    exact ⟨j, hj, heq.symm⟩
  · exact fun r hr => (mem_claimable (hrow ▸ hr)).2.1
  · exact fun r hr => (mem_claimable (hrow ▸ hr)).2.2
  · intro hu
    have hrec : KeyedTable.Unique objectKey
        (s.jobs.map (recover at')) :=
      hu.map fun j => j.recover_objectKey at'
    rw [hrow]
    refine List.Nodup.sublist ((take_sublist _ _).map _) ?_
    rw [((perm_insertionSort _ _).map _).nodup_iff]
    exact hrec.sublist (filter_sublist.map _)

section ClaimedSection

variable {s s' : LifecycleStore} {leases : List ObjectDeletionLease}
  {rows : List ObjectDeletionJob} {workerId : String} {token : ObjectKey → Uuid}
  {at' expiresAt : Timestamp}

theorem Claimed.job? (h : Claimed s s' leases rows workerId token at' expiresAt) (key : ObjectKey) :
    s'.job? key =
      (s.job? key).map (claimed rows workerId token at' expiresAt) := by
  unfold LifecycleStore.job?
  rw [h.store]
  exact lookup_map (fun j => j.claimed_objectKey rows workerId token at' expiresAt) key _

theorem Claimed.unique (h : Claimed s s' leases rows workerId token at' expiresAt)
    (hu : KeyedTable.Unique objectKey s.jobs) :
    KeyedTable.Unique objectKey s'.jobs := by
  rw [h.store]
  exact hu.map fun j => j.claimed_objectKey rows workerId token at' expiresAt

theorem Claimed.grow (h : Claimed s s' leases rows workerId token at' expiresAt) :
    JobsGrow s s' := by
  intro key j hj
  rw [h.job? key, hj]
  refine ⟨_, rfl, ?_⟩
  unfold claimed
  split
  · have hn : ((j.recover at').claim workerId (token j.objectKey) at' expiresAt).leaseGeneration
        = j.leaseGeneration + 1 := by
      simp [ObjectDeletionJob.claim]
    exact ⟨by omega, fun heq => by omega⟩
  · refine ⟨(j.recover_leaseGeneration at').ge, ?_⟩
    intro _ hrun
    obtain hs | ⟨-, hend, -⟩ := j.recover_cases at'
    · rw [hs]
    · rw [hend] at hrun
      cases hrun

theorem Claimed.lease_row (h : Claimed s s' leases rows workerId token at' expiresAt)
    (hu : KeyedTable.Unique objectKey s.jobs) {l : ObjectDeletionLease}
    (hl : l ∈ leases) :
    ∃ j, s.job? l.objectKey = some j ∧ l.leaseGeneration = j.leaseGeneration + 1 ∧
      l.expiresAt = expiresAt ∧ s'.job? l.objectKey =
        some ((j.recover at').claim workerId (token j.objectKey) at' expiresAt) := by
  rw [h.leases] at hl
  obtain ⟨r, hr, rfl⟩ := mem_map.1 hl
  obtain ⟨j, hj, rfl⟩ := h.recovered r hr
  have hkey : (j.recover at').objectKey = j.objectKey := j.recover_objectKey at'
  have hf : s.job? (j.recover at').objectKey = some j :=
    hu.lookup_eq_some_iff.2 ⟨hj, hkey.symm⟩
  refine ⟨j, hf, ?_, rfl, ?_⟩
  · simp [leased]
  · have hjob := h.job? (j.recover at').objectKey
    rw [hf] at hjob
    rw [show ((j.recover at').leased workerId (token (j.recover at').objectKey)
      expiresAt).objectKey = (j.recover at').objectKey from rfl, hjob]
    simp [claimed, hr]

theorem Fenced.claim (h : Claimed s s' leases rows workerId token at' expiresAt)
    {before : List ObjectDeletionLease} (hf : Fenced s before) :
    Fenced s' (before ++ leases) where
  unique := h.unique hf.unique
  backed := by
    intro l hl
    rcases mem_append.1 hl with hold | hnew
    · exact (hf.backed l hold).grow h.grow
    obtain ⟨j, -, hg, he, ha⟩ := h.lease_row hf.unique hnew
    refine ⟨_, ha, ?_, ?_⟩
    · simp [ObjectDeletionJob.claim, hg]
    · intro _ w t e hs
      simp only [ObjectDeletionJob.claim, DeletionState.running.injEq] at hs
      rw [he, hs.2.2]
  distinct := by
    rw [map_append, nodup_append]
    refine ⟨hf.distinct, ?_, ?_⟩
    · refine List.Nodup.of_map Prod.fst ?_
      rw [h.leases, map_map, map_map]
      exact h.keys hf.unique
    · intro stamp hold stamp' hnew heq
      obtain ⟨l, hl, rfl⟩ := mem_map.1 hold
      obtain ⟨_, hm, rfl⟩ := mem_map.1 hnew
      obtain ⟨j, hj, _, -⟩ := hf.backed l hl
      obtain ⟨_, hj', hg, -, -⟩ := h.lease_row hf.unique hm
      obtain ⟨hkey, _⟩ := Prod.mk.inj heq
      rw [← hkey, hj] at hj'
      cases hj'
      omega

end ClaimedSection

namespace DeletionSystem

variable {w : DeletionSystem} {i : ℕ} {b b' : DeletionBatch}

def others (w : DeletionSystem) (i : ℕ) : List ObjectDeletionLease :=
  (w.batches.eraseIdx i).flatMap DeletionBatch.leases

theorem outstanding_perm (h : w.batches[i]? = some b) :
    List.Perm w.outstanding (b.leases ++ w.others i) := by
  obtain ⟨hi, rfl⟩ := List.getElem?_eq_some_iff.1 h
  have hp := (getElem_cons_eraseIdx_perm hi).symm
  exact hp.flatMap_right DeletionBatch.leases

theorem outstanding_setBatch_perm (h : w.batches[i]? = some b) :
    List.Perm (w.setBatch i b').outstanding (b'.leases ++ w.others i) := by
  obtain ⟨hi, -⟩ := List.getElem?_eq_some_iff.1 h
  have hset : (w.setBatch i b').batches[i]? = some b' := by
    simp [setBatch, hi]
  have ho : (w.setBatch i b').others i = w.others i := by
    simp [others, setBatch, eraseIdx_set_eq]
  rw [← ho]
  exact outstanding_perm hset

theorem outstanding_setBatch_subperm (h : w.batches[i]? = some b)
    (hsub : b'.leases.Sublist b.leases) :
    List.Subperm (w.setBatch i b').outstanding w.outstanding := by
  refine (outstanding_setBatch_perm h).subperm.trans ?_
  refine List.Subperm.trans ?_ (outstanding_perm h).symm.subperm
  exact (hsub.append_right _).subperm

theorem outstanding_drop (i : ℕ) :
    List.Subperm (w.setBatch i { leases := [] }).outstanding w.outstanding := by
  cases h : w.batches[i]? with
  | none =>
    rw [setBatch, set_eq_of_length_le (List.getElem?_eq_none_iff.1 h)]
  | some => exact outstanding_setBatch_subperm h (nil_sublist _)

theorem outstanding_next {lease : ObjectDeletionLease} {rest : List ObjectDeletionLease}
    {phase : BatchPhase} (h : w.batches[i]? = some { leases := lease :: rest, phase := phase }) :
    List.Perm w.outstanding (lease :: (w.setBatch i { leases := rest }).outstanding) := by
  have hr : List.Perm (w.setBatch i { leases := rest }).outstanding (rest ++ w.others i) :=
    outstanding_setBatch_perm h
  exact (outstanding_perm h).trans (hr.symm.cons lease)

theorem outstanding_claim (leases : List ObjectDeletionLease) (s : LifecycleStore) :
    DeletionSystem.outstanding
      { w with store := s, batches := w.batches ++ [{ leases := leases }] } =
      w.outstanding ++ leases := by
  simp [outstanding]

end DeletionSystem

theorem Fenced.apply {w : DeletionSystem} (h : Fenced w.store w.outstanding) (op : DeletionOp) :
    Fenced (w.apply op).store (w.apply op).outstanding := by
  have hs := w.step op
  generalize w.apply op = w' at hs ⊢
  cases hs with
  | committed hp =>
    have hk := perform_jobs hp
    exact h.grow hk.grow (hk.unique h.unique)
  | claimed hc =>
    obtain ⟨_, hcl⟩ := claimObjectDeletions_claimed hc
    rw [outstanding_claim]
    exact Fenced.claim hcl h
  | issued hb | erased hb =>
    exact h.subperm (outstanding_setBatch_subperm hb (.refl _))
  | reported hb _ ho =>
    have hn := outstanding_next hb
    have hre := h.subperm ((sublist_cons_self _ _).subperm.trans hn.symm.subperm)
    obtain rfl | ⟨_, row', hr, -⟩ := ho
    · exact hre
    · refine hre.grow hr.grow ?_
      have hu := h.unique.upsert row'
      rw [← hr.jobs] at hu
      exact hu
  | dropped i => exact h.subperm (outstanding_drop i)
  | _ => exact h

def DeletionSystem.after (now : Timestamp) (ops : List DeletionOp) : DeletionSystem :=
  ops.foldl DeletionSystem.apply (.initial now)

theorem fenced_initial (now : Timestamp) :
    Fenced (initial now).store (initial now).outstanding where
  unique := unique_nil
  backed := nofun
  distinct := nodup_nil

end AgentPlatform
