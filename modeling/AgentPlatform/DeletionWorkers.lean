/-
**Deletion workers: any number of them, on one lifecycle store and one object store.**
-/

import AgentPlatform.Histories
import AgentPlatform.TenantLifecycle

namespace AgentPlatform

open KeyedTable LifecycleStore ObjectDeletionJob

inductive BatchPhase where
  | ready
  | deleting
  | erased
  deriving DecidableEq

/-- A run of `run_batch`: the leases left, the first of them being worked on. -/
structure DeletionBatch where
  leases : List ObjectDeletionLease
  phase : BatchPhase := .ready
  deriving DecidableEq

structure DeletionSystem where
  now : Timestamp
  store : LifecycleStore := {}
  objects : List ObjectKey := []
  batches : List DeletionBatch := []
  deriving DecidableEq

inductive DeletionOp where
  | tick (ticks : ℕ)
  | transaction (op : LifecycleOp)
  | upload (key : ObjectKey)
  | claim (workerId : String) (clock : Timestamp) (leaseSeconds limit : ℕ)
      (locked : List ObjectKey) (token : ObjectKey → Uuid)
  | issue (batch : ℕ)
  | erase (batch : ℕ)
  | complete (batch : ℕ)
  | fail (batch : ℕ) (error : ErrorDetail) (clock : Timestamp)
  | stop (batch : ℕ)

namespace DeletionSystem

variable (w : DeletionSystem)

def working? (i : ℕ) : Option (ObjectDeletionLease × List ObjectDeletionLease × BatchPhase) :=
  match w.batches[i]? with
  | some { leases := lease :: rest, phase := phase } => some (lease, rest, phase)
  | _ => none

def setBatch (i : ℕ) (b : DeletionBatch) : DeletionSystem :=
  { w with batches := w.batches.set i b }

def report (i : ℕ) (rest : List ObjectDeletionLease) :
    Except Failure LifecycleStore → DeletionSystem
  | .ok store => { w with store := store }.setBatch i { leases := rest }
  | .error _ => w.setBatch i { leases := [] }

def apply : DeletionOp → DeletionSystem
  | .tick ticks => { w with now := w.now + ticks }
  | .transaction op =>
    match w.store.perform op with
    | .ok store => { w with store := store }
    | .error _ => w
  | .upload key => if key ∈ w.objects then w else { w with objects := w.objects ++ [key] }
  | .claim workerId clock leaseSeconds limit locked token =>
    match w.store.claimObjectDeletions workerId clock leaseSeconds limit locked token with
    | .ok (leases, store) =>
      { w with store := store, batches := w.batches ++ [{ leases := leases }] }
    | .error _ => w
  | .issue i =>
    match w.working? i with
    | some (lease, rest, .ready) => w.setBatch i { leases := lease :: rest, phase := .deleting }
    | _ => w
  | .erase i =>
    match w.working? i with
    | some (lease, rest, .deleting) =>
      { w with objects := w.objects.filter (· ≠ lease.objectKey) }.setBatch i
        { leases := lease :: rest, phase := .erased }
    | _ => w
  | .complete i =>
    match w.working? i with
    | some (lease, rest, .erased) =>
      w.report i rest (w.store.completeObjectDeletion lease w.now)
    | _ => w
  | .fail i error clock =>
    match w.working? i with
    | some (_, _, .ready) | none => w
    | some (lease, rest, _) =>
      w.report i rest (w.store.failObjectDeletion lease error clock w.now)
  | .stop i => w.setBatch i { leases := [] }

def issues : DeletionOp → Option ObjectDeletionLease
  | .issue i =>
    match w.working? i with
    | some (lease, _, .ready) => some lease
    | _ => none
  | _ => none

def initial (now : Timestamp) : DeletionSystem := { now := now }

def outstanding : List ObjectDeletionLease := w.batches.flatMap DeletionBatch.leases

end DeletionSystem

structure JobsKept (s s' : LifecycleStore) : Prop where
  unique : KeyedTable.Unique ObjectDeletionJob.objectKey s.jobs →
    KeyedTable.Unique ObjectDeletionJob.objectKey s'.jobs
  kept : ∀ key j, s.job? key = some j →
    ∃ j', s'.job? key = some j' ∧ j'.state = j.state ∧ j'.leaseGeneration = j.leaseGeneration
  added : ∀ key j', s.job? key = none → s'.job? key = some j' → j'.state.isPending = true

theorem JobsKept.of_jobs_eq {s s' : LifecycleStore} (h : s'.jobs = s.jobs) : JobsKept s s' where
  unique := by rw [h]; exact id
  kept := by
    intro key j hj
    exact ⟨j, by rw [job?, h]; exact hj, rfl, rfl⟩
  added := by
    intro key j' hn hs
    rw [job?, h] at hs
    exact absurd hs (by rw [← job?, hn]; exact nofun)

theorem JobsKept.trans {s s' s'' : LifecycleStore} (h : JobsKept s s') (h' : JobsKept s' s'') :
    JobsKept s s'' where
  unique := h'.unique ∘ h.unique
  kept := by
    intro key j hj
    obtain ⟨j', hj', hs, hg⟩ := h.kept key j hj
    obtain ⟨j'', hj'', hs', hg'⟩ := h'.kept key j' hj'
    exact ⟨j'', hj'', hs'.trans hs, hg'.trans hg⟩
  added := by
    intro key j'' hn hso
    cases hj' : s'.job? key with
    | none => exact h'.added key j'' hj' hso
    | some j' =>
      obtain ⟨j, hj, hs, -⟩ := h'.kept key j' hj'
      rw [hso] at hj
      cases hj
      rw [hs]
      exact h.added key j' hn hj'

theorem JobsKept.append {s : LifecycleStore} {c : ObjectDeletionJob}
    (hp : c.state.isPending) (hnew : ∀ j ∈ s.jobs, j.objectKey ≠ c.objectKey) :
    JobsKept s { s with jobs := s.jobs ++ [c] } where
  unique := by
    intro hu
    unfold KeyedTable.Unique at hu ⊢
    rw [map_append, nodup_append]
    refine ⟨hu, by simp, ?_⟩
    intro k hk k' hk' heq
    obtain ⟨j, hj, rfl⟩ := mem_map.1 hk
    exact hnew j hj (heq.trans (by simpa using hk'))
  kept := by
    intro key j hj
    exact ⟨j, lookup_append_of_some hj, rfl, rfl⟩
  added := by
    intro key j' hn hs
    obtain rfl : j' = c := by
      have hmem := (lookup_some hs).1
      rcases mem_append.1 hmem with hold | hl
      · exact absurd (lookup_some hs).2 (lookup_eq_none.1 hn j' hold)
      · simpa using hl
    exact hp

theorem LifecycleStore.insertDeletionJobs_kept (s : LifecycleStore)
    (candidates : List ObjectDeletionJob) (hp : ∀ c ∈ candidates, c.state.isPending = true) :
    JobsKept s (s.insertDeletionJobs candidates) := by
  induction candidates generalizing s with
  | nil => exact .of_jobs_eq rfl
  | cons c rest ih =>
    have hr : ∀ c ∈ rest, c.state.isPending = true :=
      fun c' hc' => hp c' (mem_cons_of_mem _ hc')
    by_cases hc : s.jobs.any fun j => decide (j.objectKey = c.objectKey)
    · have hs : s.insertDeletionJobs (c :: rest) = s.insertDeletionJobs rest := by
        simp only [insertDeletionJobs, foldl_cons, hc, if_true]
      rw [hs]
      exact ih s hr
    · have hn : s.insertDeletionJobs (c :: rest) =
          { s with jobs := s.jobs ++ [c] }.insertDeletionJobs rest := by
        simp only [insertDeletionJobs, foldl_cons, hc, false_eq_true, if_false]
      rw [hn]
      refine (JobsKept.append (hp c (mem_cons_self ..)) ?_).trans (ih _ hr)
      intro j hj heq
      exact hc (any_eq_true.2 ⟨j, hj, decide_eq_true heq⟩)

section Transactions

variable {s s' : LifecycleStore}

theorem LifecycleStore.placeLegalHold_inv {hold : LegalHold} (h : s.placeLegalHold hold = .ok s') :
    s.requireNoRunningDeletions hold.tenantId = .ok () ∧
      (s' = s ∨ s' = { s with holds := s.holds ++ [hold] }) := by
  obtain ⟨_, hq, h⟩ := except_bind_ok h
  refine ⟨hq, ?_⟩
  split at h
  · cases h
  · split at h
    · cases h; exact .inr rfl
    · split at h
      · cases h
      · cases h; exact .inl rfl

variable {tenantId : Uuid} {at' : Timestamp}

namespace LifecycleStore

theorem releaseLegalHold_inv {holI : Uuid} {by' : String}
    (h : s.releaseLegalHold tenantId holI by' at' = .ok s') :
    s' = s ∨ ∃ released : LegalHold, released.release.isSome = true ∧
      s' = { s with holds := upsert LegalHold.id released s.holds } := by
  unfold releaseLegalHold at h
  split at h
  · cases h
  split at h
  · cases h
  split at h
  · split at h
    · cases h
    · cases h; exact .inl rfl
  · split at h
    · cases h
    · cases h; exact .inr ⟨_, rfl, rfl⟩

theorem requestTenantDeletion_inv {request : DeletionRequest}
    (h : s.requestTenantDeletion tenantId request = .ok s') : s' = s ∨ s' = s.setTenant
      { tenantId := tenantId, status := .deletionRequested request
        updatedAt := request.requestedAt } := by
  unfold requestTenantDeletion at h
  split at h
  · cases h
  split at h
  · split at h <;> cases h; exact .inl rfl
  · split at h <;> cases h; exact .inl rfl
  · split at h <;> cases h; exact .inl rfl
  · obtain ⟨_, -, h⟩ := except_bind_ok h
    obtain ⟨_, -, h⟩ := except_bind_ok h
    split at h <;> cases h
    exact .inr rfl
  · obtain ⟨_, -, h⟩ := except_bind_ok h
    obtain ⟨_, -, h⟩ := except_bind_ok h
    split at h <;> cases h
    exact .inr rfl

theorem beginTenantDeletion_inv (h : s.beginTenantDeletion tenantId at' = .ok s') :
    (s' = s ∧ ∃ r t, s.status? tenantId = some (.deleting r t)) ∨
      ∃ request, s.status? tenantId = some (.deletionRequested request) ∧
      request.deleteAfter ≤ at' ∧ s' = s.setTenant
        { tenantId := tenantId, status := .deleting request at', updatedAt := at' } := by
  unfold beginTenantDeletion at h
  split at h
  · cases h
  · cases h; exact .inl ⟨rfl, _, _, ‹_›⟩
  · cases h
  · cases h
  next request hst =>
    split at h
    · cases h
    next hl =>
      obtain ⟨_, -, h⟩ := except_bind_ok h
      obtain ⟨_, -, h⟩ := except_bind_ok h
      split at h <;> cases h
      exact .inr ⟨request, hst, Nat.le_of_not_lt hl, rfl⟩

theorem enqueueExpiredArtifacts_inv {limit : ℕ}
    (h : s.enqueueExpiredArtifacts at' limit = .ok s') :
    ∃ candidates : List ObjectDeletionJob, (∀ c ∈ candidates, c.state.isPending = true) ∧
      s' = s.insertDeletionJobs candidates := by
  unfold enqueueExpiredArtifacts at h
  split at h
  · cases h
  · cases h
    refine ⟨_, ?_, rfl⟩
    intro c hc
    obtain ⟨_, -, rfl⟩ := mem_map.1 hc
    rfl

theorem enqueueTenantObjects_inv {limit : ℕ} {now : Timestamp}
    (h : s.enqueueTenantObjects tenantId limit now = .ok s') :
    ∃ candidates candidates' : List ObjectDeletionJob,
      (∀ c ∈ candidates, c.state.isPending = true) ∧ (∀ c ∈ candidates', c.state.isPending = true) ∧
      s' = (s.insertDeletionJobs candidates).insertDeletionJobs candidates' := by
  unfold enqueueTenantObjects at h
  split at h
  · cases h
  split at h
  · obtain ⟨_, -, h⟩ := except_bind_ok h
    cases h
    refine ⟨_, _, ?_, ?_, rfl⟩
    · intro c hc
      obtain ⟨a, -, rfl⟩ := mem_map.1 hc
      rfl
    · intro c hc
      obtain ⟨a, -, rfl⟩ := mem_map.1 hc
      rfl
  · cases h

theorem finalizeTenantDeletion_inv
    (h : s.finalizeTenantDeletion tenantId at' = .ok s') :
    s' = s ∨ s.requireObjectsDeleted tenantId = .ok () ∧ s'.holds = s.holds ∧
      s'.jobs = s.jobs.map fun j =>
        if j.objectKey.tenantId = tenantId then { j with artifactId := none } else j := by
  unfold finalizeTenantDeletion at h
  split at h
  · cases h
  · cases h
  · cases h
  · cases h; exact .inl rfl
  · obtain ⟨_, -, h⟩ := except_bind_ok h
    obtain ⟨_, -, h⟩ := except_bind_ok h
    obtain ⟨_, hd, h⟩ := except_bind_ok h
    cases h
    exact .inr ⟨hd, rfl, rfl⟩

end LifecycleStore

theorem JobsKept.map {g : ObjectDeletionJob → ObjectDeletionJob} (h : s'.jobs = s.jobs.map g)
    (hkey : ∀ j, (g j).objectKey = j.objectKey) (hs : ∀ j, (g j).state = j.state)
    (hg : ∀ j, (g j).leaseGeneration = j.leaseGeneration) : JobsKept s s' where
  unique := by rw [h]; exact fun hu => hu.map hkey
  kept := by
    intro key j hj
    refine ⟨g j, ?_, hs j, hg j⟩
    rw [job?, h, lookup_map hkey, ← job?, hj]
    rfl
  added := by
    intro key j' hn hso
    rw [job?, h, lookup_map hkey, ← job?, hn] at hso
    cases hso

theorem LifecycleStore.perform_jobs {op : LifecycleOp} (h : s.perform op = .ok s') :
    JobsKept s s' := by
  cases op with
  | placeHold =>
    obtain ⟨-, rfl | rfl⟩ := placeLegalHold_inv h <;> exact .of_jobs_eq rfl
  | releaseHold =>
    obtain rfl | ⟨_, -, rfl⟩ := releaseLegalHold_inv h <;> exact .of_jobs_eq rfl
  | requestDeletion =>
    obtain rfl | rfl := requestTenantDeletion_inv h <;> exact .of_jobs_eq rfl
  | beginDeletion =>
    obtain ⟨rfl, -⟩ | ⟨_, -, -, rfl⟩ := beginTenantDeletion_inv h <;> exact .of_jobs_eq rfl
  | enqueueExpired =>
    obtain ⟨candidates, hp, rfl⟩ := enqueueExpiredArtifacts_inv h
    exact s.insertDeletionJobs_kept candidates hp
  | enqueueTenant =>
    obtain ⟨candidates, candidates', hp, hp', rfl⟩ := enqueueTenantObjects_inv h
    exact (s.insertDeletionJobs_kept candidates hp).trans
      (insertDeletionJobs_kept _ candidates' hp')
  | finalize =>
    obtain rfl | ⟨-, -, hjob⟩ := finalizeTenantDeletion_inv h
    · exact .of_jobs_eq rfl
    · refine .map hjob ?_ ?_ ?_ <;> intro j <;> split <;> rfl
  | createArtifact =>
    obtain ⟨_, -, h⟩ := except_bind_ok h
    cases h
    exact .of_jobs_eq rfl
  | createSnapshot =>
    obtain ⟨_, -, h⟩ := except_bind_ok h
    cases h
    exact .of_jobs_eq rfl
  | recordExport | saveRun => cases h; exact .of_jobs_eq rfl

theorem LifecycleStore.perform_holds {op : LifecycleOp} (h : s.perform op = .ok s') {t : Timestamp}
    (ha : s'.hasActiveHold tenantId t) :
    s.hasActiveHold tenantId t ∨ s.requireNoRunningDeletions tenantId = .ok () := by
  have hs : s'.holds = s.holds → s.hasActiveHold tenantId t = true := by
    intro heq
    rw [hasActiveHold, ← heq]
    exact ha
  cases op with
  | placeHold =>
    obtain ⟨hq, rfl | rfl⟩ := placeLegalHold_inv h
    · exact .inl ha
    · simp only [hasActiveHold, List.any_append, or_eq_true, List.any_cons, List.any_nil,
        Bool.or_false, and_eq_true, decide_eq_true_eq] at ha
      obtain hold' | ⟨rfl, -⟩ := ha
      · exact .inl hold'
      · exact .inr hq
  | releaseHold =>
    obtain rfl | ⟨_, hr, rfl⟩ := releaseLegalHold_inv h
    · exact .inl ha
    obtain ⟨hold, hmem, hh⟩ := any_eq_true.1 ha
    rcases mem_of_mem_upsert hmem with rfl | hmem
    · simp [LegalHold.active, Option.isNone_iff_eq_none] at hh
      rw [hh.2.1] at hr
      cases hr
    · exact .inl (any_eq_true.2 ⟨hold, hmem, hh⟩)
  | requestDeletion =>
    obtain rfl | rfl := requestTenantDeletion_inv h <;> exact .inl ha
  | beginDeletion =>
    obtain ⟨rfl, -⟩ | ⟨_, -, -, rfl⟩ := beginTenantDeletion_inv h <;> exact .inl ha
  | enqueueExpired =>
    obtain ⟨candidates, -, rfl⟩ := enqueueExpiredArtifacts_inv h
    exact .inl ha
  | enqueueTenant =>
    obtain ⟨candidates, _, -, -, rfl⟩ := enqueueTenantObjects_inv h
    exact .inl ha
  | finalize =>
    obtain rfl | ⟨-, hholds, -⟩ := finalizeTenantDeletion_inv h
    · exact .inl ha
    · exact .inl (hs hholds)
  | createArtifact =>
    obtain ⟨_, -, h⟩ := except_bind_ok h
    cases h
    exact .inl ha
  | createSnapshot =>
    obtain ⟨_, -, h⟩ := except_bind_ok h
    cases h
    exact .inl ha
  | recordExport | saveRun => cases h; exact .inl ha

end Transactions

section Outbox

variable {s s' : LifecycleStore}

@[simp] theorem ObjectDeletionJob.recover_objectKey (t : Timestamp) (j : ObjectDeletionJob) :
    (j.recover t).objectKey = j.objectKey := by
  unfold recover
  split
  · split <;> rfl
  · rfl

@[simp] theorem ObjectDeletionJob.recover_leaseGeneration (t : Timestamp) (j : ObjectDeletionJob) :
    (j.recover t).leaseGeneration = j.leaseGeneration := by
  unfold recover
  split
  · split <;> rfl
  · rfl

theorem ObjectDeletionJob.recover_cases (t : Timestamp) (j : ObjectDeletionJob) :
    j.recover t = j ∨ (∃ w token e, j.state = .running w token e ∧ e ≤ t) ∧
      (j.recover t).state.isRunning = false ∧ (j.recover t).state.isCompleted = false := by
  unfold recover
  split
  next w token e hs =>
    split
    next he =>
      refine .inr ⟨⟨w, token, e, hs, he⟩, ?_⟩
      dsimp only
      split <;> exact ⟨rfl, rfl⟩
    · exact .inl rfl
  · exact .inl rfl

def ObjectDeletionJob.claimed (rows : List ObjectDeletionJob) (workerId : String)
    (token : ObjectKey → Uuid) (at' expiresAt : Timestamp) (j : ObjectDeletionJob) :
    ObjectDeletionJob :=
  if j.recover at' ∈ rows then (j.recover at').claim workerId (token j.objectKey) at' expiresAt
  else j.recover at'

@[simp] theorem ObjectDeletionJob.claimed_objectKey (rows : List ObjectDeletionJob)
    (workerId : String) (token : ObjectKey → Uuid) (at' e : Timestamp) (j : ObjectDeletionJob) :
    (j.claimed rows workerId token at' e).objectKey = j.objectKey := by
  unfold claimed
  split
  · exact j.recover_objectKey at'
  · exact j.recover_objectKey at'

theorem LifecycleStore.mem_claimable {jobs : List ObjectDeletionJob} {locked : List ObjectKey}
    {at' : Timestamp} {limit : ℕ} {j : ObjectDeletionJob}
    (h : j ∈ s.claimable jobs locked at' limit) : j ∈ jobs ∧ j.state.isPending ∧
      s.hasActiveHold j.objectKey.tenantId at' = false := by
  have hs := List.mem_of_mem_take h
  rw [mem_insertionSort, mem_filter] at hs
  obtain ⟨hmem, hc⟩ := hs
  simp only [and_eq_true, Bool.not_eq_true'] at hc
  exact ⟨hmem, hc.1.1.1, hc.2⟩

theorem LifecycleStore.claimObjectDeletions_inv {workerId : String} {at' : Timestamp}
    {leaseSeconds limit : ℕ} {locked : List ObjectKey} {token : ObjectKey → Uuid}
    {leases : List ObjectDeletionLease}
    (h : s.claimObjectDeletions workerId at' leaseSeconds limit locked token = .ok (leases, s')) :
    ∃ rows, rows = s.claimable (s.jobs.map (recover at')) locked at' limit ∧
      leases = rows.map (fun j => j.leased workerId (token j.objectKey) (at' + leaseSeconds)) ∧
      s' = { s with
        jobs := s.jobs.map
          (claimed rows workerId token at' (at' + leaseSeconds)) } := by
  unfold claimObjectDeletions at h
  split at h
  · cases h
  cases h
  refine ⟨_, rfl, rfl, ?_⟩
  simp only [map_map]
  congr 2
  funext j
  simp only [Function.comp, claimed, recover_objectKey]

structure Reported (s s' : LifecycleStore) (lease : ObjectDeletionLease)
    (row row' : ObjectDeletionJob) : Prop where
  jobs : s'.jobs = KeyedTable.upsert ObjectDeletionJob.objectKey row' s.jobs
  found : s.job? lease.objectKey = some row
  owned : row.matchesLease lease = true
  objectKey : row'.objectKey = lease.objectKey
  leaseGeneration : row'.leaseGeneration = row.leaseGeneration
  ended : row'.state.isRunning = false

theorem LifecycleStore.job?_objectKey {key : ObjectKey} {j : ObjectDeletionJob}
    (h : s.job? key = some j) : j.objectKey = key :=
  (lookup_some h).2

theorem LifecycleStore.completeObjectDeletion_inv {lease : ObjectDeletionLease}
    {now : Timestamp} (h : s.completeObjectDeletion lease now = .ok s') :
    s'.holds = s.holds ∧ (s' = s ∨ ∃ row row', Reported s s' lease row row') := by
  unfold completeObjectDeletion at h
  cases hrow : s.job? lease.objectKey with
  | none => rw [hrow] at h; cases h
  | some row =>
    have hkey := job?_objectKey hrow
    simp only [hrow] at h
    split at h
    · cases h; exact ⟨rfl, .inl rfl⟩
    split at h
    · cases h
    rename_i hown
    split at h
    · cases h
    · split at h
      · cases h
      · cases h
        exact ⟨rfl, .inr ⟨row, _, rfl, hrow, by simpa using hown, hkey, rfl, rfl⟩⟩

theorem LifecycleStore.failObjectDeletion_inv {lease : ObjectDeletionLease} {error : ErrorDetail}
    {at' now : Timestamp} (h : s.failObjectDeletion lease error at' now = .ok s') :
    s'.holds = s.holds ∧ (s' = s ∨ ∃ row row', Reported s s' lease row row' ∧
      row'.state.isCompleted = false) := by
  unfold failObjectDeletion at h
  cases hrow : s.job? lease.objectKey with
  | none => rw [hrow] at h; cases h
  | some row =>
    have hkey := job?_objectKey hrow
    simp only [hrow] at h
    split at h
    · cases h; exact ⟨rfl, .inl rfl⟩
    split at h
    · cases h
    rename_i hown
    split at h
    · cases h
    · cases h
      refine ⟨rfl, .inr ⟨row, _, ⟨rfl, hrow, by simpa using hown, hkey, rfl, ?_⟩, ?_⟩⟩
      · dsimp only; split <;> rfl
      · dsimp only; split <;> rfl

end Outbox

def ReportOutcome (s s' : LifecycleStore) (lease : ObjectDeletionLease) (phase : BatchPhase) :
    Prop :=
  s' = s ∨ ∃ row row', Reported s s' lease row row' ∧
    (row'.state.isCompleted = true → phase = .erased)

inductive DeletionStep (w : DeletionSystem) : DeletionOp → DeletionSystem → Prop
  | kept (op : DeletionOp) : DeletionStep w op w
  | ticked (n : ℕ) : DeletionStep w (.tick n) { w with now := w.now + n }
  | committed {op : LifecycleOp} {s : LifecycleStore} (h : w.store.perform op = .ok s) :
      DeletionStep w (.transaction op) { w with store := s }
  | uploaded {key : ObjectKey} :
      DeletionStep w (.upload key) { w with objects := w.objects ++ [key] }
  | claimed {workerId : String} {clock : Timestamp} {leaseSeconds limit : ℕ}
      {locked : List ObjectKey} {token : ObjectKey → Uuid} {leases : List ObjectDeletionLease}
      {s : LifecycleStore}
      (h : w.store.claimObjectDeletions workerId clock leaseSeconds limit locked token =
        .ok (leases, s)) :
      DeletionStep w (.claim workerId clock leaseSeconds limit locked token)
        { w with store := s, batches := w.batches ++ [{ leases := leases }] }
  | issued {i : ℕ} {lease : ObjectDeletionLease} {rest : List ObjectDeletionLease}
      (h : w.batches[i]? = some { leases := lease :: rest }) :
      DeletionStep w (.issue i) (w.setBatch i { leases := lease :: rest, phase := .deleting })
  | erased {i : ℕ} {lease : ObjectDeletionLease} {rest : List ObjectDeletionLease}
      (h : w.batches[i]? = some { leases := lease :: rest, phase := .deleting }) :
      DeletionStep w (.erase i)
        ({ w with objects := w.objects.filter (· ≠ lease.objectKey) }.setBatch i
          { leases := lease :: rest, phase := .erased })
  | reported {op : DeletionOp} {i : ℕ} {lease : ObjectDeletionLease}
      {rest : List ObjectDeletionLease} {phase : BatchPhase} {s : LifecycleStore}
      (h : w.batches[i]? = some { leases := lease :: rest, phase := phase })
      (hholds : s.holds = w.store.holds) (houtcome : ReportOutcome w.store s lease phase) :
      DeletionStep w op ({ w with store := s }.setBatch i { leases := rest })
  | dropped {op : DeletionOp} (i : ℕ) : DeletionStep w op (w.setBatch i { leases := [] })

theorem DeletionSystem.working?_some {w : DeletionSystem} {i : ℕ} {lease : ObjectDeletionLease}
    {rest : List ObjectDeletionLease} {phase : BatchPhase}
    (h : w.working? i = some (lease, rest, phase)) :
    w.batches[i]? = some { leases := lease :: rest, phase := phase } := by
  unfold working? at h
  split at h
  next hb =>
    cases h
    exact hb
  · cases h

theorem DeletionSystem.step (w : DeletionSystem) (op : DeletionOp) :
    DeletionStep w op (w.apply op) := by
  cases op with
  | tick n => exact .ticked n
  | transaction op =>
    simp only [apply]
    cases h : w.store.perform op with
    | ok => exact .committed h
    | error => exact .kept _
  | upload =>
    simp only [apply]
    split
    · exact .kept _
    · exact .uploaded
  | claim workerId clock leaseSeconds limit locked token =>
    simp only [apply]
    cases h : w.store.claimObjectDeletions workerId clock leaseSeconds limit locked token with
    | ok => exact .claimed h
    | error => exact .kept _
  | issue =>
    simp only [apply]
    split
    next hb => exact .issued (working?_some hb)
    · exact .kept _
  | erase =>
    simp only [apply]
    split
    next hb => exact .erased (working?_some hb)
    · exact .kept _
  | complete i =>
    simp only [apply]
    split
    next lease rest hb =>
      cases h : w.store.completeObjectDeletion lease w.now with
      | error => exact .dropped i
      | ok =>
        obtain ⟨hholds, houtcome⟩ := completeObjectDeletion_inv h
        refine .reported (working?_some hb) hholds ?_
        obtain hs | ⟨row, row', hr⟩ := houtcome
        · exact .inl hs
        · exact .inr ⟨row, row', hr, fun _ => rfl⟩
    · exact .kept _
  | fail i error clock =>
    simp only [apply]
    split
    · exact .kept _
    · exact .kept _
    rename_i lease rest phase _ hb
    cases h : w.store.failObjectDeletion lease error clock w.now with
    | error => exact .dropped i
    | ok =>
      obtain ⟨hholds, houtcome⟩ := failObjectDeletion_inv h
      refine .reported (working?_some hb) hholds ?_
      obtain hs | ⟨row, row', hr, ho⟩ := houtcome
      · exact .inl hs
      · exact .inr ⟨row, row', hr, by rw [ho]; exact nofun⟩
  | stop i => exact .dropped i

end AgentPlatform
