/-
**Erasure of a tenant's objects.**
-/

import AgentPlatform.DeletionLeases

namespace AgentPlatform

open DeletionSystem LifecycleStore ObjectDeletionJob List

def LifecycleStore.records (s : LifecycleStore) (key : ObjectKey) : Bool :=
  s.hasJob key || (s.artifacts.any fun a => decide (a.objectKey = key)) ||
    s.snapshots.any fun a => decide (a.objectKey = key)

def DeletionOp.Recorded (w : DeletionSystem) : DeletionOp → Prop
  | .upload key => ∀ j ∈ w.store.job? key, j.state.isRunning = false ∧ j.state.isCompleted = false
  | .transaction (.finalize tenantId _) => ∀ key ∈ w.objects, key.tenantId = tenantId →
      key.isAuditExport = false → w.store.records key = true
  | _ => True

instance (w : DeletionSystem) (op : DeletionOp) : Decidable (op.Recorded w) := by
  unfold DeletionOp.Recorded
  split <;> infer_instance

def ObjectDeletionLease.Erased (w : DeletionSystem) (l : ObjectDeletionLease) : Prop :=
  ∀ j, w.store.job? l.objectKey = some j → j.leaseGeneration = l.leaseGeneration →
    j.state.isRunning = true → l.objectKey ∉ w.objects

structure Erasing (w : DeletionSystem) : Prop where
  fenced : Fenced w.store w.outstanding
  completed : ∀ key j, w.store.job? key = some j → j.state.isCompleted = true → key ∉ w.objects
  erased : ∀ b ∈ w.batches, b.phase = .erased → ∀ lease rest, b.leases = lease :: rest →
    lease.Erased w

theorem erasing_initial (now : Timestamp) : Erasing (initial now) where
  fenced := fenced_initial now
  completed := nofun
  erased := nofun

structure RowsFrom (s s' : LifecycleStore) : Prop where
  completed : ∀ key j', s'.job? key = some j' → j'.state.isCompleted = true →
    ∃ j, s.job? key = some j ∧ j.state.isCompleted = true
  running : ∀ l : ObjectDeletionLease, l.Backed s → ∀ j', s'.job? l.objectKey = some j' →
    j'.leaseGeneration = l.leaseGeneration → j'.state.isRunning = true →
    ∃ j, s.job? l.objectKey = some j ∧ j.leaseGeneration = l.leaseGeneration ∧
      j.state.isRunning = true

variable {s : LifecycleStore} {w : DeletionSystem}

variable {s' : LifecycleStore} {lease : ObjectDeletionLease} {rest : List ObjectDeletionLease}
    {i : ℕ} {w' : DeletionSystem}

theorem JobsKept.rowsFrom (h : JobsKept s s') : RowsFrom s s' where
  completed := by
    intro key j' hj' hc
    cases hj : s.job? key with
    | none =>
      have hp := h.added key j' hj hj'
      cases hs : j'.state with
      | completed => rw [hs] at hp; cases hp
      | _ => rw [hs] at hc; cases hc
    | some j =>
      obtain ⟨j'', hj'', hs, -⟩ := h.kept key j hj
      rw [hj'] at hj''
      cases hj''
      exact ⟨j, rfl, by rw [← hs]; exact hc⟩
  running := by
    intro l hb j' hj' hg hrun
    obtain ⟨j, hj, -⟩ := hb
    obtain ⟨j'', hj'', hs, hg'⟩ := h.kept _ j hj
    rw [hj'] at hj''
    cases hj''
    exact ⟨j, hj, hg'.symm.trans hg, by rw [← hs]; exact hrun⟩

theorem Claimed.rowsFrom {leases : List ObjectDeletionLease} {rows : List ObjectDeletionJob}
    {workerId : String} {token : ObjectKey → Uuid} {clock expiresAt : Timestamp}
    (h : Claimed s s' leases rows workerId token clock expiresAt) : RowsFrom s s' where
  completed := by
    intro key j' hj' hc
    rw [h.job?] at hj'
    obtain ⟨j, hj, rfl⟩ := Option.map_eq_some_iff.1 hj'
    unfold claimed at hc
    split at hc
    · cases hc
    · obtain hs | ⟨-, -, ho⟩ := j.recover_cases clock
      · exact ⟨j, hj, by rw [hs] at hc; exact hc⟩
      · rw [ho] at hc
        cases hc
  running := by
    intro l hb j' hj' hg hrun
    obtain ⟨j₀, hj₀, _, -⟩ := hb
    rw [h.job?] at hj'
    obtain ⟨j, hj, rfl⟩ := Option.map_eq_some_iff.1 hj'
    obtain rfl : j₀ = j := Option.some.inj (hj₀.symm.trans hj)
    unfold claimed at hg hrun
    split at hrun
    ·
      rename_i hrow
      rw [if_pos hrow] at hg
      simp only [ObjectDeletionJob.claim, recover_leaseGeneration] at hg
      omega
    next hrow =>
      rw [if_neg hrow, recover_leaseGeneration] at hg
      obtain hs | ⟨-, hend, -⟩ := j₀.recover_cases clock
      · exact ⟨j₀, hj₀, hg, by rw [hs] at hrun; exact hrun⟩
      · rw [hend] at hrun
        cases hrun

theorem RowsFrom.refl (s : LifecycleStore) : RowsFrom s s where
  completed := fun _ j hj hc => ⟨j, hj, hc⟩
  running := fun _ _ j hj hg hrun => ⟨j, hj, hg, hrun⟩

theorem DeletionSystem.mem_outstanding {b : DeletionBatch} (hb : b ∈ w.batches)
    (hl : b.leases = lease :: rest) : lease ∈ w.outstanding :=
  mem_flatMap.2 ⟨b, hb, by rw [hl]; exact mem_cons_self ..⟩

theorem DeletionSystem.mem_setBatch {b b' : DeletionBatch} (hb : b ∈ (w.setBatch i b').batches)
    (hph : b'.phase ≠ .erased) (he : b.phase = .erased) : b ∈ w.batches := by
  rcases mem_or_eq_of_mem_set hb with hold | rfl
  · exact hold
  · exact absurd he hph

theorem Erasing.advance (h : Erasing w) (hf : Fenced w'.store w'.outstanding)
    (hrow : RowsFrom w.store w'.store) (ho : w'.objects ⊆ w.objects)
    (hba : ∀ b ∈ w'.batches, b.phase = .erased → b ∈ w.batches) : Erasing w' where
  fenced := hf
  completed := by
    intro key j' hj' hc hmem
    obtain ⟨j, hj, hbe⟩ := hrow.completed key j' hj' hc
    exact h.completed key j hj hbe (ho hmem)
  erased := by
    intro b hb hph lease rest hl j' hj' hg hrun hmem
    have hold := hba b hb hph
    have hbc := h.fenced.backed lease (mem_outstanding hold hl)
    obtain ⟨j, hj, hg', hbe⟩ :=
      hrow.running lease hbc j' hj' hg hrun
    exact h.erased b hold hph lease rest hl j hj hg' hbe (ho hmem)

theorem Erasing.upload (h : Erasing w) {key : ObjectKey}
    (hkey : DeletionOp.Recorded w (.upload key)) :
    Erasing { w with objects := w.objects ++ [key] } where
  fenced := h.fenced
  completed := by
    intro key' j hj hc hmem
    rcases mem_append.1 hmem with hold | hnew
    · exact h.completed key' j hj hc hold
    · obtain rfl : key' = key := by simpa using hnew
      have ho := (hkey j hj).2
      rw [hc] at ho
      cases ho
  erased := by
    intro b hb hph lease rest hl j hj hg hrun hmem
    rcases mem_append.1 hmem with hold | hnew
    · exact h.erased b hb hph lease rest hl j hj hg hrun hold
    · obtain rfl : lease.objectKey = key := by simpa using hnew
      have hi := (hkey j hj).1
      rw [hrun] at hi
      cases hi

theorem Erasing.erase (h : Erasing w)
    (hw' : w' = { w with objects := w.objects.filter (· ≠ lease.objectKey) }.setBatch i
      { leases := lease :: rest, phase := .erased }) (hf : Fenced w'.store w'.outstanding)
    : Erasing w' := by
  subst hw'
  refine ⟨hf, ?_, ?_⟩
  · intro key j hj hc hmem
    exact h.completed key j hj hc (mem_filter.1 hmem).1
  intro b hb hph lease' rest' hl j hj hg hrun hmem
  rcases mem_or_eq_of_mem_set hb with hold | rfl
  · exact h.erased b hold hph lease' rest' hl j hj hg hrun
      (mem_filter.1 hmem).1
  · obtain ⟨rfl, -⟩ := List.cons.inj hl
    simpa using (mem_filter.1 hmem).2

theorem Erasing.report (h : Erasing w) {phase : BatchPhase} {row row' : ObjectDeletionJob}
    (hb : w.batches[i]? = some { leases := lease :: rest, phase := phase })
    (hr : Reported w.store s lease row row')
    (he : row'.state.isCompleted = true → phase = .erased)
    (hw' : w' = { w with store := s }.setBatch i { leases := rest })
    (hf : Fenced w'.store w'.outstanding) : Erasing w' := by
  subst hw'
  refine ⟨hf, ?_, ?_⟩
  · intro key j hj hc
    have hjob := hr.job? key
    by_cases hkey : key = lease.objectKey
    · rw [if_pos hkey] at hjob
      obtain rfl : row' = j := Option.some.inj (hjob.symm.trans hj)
      rw [hkey]
      have hmem := mem_of_getElem? hb
      exact h.erased _ hmem (he hc) lease rest rfl row hr.found
        hr.generation (by rw [hr.running]; rfl)
    · rw [if_neg hkey] at hjob
      exact h.completed key j (hjob.symm.trans hj) hc
  · intro b hb' hph lease' rest' hl j hj hg hrun
    have hold := mem_setBatch hb' nofun hph
    have hjob := hr.job? lease'.objectKey
    by_cases hkey : lease'.objectKey = lease.objectKey
    · rw [if_pos hkey] at hjob
      obtain rfl : row' = j := Option.some.inj (hjob.symm.trans hj)
      rw [hr.ended] at hrun
      cases hrun
    · rw [if_neg hkey] at hjob
      exact h.erased b hold hph lease' rest' hl j (hjob.symm.trans hj) hg hrun

theorem Erasing.apply (h : Erasing w) {op : DeletionOp} (hop : op.Recorded w)
    : Erasing (w.apply op) := by
  have hf := h.fenced.apply op
  have hs := w.step op
  generalize w.apply op = w' at hf hs ⊢
  cases hs with
  | kept => exact h
  | ticked => exact h.advance hf (.refl _) (List.Subset.refl _) (fun _ hb _ => hb)
  | committed hp =>
    exact h.advance hf (perform_jobs hp).rowsFrom
      (List.Subset.refl _) (fun _ hb _ => hb)
  | uploaded => exact h.upload hop
  | claimed hc =>
    obtain ⟨_, hcl⟩ := claimObjectDeletions_claimed hc
    refine h.advance hf hcl.rowsFrom (List.Subset.refl _) ?_
    intro b hb hph
    rcases mem_append.1 hb with hold | hnew
    · exact hold
    · rw [mem_singleton.1 hnew] at hph
      cases hph
  | issued | dropped =>
    exact h.advance hf (.refl _) (List.Subset.refl _)
      fun b hb' => mem_setBatch hb' nofun
  | erased => exact h.erase rfl hf
  | reported hb _ ho =>
    obtain rfl | ⟨_, _, hr, he⟩ := ho
    · exact h.advance hf (.refl _) (List.Subset.refl _)
        fun b hb' => mem_setBatch hb' nofun
    · exact h.report hb hr he rfl hf

theorem LifecycleStore.requireObjectsDeleted_inv {tenantId : Uuid}
    (h : s.requireObjectsDeleted tenantId = .ok ()) :
    (∀ j ∈ s.jobs, j.objectKey.tenantId = tenantId → j.state.isCompleted) ∧
    (∀ a ∈ s.artifacts, a.objectKey.tenantId = tenantId → s.hasJob a.objectKey) ∧
    (∀ a ∈ s.snapshots, a.objectKey.tenantId = tenantId → s.hasJob a.objectKey) := by
  unfold requireObjectsDeleted at h
  dsimp only at h
  split at h
  · cases h
  rename_i hg
  simp only [or_eq_true, not_or, not_eq_true, List.any_eq_false, and_eq_true,
    not_and, decide_eq_true_eq, Bool.not_eq_false'] at hg
  obtain ⟨⟨hjob, har⟩, hs⟩ := hg
  refine ⟨fun j hj ht => ?_, fun a ha ht => ?_, fun a ha ht => ?_⟩
  · simpa using hjob j hj ht
  · simpa using har a ha ht
  · simpa using hs a ha ht

theorem LifecycleStore.completed_of_records {key : ObjectKey}
    (hg : s.requireObjectsDeleted key.tenantId = .ok ()) (hrec : s.records key) :
    ∃ j ∈ s.jobs, j.objectKey = key ∧ j.state.isCompleted := by
  obtain ⟨hjb, har, hs⟩ := requireObjectsDeleted_inv hg
  have hjob : s.hasJob key := by
    simp only [records, or_eq_true, any_eq_true, decide_eq_true_eq] at hrec
    obtain (hjob | ⟨a, ha, rfl⟩) | ⟨a, ha, rfl⟩ := hrec
    · exact hjob
    · exact har a ha rfl
    · exact hs a ha rfl
  obtain ⟨j, hj, hkey⟩ := any_eq_true.1 hjob
  have hkey : j.objectKey = key := of_decide_eq_true hkey
  exact ⟨j, hj, hkey, hjb j hj (by rw [hkey])⟩

theorem LifecycleStore.finalizeTenantDeletion_gate {tenantId : Uuid} {at' : Timestamp}
    {request : DeletionRequest} {startedAt : Timestamp}
    (hs : s.status? tenantId = some (.deleting request startedAt))
    (h : s.finalizeTenantDeletion tenantId at' = .ok s') :
    s.requireObjectsDeleted tenantId = .ok () := by
  unfold finalizeTenantDeletion at h
  simp only [hs] at h
  obtain ⟨_, -, h⟩ := except_bind_ok h
  obtain ⟨_, -, h⟩ := except_bind_ok h
  obtain ⟨_, hg, -⟩ := except_bind_ok h
  exact hg

theorem DeletionSystem.after_transaction_objects (now : Timestamp) (past : List DeletionOp)
    (op : LifecycleOp) :
    (after now (past ++ [.transaction op])).objects = (after now past).objects := by
  simp only [after, foldl_append, foldl_cons, foldl_nil, apply]
  split <;> rfl

/-- **Tenant erasure.** -/
theorem tenant_erasure (now : Timestamp) (ops : List DeletionOp)
    (hrecorded : History.Admissible DeletionSystem.apply (fun w op => op.Recorded w)
      (.initial now) ops) : ∀ past rest tenantId at' request startedAt s',
      ops = past ++ .transaction (.finalize tenantId at') :: rest →
      (DeletionSystem.after now past).store.status? tenantId = some (.deleting request startedAt) →
      (DeletionSystem.after now past).store.finalizeTenantDeletion tenantId at' = .ok s' →
      ∀ key ∈ (DeletionSystem.after now (past ++ [.transaction (.finalize tenantId at')])).objects,
        key.tenantId = tenantId → key.isAuditExport = true := by
  intro past rest tenantId at' request startedAt s' hops hstatus hcommit key hkey htenant
  rw [DeletionSystem.after_transaction_objects] at hkey
  rw [hops, History.admissible_append] at hrecorded
  obtain ⟨hpast, hop, -⟩ := hrecorded
  have herasing : Erasing (DeletionSystem.after now past) :=
    History.Admissible.invariant Erasing (fun w op h hop => h.apply hop) (erasing_initial now) hpast
  by_contra hexport
  have hrecords := hop key hkey htenant (by simpa using hexport)
  have hgate := LifecycleStore.finalizeTenantDeletion_gate hstatus hcommit
  rw [← htenant] at hgate
  obtain ⟨j, hj, hjkey, hcompleted⟩ := LifecycleStore.completed_of_records hgate hrecords
  have hfound : (DeletionSystem.after now past).store.job? key = some j :=
    herasing.fenced.unique.lookup_eq_some_iff.2 ⟨hj, hjkey⟩
  exact herasing.completed key j hfound hcompleted hkey

section Examples

def deletionRequest : DeletionRequest :=
  { requestId := 9, requestedBy := "admin", requestedAt := 10, deleteAfter := 10
    auditExportId := 5 }

def beginErasure : List DeletionOp :=
  [ .tick 10, .upload (.auditExport 1 5), .transaction (.recordExport ⟨5, 1, 10⟩),
    .transaction (.requestDeletion 1 deletionRequest), .transaction (.beginDeletion 1 10) ]

def sourceOnly : List DeletionOp :=
  [ .transaction (.createSnapshot ⟨3, .sourceSnapshot 1 2 3⟩), .upload (.sourceSnapshot 1 2 3) ] ++
    beginErasure ++
  [ .transaction (.enqueueTenant 1 10 10), .claim "w1" 10 60 10 [] (fun _ => 1), .issue 0,
    .erase 0, .complete 0 ]

theorem tenant_erasure_source :
    (∃ s', (DeletionSystem.after 0 sourceOnly).store.finalizeTenantDeletion 1 10 = .ok s') ∧
      ∀ key ∈ (DeletionSystem.after 0 (sourceOnly ++ [.transaction (.finalize 1 10)])).objects,
        key.tenantId = 1 → key.isAuditExport = true := by
  have hcommits : ((DeletionSystem.after 0 sourceOnly).store.finalizeTenantDeletion 1 10).toOption
      |>.isSome := by decide +kernel
  cases hcommit : (DeletionSystem.after 0 sourceOnly).store.finalizeTenantDeletion 1 10 with
  | error => rw [hcommit] at hcommits; cases hcommits
  | ok s' =>
    refine ⟨⟨s', rfl⟩, ?_⟩
    exact tenant_erasure 0 (sourceOnly ++ [.transaction (.finalize 1 10)]) (by decide +kernel)
      sourceOnly [] 1 10 deletionRequest 10 s' rfl (by decide +kernel) hcommit

def checkpointedRun : List DeletionOp :=
  [ .transaction (.saveRun ⟨4, 1, .running⟩), .upload (.workspaceCheckpoint 1 2 4 6),
    .transaction (.saveRun ⟨4, 1, .completed⟩) ] ++ beginErasure

theorem tenant_erasure_leak :
    ¬ ∀ (now : Timestamp) (past : List DeletionOp) (tenantId : Uuid) (at' : Timestamp)
        (request : DeletionRequest) (startedAt : Timestamp) (s' : LifecycleStore),
      (DeletionSystem.after now past).store.status? tenantId = some (.deleting request startedAt) →
      (DeletionSystem.after now past).store.finalizeTenantDeletion tenantId at' = .ok s' →
      ∀ key ∈ (DeletionSystem.after now (past ++ [.transaction (.finalize tenantId at')])).objects,
        key.tenantId = tenantId → key.isAuditExport = true := by
  intro herased
  have hcommits : ((DeletionSystem.after 0 checkpointedRun).store.finalizeTenantDeletion 1
      10).toOption |>.isSome := by decide +kernel
  cases hcommit : (DeletionSystem.after 0 checkpointedRun).store.finalizeTenantDeletion 1 10 with
  | error => rw [hcommit] at hcommits; cases hcommits
  | ok s' =>
    have hexport := herased 0 checkpointedRun 1 10 deletionRequest 10 s' (by decide +kernel)
      hcommit (.workspaceCheckpoint 1 2 4 6) (by decide +kernel) rfl
    cases hexport

end Examples

structure DeletionCall where
  tenantId : Uuid
  requestId : Uuid
  exportId : Uuid
  requestedBy : String
  madeAt : Timestamp

def LifecycleStore.export? (s : LifecycleStore) (call : DeletionCall) : Option AuditExport :=
  s.exports.find? fun e =>
    decide (e.id = call.exportId) && decide (e.tenantId = call.tenantId)

def LifecycleStore.request? (s : LifecycleStore) (tenantId : Uuid) : Option DeletionRequest :=
  match s.status? tenantId with
  | some (.deletionRequested r) | some (.deleting r _) | some (.deleted r _ _) => some r
  | some .active | none => none

/-- `TenantDeletionService.request` with the configured cooling-off time. -/
def LifecycleStore.requestDeletion (s : LifecycleStore) (coolingOff : ℕ) (call : DeletionCall) :
    Except Failure LifecycleStore :=
  match s.request? call.tenantId with
  | some r =>
    if r.requestId ≠ call.requestId ∨ r.auditExportId ≠ call.exportId ∨
        r.requestedBy ≠ call.requestedBy then
      domainError "tenant_deletion_conflict" "tenant deletion is already requested"
    else if s.export? call = none then
      domainError "audit_export_required" "tenant deletion audit evidence was not found"
    else .ok s
  | none =>
    match s.export? call with
    | none => domainError "audit_export_failed" "the audit export could not be completed" true
    | some e =>
      s.requestTenantDeletion call.tenantId
        { requestId := call.requestId, requestedBy := call.requestedBy, requestedAt := e.cutoffAt
          deleteAfter := e.cutoffAt + coolingOff, auditExportId := call.exportId }

theorem LifecycleStore.status?_setTenant (s : LifecycleStore) (row : TenantLifecycle) :
    (s.setTenant row).status? row.tenantId = some row.status := by
  simp [status?, tenant?, setTenant]

/-- **The cooling-off time is respected exactly when the export of the request was not cut off
before the call.** -/
theorem cooling_off_iff (s s' : LifecycleStore) (coolingOff : ℕ) (call : DeletionCall)
    (r : DeletionRequest) (hnew : s.request? call.tenantId = none)
    (hcall : s.requestDeletion coolingOff call = .ok s')
    (hst : s'.status? call.tenantId = some (.deletionRequested r)) :
    (∀ later occurredAt begun, later.status? call.tenantId = some (.deletionRequested r) →
        LifecycleStore.beginTenantDeletion later call.tenantId occurredAt = .ok begun →
        call.madeAt + coolingOff ≤ occurredAt) ↔
      ∃ e ∈ s.export? call, call.madeAt ≤ e.cutoffAt := by
  obtain ⟨e, he, hexport, hid, hdelete⟩ : ∃ e ∈ s.export? call, e ∈ s'.exports ∧
      e.id = r.auditExportId ∧ r.deleteAfter = e.cutoffAt + coolingOff := by
    rw [LifecycleStore.requestDeletion, hnew] at hcall
    cases he : s.export? call with
    | none => rw [he] at hcall; cases hcall
    | some e =>
      rw [he] at hcall
      have hfound := List.find?_some he
      simp only [and_eq_true, decide_eq_true_eq] at hfound
      obtain rfl | rfl := LifecycleStore.requestTenantDeletion_inv hcall
      · rw [LifecycleStore.request?, hst] at hnew
        cases hnew
      · cases (s.status?_setTenant _).symm.trans hst
        exact ⟨e, rfl, mem_of_find?_eq_some he, hfound.1, rfl⟩
  constructor
  · intro hbegin
    have hlater := hbegin { s' with holds := [], runs := [] } r.deleteAfter _ hst (by
      have hany : s'.exports.any (fun e => decide (e.id = r.auditExportId)) = true :=
        any_eq_true.2 ⟨e, hexport, decide_eq_true hid⟩
      unfold LifecycleStore.beginTenantDeletion
      rw [show LifecycleStore.status? { s' with holds := [], runs := [] } call.tenantId = _ from hst]
      simp [LifecycleStore.requireNoHold, LifecycleStore.hasActiveHold,
        LifecycleStore.requireNoActiveRuns, hany]
      rfl)
    rw [hdelete] at hlater
    exact ⟨e, he, Nat.le_of_add_le_add_right hlater⟩
  · rintro ⟨_, he', hle⟩ later occurredAt begun hlater hbegin
    cases Option.mem_unique he he'
    obtain ⟨-, r', _, hr'⟩ | ⟨r', hr', hdue, -⟩ := LifecycleStore.beginTenantDeletion_inv hbegin
    · rw [hlater] at hr'
      cases hr'
    · rw [hlater] at hr'
      cases hr'
      rw [hdelete] at hdue
      exact (Nat.add_le_add_right hle coolingOff).trans hdue

def exportedStore : LifecycleStore := { exports := [⟨5, 1, 0⟩] }

def exportCall (madeAt : Timestamp) : DeletionCall :=
  { tenantId := 1, requestId := 9, exportId := 5, requestedBy := "admin", madeAt := madeAt }

theorem cooling_off_iff_fresh : ∃ s' r, exportedStore.requestDeletion 10 (exportCall 0) = .ok s' ∧
      ∀ later occurredAt begun, later.status? 1 = some (.deletionRequested r) →
        LifecycleStore.beginTenantDeletion later 1 occurredAt = .ok begun → 0 + 10 ≤ occurredAt :=
  ⟨_, _, rfl, (cooling_off_iff exportedStore _ 10 (exportCall 0) _ rfl rfl rfl).2
    ⟨_, rfl, le_rfl⟩⟩

theorem cooling_off_skipped :
    ¬ ∀ (s s' begun : LifecycleStore) (coolingOff : ℕ) (call : DeletionCall) (r : DeletionRequest)
        (occurredAt : Timestamp), s.request? call.tenantId = none →
      s.requestDeletion coolingOff call = .ok s' →
      s'.status? call.tenantId = some (.deletionRequested r) →
      s'.beginTenantDeletion call.tenantId occurredAt = .ok begun →
      call.madeAt + coolingOff ≤ occurredAt := by
  intro hrespected
  have htime := hrespected exportedStore _ _ 10 (exportCall 100) _ 100 rfl rfl rfl rfl
  simp [exportCall] at htime

end AgentPlatform
