/-
**Releasing leases.**
-/

import AgentPlatform.Fencing
import AgentPlatform.QueueStatements

namespace AgentPlatform

open Fleet KeyedTable QueueTables

namespace QueueTables

def Queued (t : QueueTables) (k : Uuid × Uuid) : Prop :=
  ∃ r, t.fleet.run? k.1 k.2 = some r ∧ r.store.run.status = .queued

def Retrying (t : QueueTables) (k : Uuid × Uuid) : Prop :=
  ∃ r, t.fleet.run? k.1 k.2 = some r ∧ r.store.run.status = .retryPending

def LeaseToken (t : QueueTables) (k : Uuid × Uuid) (token : Uuid) : Prop :=
  ∃ r row, t.fleet.run? k.1 k.2 = some r ∧ r.store.lease = some row ∧ row.leaseToken = token

def WorkspaceToken (t : QueueTables) (k : Uuid × Uuid) (token : Uuid) : Prop :=
  ∃ w ∈ t.fleet.workspaces, w.key = k ∧ w.owner.any (·.runLeaseToken = token) = true

structure Valid (t : QueueTables) : Prop where
  runKeys : KeyedTable.Unique FleetRun.key t.fleet.runs
  workspaceKeys : KeyedTable.Unique WorkspaceLeaseRecord.key t.fleet.workspaces
  leased : ∀ (k : Uuid × Uuid) r, t.fleet.run? k.1 k.2 = some r → r.store.lease ≠ none →
    r.store.run.status.assigned = true
  tokens : ∀ k k' token, t.LeaseToken k token → t.LeaseToken k' token → k = k'

variable {t : QueueTables}

theorem run?_of_mem (h : t.Valid) {r : FleetRun} (hr : r ∈ t.fleet.runs) :
    t.fleet.run? r.key.1 r.key.2 = some r :=
  (h.runKeys.lookup_eq_some_iff).mpr ⟨hr, rfl⟩

theorem Valid.of_rows (hrun : (t.fleet.runs.map FleetRun.key).Nodup)
    (hw : (t.fleet.workspaces.map WorkspaceLeaseRecord.key).Nodup)
    (hl : ∀ r ∈ t.fleet.runs, r.store.lease ≠ none → r.store.run.status.assigned)
    (ht : ∀ r ∈ t.fleet.runs, ∀ r' ∈ t.fleet.runs, r.store.lease ≠ none →
      r.store.lease.map (·.leaseToken) = r'.store.lease.map (·.leaseToken) → r.key = r'.key) :
    t.Valid := by
  refine ⟨hrun, hw, ?_, ?_⟩
  · intro k r hr hne
    exact hl r (mem_of_run? hr) hne
  · rintro k _ _ ⟨r, _, hr, hrow, rfl⟩ ⟨r', _, hr', hrow', htk⟩
    have hs := ht r (mem_of_run? hr) r' (mem_of_run? hr') (by simp [hrow])
      (by simp [hrow, hrow', htk])
    exact (run?_key hr).symm.trans (hs.trans (run?_key hr'))

variable {k : Uuid × Uuid} {token : Uuid}

theorem Valid.assigned (h : t.Valid) (hl : t.LeaseToken k token) {r : FleetRun}
    (hr : t.fleet.run? k.1 k.2 = some r) : r.store.run.status.assigned := by
  obtain ⟨_, _, hr', hrow, -⟩ := hl
  rw [hr] at hr'
  cases hr'
  exact h.leased k r hr (by simp [hrow])

theorem Valid.not_queued (h : t.Valid) (hl : t.LeaseToken k token) : ¬ t.Queued k := by
  rintro ⟨r, hr, hs⟩
  simpa [hs, RunStatus.assigned] using h.assigned hl hr

theorem Valid.not_retrying (h : t.Valid) (hl : t.LeaseToken k token) : ¬ t.Retrying k := by
  rintro ⟨r, hr, hs⟩
  simpa [hs, RunStatus.assigned] using h.assigned hl hr

theorem Valid.workspaceToken_unique (h : t.Valid) {token' : Uuid} (h₁ : t.WorkspaceToken k token)
    (h₂ : t.WorkspaceToken k token') : token = token' := by
  obtain ⟨w, hw, rfl, hown⟩ := h₁
  obtain ⟨w', hw', hkey, hown'⟩ := h₂
  have hs : w' = w := by
    have hf := (h.workspaceKeys.lookup_eq_some_iff).mpr ⟨hw, rfl⟩
    rw [(h.workspaceKeys.lookup_eq_some_iff).mpr ⟨hw', hkey⟩] at hf
    exact Option.some.inj hf
  subst hs
  obtain ⟨_, ho, ht⟩ := Option.any_eq_true _ _ |>.mp hown
  obtain ⟨_, ho', ht'⟩ := Option.any_eq_true _ _ |>.mp hown'
  rw [ho] at ho'
  cases ho'
  simp only [decide_eq_true_eq] at ht ht'
  exact ht.symm.trans ht'

theorem workspaceToken_of_workspaceOf {w : WorkspaceLeaseRecord} (h : t.workspaceOf token = some w)
    : t.WorkspaceToken w.key token :=
  ⟨w, mem_of_find?_eq_some h, rfl, by simpa using List.find?_some h⟩

theorem workspace?_isSome_of_mem {w : WorkspaceLeaseRecord} (h : w ∈ t.fleet.workspaces) :
    (t.fleet.workspace? w.key.1 w.key.2).isSome := by
  rw [isSome_iff_ne_none]
  intro hn
  exact lookup_eq_none.mp hn w h rfl

end QueueTables

/-- What an operation that releases leases does to the tables. -/
structure QueueTables.Releases (t t' : QueueTables) (keys : List (Uuid × Uuid)) : Prop where
  runs : ∀ (k : Uuid × Uuid) r, k ∉ keys → t.fleet.run? k.1 k.2 = some r →
    t'.fleet.run? k.1 k.2 = some r
  leases : ∀ k token, t'.LeaseToken k token → t.LeaseToken k token
  workspaces : ∀ w ∈ t.fleet.workspaces, ∀ token, w.owner.any (·.runLeaseToken = token) = true →
    w ∈ t'.fleet.workspaces ∨ ∃ k ∈ keys, t.LeaseToken k token
  rows : ∀ k : Uuid × Uuid,
    (t'.fleet.workspace? k.1 k.2).isSome = (t.fleet.workspace? k.1 k.2).isSome
  valid : t.Valid → t'.Valid

theorem QueueTables.Releases.refl (t : QueueTables) (keys : List (Uuid × Uuid)) :
    t.Releases t keys :=
  ⟨fun _ _ _ h => h, fun _ _ h => h, fun _ h _ _ => .inl h, fun _ => rfl, id⟩

variable {t : QueueTables} {f : Fleet} {at' : Timestamp}

theorem QueueTables.Releases.trans {t' t'' : QueueTables} {keys keys' : List (Uuid × Uuid)}
    (h : t.Releases t' keys) (h' : t'.Releases t'' keys') : t.Releases t'' (keys ++ keys') where
  runs k r hk hr := by
    rw [mem_append, not_or] at hk
    exact h'.runs k r hk.2 (h.runs k r hk.1 hr)
  leases k token hl := h.leases k token (h'.leases k token hl)
  workspaces w hw token hown := by
    rcases h.workspaces w hw token hown with hw' | ⟨k, hk, hl⟩
    · rcases h'.workspaces w hw' token hown with hw'' | ⟨k, hk, hl⟩
      · exact .inl hw''
      · exact .inr ⟨k, mem_append_right _ hk, h.leases k token hl⟩
    · exact .inr ⟨k, mem_append_left _ hk, hl⟩
  rows k := (h'.rows k).trans (h.rows k)
  valid hv := h'.valid (h.valid hv)

theorem Fleet.run?_setRun (f : Fleet) (r : FleetRun) (k : Uuid × Uuid) :
    (f.setRun r).run? k.1 k.2 = if k = r.key then some r else f.run? k.1 k.2 := by
  by_cases hk : k = r.key
  · rw [if_pos hk, hk]
    exact lookup_upsert_self _ _
  · rw [if_neg hk]
    exact lookup_upsert_of_ne (Ne.symm hk) _

theorem Fleet.releaseWorkspaceForRun_spec (f : Fleet) (token : Uuid) :
    (∀ w ∈ f.workspaces, ∀ token', token' ≠ token → w.owner.any (·.runLeaseToken = token') = true →
        w ∈ (f.releaseWorkspaceForRun token).workspaces) ∧
      (∀ k : Uuid × Uuid, ((f.releaseWorkspaceForRun token).workspace? k.1 k.2).isSome =
        (f.workspace? k.1 k.2).isSome) ∧ (KeyedTable.Unique WorkspaceLeaseRecord.key f.workspaces →
        KeyedTable.Unique WorkspaceLeaseRecord.key (f.releaseWorkspaceForRun token).workspaces) := by
  have hkey : ∀ w : WorkspaceLeaseRecord,
      (if w.owner.any (·.runLeaseToken = token) = true then w.cleared else w).key = w.key := by
    intro w
    split <;> rfl
  refine ⟨?_, ?_, fun h => h.map hkey⟩
  · intro w hw token' hne hown
    refine mem_map.mpr ⟨w, hw, if_neg ?_⟩
    intro hot
    obtain ⟨_, ho, ht⟩ := Option.any_eq_true _ _ |>.mp hown
    obtain ⟨_, ho', ht'⟩ := Option.any_eq_true _ _ |>.mp hot
    rw [ho] at ho'
    cases ho'
    simp only [decide_eq_true_eq] at ht ht'
    exact hne (ht.symm.trans ht')
  · intro k
    have hlk := lookup_map hkey (k.1, k.2) f.workspaces
    have hr : (f.releaseWorkspaceForRun token).workspace? k.1 k.2 = _ := hlk
    rw [hr, Option.isSome_map]
    rfl

namespace QueueTables

theorem releases_setRun {r : FleetRun} {s : RunStore} {tenantId runId : Uuid}
    (hr : t.fleet.run? tenantId runId = some r)
    (hkey : ({ r with store := s } : FleetRun).key = (tenantId, runId))
    (hls : s.lease = r.store.lease ∨ s.lease = none)
    (ha : s.lease ≠ none → s.run.status.assigned = true) :
    t.Releases { t with fleet := t.fleet.setRun { r with store := s } } [(tenantId, runId)] := by
  have hre := fun k => hkey ▸ t.fleet.run?_setRun { r with store := s } k
  have hl : ∀ k token,
      ({ t with fleet := t.fleet.setRun { r with store := s } } : QueueTables).LeaseToken k token →
        t.LeaseToken k token := by
    rintro k token ⟨r', row, hr', hrow, ht⟩
    dsimp only at hr'
    rw [hre] at hr'
    split at hr'
    next hk =>
      cases hr'
      rcases hls with hs | hn
      · exact ⟨r, row, by rw [hk]; exact hr, hs ▸ hrow, ht⟩
      · dsimp only at hrow
        rw [hn] at hrow
        cases hrow
    · exact ⟨r', row, hr', hrow, ht⟩
  refine ⟨?_, hl, fun w hw _ _ => .inl hw, fun _ => rfl, ?_⟩
  · intro k r' hk hr'
    dsimp only
    rw [hre, if_neg (fun h => hk (mem_singleton.mpr h))]
    exact hr'
  · intro hv
    refine ⟨hv.runKeys.upsert _, hv.workspaceKeys, ?_, ?_⟩
    · intro k r' hr' hne
      dsimp only at hr'
      rw [hre] at hr'
      split at hr'
      · cases hr'
        exact ha hne
      · exact hv.leased k r' hr' hne
    · intro k k' token h h'
      exact hv.tokens k k' token (hl k token h) (hl k' token h')

theorem releases_owner {t' : QueueTables} {k : Uuid × Uuid} {token : Uuid}
    {workerId : String} (h : t.Releases t' [k]) (hl : t.LeaseToken k token) :
    t.Releases { t' with
      fleet := (t'.fleet.releaseWorkspaceForRun token).returnWorkerSlot workerId } [k] := by
  obtain ⟨hke, hrw, hkey⟩ := releaseWorkspaceForRun_spec t'.fleet token
  have hrn : ((t'.fleet.releaseWorkspaceForRun token).returnWorkerSlot workerId).runs =
      t'.fleet.runs := returnWorkerSlot_runs _ _
  have hwo : ((t'.fleet.releaseWorkspaceForRun token).returnWorkerSlot workerId).workspaces =
      (t'.fleet.releaseWorkspaceForRun token).workspaces := returnWorkerSlot_workspaces _ _
  have hrun : ∀ k : Uuid × Uuid,
      ((t'.fleet.releaseWorkspaceForRun token).returnWorkerSlot workerId).run? k.1 k.2 =
        t'.fleet.run? k.1 k.2 := by
    intro k
    simp only [run?, hrn]
  refine ⟨?_, ?_, ?_, ?_, ?_⟩
  · intro k' r hk hr
    dsimp only
    rw [hrun]
    exact h.runs k' r hk hr
  · rintro k' token' ⟨r, row, hr, hrow, ht⟩
    exact h.leases k' token' ⟨r, row, (hrun k').symm.trans hr, hrow, ht⟩
  · intro w hw token' hown
    by_cases ht : token' = token
    · subst ht
      exact .inr ⟨k, mem_singleton_self _, hl⟩
    rcases h.workspaces w hw token' hown with hw' | ho
    · refine .inl ?_
      dsimp only
      rw [hwo]
      exact hke w hw' token' ht hown
    · exact .inr ho
  · intro k'
    rw [← h.rows k', ← hrw k']
    simp only [workspace?, hwo]
  · intro hv
    have hv' := h.valid hv
    refine ⟨?_, ?_, ?_, ?_⟩
    · dsimp only
      rw [hrn]
      exact hv'.runKeys
    · dsimp only
      rw [hwo]
      exact hkey hv'.workspaceKeys
    · intro k' r hr hne
      exact hv'.leased k' r ((hrun k').symm.trans hr) hne
    · rintro k₁ k₂ token' ⟨r₁, row₁, hr₁, hrow₁⟩ ⟨r₂, row₂, hr₂, hrow₂⟩
      exact hv'.tokens k₁ k₂ token' ⟨r₁, row₁, (hrun k₁).symm.trans hr₁, hrow₁⟩
        ⟨r₂, row₂, (hrun k₂).symm.trans hr₂, hrow₂⟩

theorem releases_finish {lease : RunLease} {result : RunExecutionResult}
    {status : RunStatus} (h : t.fleet.finish lease result at' = .ok (status, f)) :
    t.Releases { t with fleet := f } [(lease.tenantId, lease.runId)] := by
  obtain ⟨r, s, hr, hs, rfl⟩ := Fleet.finish_inv h
  obtain ⟨hid₁, hid₂, -⟩ := (finish_queueStep hs).sameIdentity
  obtain ⟨-, -, -, -, -, -, hn, -, -⟩ := finish_inv hs
  have hkey : ({ r with store := s } : FleetRun).key = (lease.tenantId, lease.runId) := by
    rw [← run?_key hr]
    simp [FleetRun.key, hid₁, hid₂]
  have hset := releases_setRun hr hkey (.inr hn) (fun hne => absurd hn hne)
  refine releases_owner hset ?_
  obtain ⟨row, hrow, ht⟩ := Option.any_eq_true _ _ |>.mp (finish_token hs)
  exact ⟨r, row, hr, hrow, by simpa using ht⟩

theorem releases_recoverRun {key : Uuid × Uuid} (hv : t.Valid)
    (h : t.fleet.recoverRun at' key = .ok f) : t.Releases { t with fleet := f } [key] := by
  obtain ⟨-, rfl⟩ | ⟨r, s, hr, hs, hc⟩ := recoverRun_inv h
  · exact .refl t [key]
  have hst := recoverExpired_queueStep hs
  obtain ⟨hid₁, hid₂, -⟩ := hst.sameIdentity
  have hkey : ({ r with store := s } : FleetRun).key = (key.1, key.2) := by
    rw [← run?_key hr]
    simp [FleetRun.key, hid₁, hid₂]
  have ha : s.lease ≠ none → s.run.status.assigned = true := by
    have hb := hv.leased key r hr
    generalize s.run = run at hst
    generalize s.lease = l at hst ⊢
    cases hst with
    | kept => exact hb
    | retried pending =>
      intro hne
      have := hb hne
      simp [pending, RunStatus.assigned] at this
    | cancelledExpired | requeuedExpired | discarded => exact fun hne => absurd rfl hne
  have hset := releases_setRun hr hkey (recoverExpired_lease hs) ha
  obtain ⟨-, rfl⟩ | ⟨row, hrow, -, rfl⟩ := hc
  · exact hset
  · exact releases_owner hset ⟨r, row, hr, hrow, rfl⟩

theorem releases_recoverExpired :
    ∀ {keys : List (Uuid × Uuid)} {t : QueueTables} {f : Fleet}, t.Valid →
      t.fleet.recoverExpired at' keys = .ok f → t.Releases { t with fleet := f } keys := by
  intro keys
  induction keys with
  | nil =>
    intro t f _ h
    cases h
    exact .refl t []
  | cons key _ ih =>
    intro t f hv h
    simp only [Fleet.recoverExpired] at h
    cases hs : t.fleet.recoverRun at' key with
    | error => rw [hs] at h; cases h
    | ok f' =>
      rw [hs] at h
      have hone := releases_recoverRun hv hs
      exact hone.trans (ih (t := { t with fleet := f' }) (hone.valid hv) h)

end QueueTables

end AgentPlatform
