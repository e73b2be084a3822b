/-
**What the transactions of the queue hold.**
-/

import AgentPlatform.QueueReleases

namespace AgentPlatform

open Candidate Fleet KeyedTable QueueTables Option

open RowLocking

/-! ### What a commit leaves alone -/

/-- What a commit of a transaction that holds the rows `held` leaves alone. -/
structure QueueTables.Keeps (t t' : QueueTables) (held : List QueueRow) : Prop where
  runs : ∀ (k : Uuid × Uuid) r, t.fleet.run? k.1 k.2 = some r → t'.fleet.run? k.1 k.2 = some r ∨
    .run k ∈ held ∧ (t.Queued k ∨ t.Retrying k ∨ .lease k ∈ held)
  workspaces : ∀ w ∈ t.fleet.workspaces, ∀ token, w.owner.any (·.runLeaseToken = token) = true →
    w ∈ t'.fleet.workspaces ∨ ∃ k, .lease k ∈ held ∧ t.LeaseToken k token
  rows : ∀ k : Uuid × Uuid, (t.fleet.workspace? k.1 k.2).isSome = true →
    (t'.fleet.workspace? k.1 k.2).isSome = true
  inserted : ∀ k : Uuid × Uuid, (t'.fleet.workspace? k.1 k.2).isSome = true →
    (t.fleet.workspace? k.1 k.2).isSome = true ∨ .workspace k ∈ held

def QueueTables.Owns (t : QueueTables) (held : List QueueRow) (k : Uuid × Uuid) : Prop :=
  ∃ key token, .lease key ∈ held ∧ t.LeaseToken key token ∧ t.WorkspaceToken k token

namespace QueueTables.Keeps

variable {t t' : QueueTables} {held : List QueueRow}

theorem refl (t : QueueTables) (held : List QueueRow) : t.Keeps t held :=
  ⟨fun _ _ h => .inl h, fun _ h _ _ => .inl h, fun _ h => h, fun _ h => .inl h⟩

variable {k : Uuid × Uuid}

theorem run? (h : t.Keeps t' held) (hk : .run k ∉ held) {r : FleetRun}
    (hr : t.fleet.run? k.1 k.2 = some r) : t'.fleet.run? k.1 k.2 = some r :=
  (h.runs k r hr).resolve_right fun hrun => hk hrun.1

theorem queued (h : t.Keeps t' held) (hk : .run k ∉ held) (hq : t.Queued k) : t'.Queued k := by
  obtain ⟨r, hr, hs⟩ := hq
  exact ⟨r, h.run? hk hr, hs⟩

theorem retrying (h : t.Keeps t' held) (hk : .run k ∉ held) (hq : t.Retrying k)
    : t'.Retrying k := by
  obtain ⟨r, hr, hs⟩ := hq
  exact ⟨r, h.run? hk hr, hs⟩

theorem leaseToken (h : t.Keeps t' held) (hv : t.Valid) {token : Uuid} (hk : .lease k ∉ held)
    (hl : t.LeaseToken k token) : t'.LeaseToken k token := by
  obtain ⟨r, row, hr, hrow, ht⟩ := id hl
  rcases h.runs k r hr with hr' | ⟨-, hq | hre | hle⟩
  · exact ⟨r, row, hr', hrow, ht⟩
  · exact absurd hq (hv.not_queued hl)
  · exact absurd hre (hv.not_retrying hl)
  · exact absurd hle hk

theorem workspaceToken (h : t.Keeps t' held) {token : Uuid}
    (hk : ∀ k', .lease k' ∈ held → ¬ t.LeaseToken k' token) (hw : t.WorkspaceToken k token) :
    t'.WorkspaceToken k token := by
  obtain ⟨w, hmem, hkey, hown⟩ := hw
  rcases h.workspaces w hmem token hown with hmem' | ⟨k', hh, hl⟩
  · exact ⟨w, hmem', hkey, hown⟩
  · exact absurd hl (hk k' hh)

theorem lease_and_workspace (h : t.Keeps t' held) (hv : t.Valid) {key : Uuid × Uuid} {token : Uuid}
    (hkey : .lease key ∉ held) (hl : t.LeaseToken key token) (hw : t.WorkspaceToken k token)
    : t'.LeaseToken key token ∧ t'.WorkspaceToken k token := by
  refine ⟨h.leaseToken hv hkey hl, h.workspaceToken ?_ hw⟩
  intro k' hh hl'
  exact hkey (hv.tokens key k' token hl hl' ▸ hh)

theorem owns (h : t.Keeps t' held) (hv : t.Valid) {held' : List QueueRow}
    (ha : ∀ r ∈ held, r ∉ held') (ho : t.Owns held' k) : t'.Owns held' k := by
  obtain ⟨key, token, hh, hl, hw⟩ := ho
  obtain ⟨hl', hw'⟩ := h.lease_and_workspace hv (fun hp => ha _ hp hh) hl hw
  exact ⟨key, token, hh, hl', hw'⟩

end QueueTables.Keeps

variable {t t' : QueueTables} {st : ClaimState} {locked : QueueRow → Bool}

theorem QueueTables.Releases.keeps {keys : List (Uuid × Uuid)} {held : List QueueRow}
    (h : t.Releases t' keys) (hrun : ∀ k ∈ keys, .run k ∈ held ∧ (t.Retrying k ∨ .lease k ∈ held))
    (hv : t.Valid) : t.Keeps t' held where
  runs k r hr := by
    by_cases hk : k ∈ keys
    · exact .inr ⟨(hrun k hk).1, .inr (hrun k hk).2⟩
    · exact .inl (h.runs k r hk hr)
  workspaces w hw token hown := by
    rcases h.workspaces w hw token hown with hw' | ⟨k, hk, hl⟩
    · exact .inl hw'
    · rcases (hrun k hk).2 with hre | hh
      · exact absurd hre (hv.not_retrying hl)
      · exact .inr ⟨k, hh, hl⟩
  rows k hk := by rw [h.rows]; exact hk
  inserted k hk := by rw [h.rows] at hk; exact .inl hk

/-! ### What the transactions hold -/

structure ClaimState.Guarded (t : QueueTables) (st : ClaimState) : Prop where
  start : st.stage = .lockWorker → st.held = []
  kinds : ∀ r ∈ st.held, (∃ w, r = .worker w) ∨ (∃ k, r = .run k ∧ t.Queued k) ∨
    (∃ τ, r = .quota τ) ∨ ∃ k : Uuid × Uuid, r = .workspace k ∧
      ((t.fleet.workspace? k.1 k.2).isSome = true ∨ .quota k.1 ∈ st.held)
  candidate : ∀ c, st.stage.candidate? = some c → .run c.key ∈ st.held ∧
    ∃ r, t.fleet.run? c.tenantId c.runId = some r ∧ r.store.run.workspaceId = c.workspaceId
  counting : ∀ c, st.stage.counting? = some c → .quota c.tenantId ∈ st.held
  taking : ∀ c, st.stage = .take c → .workspace c.workspaceKey ∈ st.held
  inserted : ∀ w ∈ st.workspaces, .workspace w.key ∈ st.held ∧
    t.fleet.workspace? w.key.1 w.key.2 = none
  insertedKeys : KeyedTable.Unique WorkspaceLeaseRecord.key st.workspaces

structure CreateState.Guarded (call : CreateCall) (st : CreateState) : Prop where
  start : st.stage = .findExisting ∨ st.stage = .lockSession → st.held = []
  kinds : ∀ r ∈ st.held, r = call.sessionRow ∨ r = .quota call.submission.tenantId ∨
    r = .admission ∧ (st.stage = .lockAdmission ∨ st.stage = .insertRun)

structure FinishState.Guarded (t : QueueTables) (call : FinishCall) (st : FinishState) : Prop where
  start : st.stage = .lockLease → st.held = []
  lease : st.stage ≠ .lockLease → .lease call.key ∈ st.held ∧
    t.LeaseToken call.key call.lease.leaseToken
  run : st.stage = .lockWorkspace ∨ st.stage = .lockWorker → .run call.key ∈ st.held
  kinds : ∀ r ∈ st.held, r = .lease call.key ∨ r = .run call.key ∨
    ∃ k, r = .workspace k ∧ t.WorkspaceToken k call.lease.leaseToken

def RecoverStage.rest : RecoverStage → List (Uuid × Uuid)
  | .lockRetries | .lockLeases => []
  | .lockRun rest => rest
  | .lockWorkspace key rest | .lockWorker key rest => key :: rest

def RecoverStage.pending : RecoverStage → List (Uuid × Uuid)
  | .lockRetries | .lockLeases => []
  | .lockRun rest | .lockWorkspace _ rest | .lockWorker _ rest => rest

structure RecoverState.Guarded (t : QueueTables) (st : RecoverState) : Prop where
  start : st.stage = .lockRetries → st.held = []
  unselected : st.stage = .lockRetries ∨ st.stage = .lockLeases → st.leases = []
  retries : ∀ k ∈ st.retries, .run k ∈ st.held ∧ t.Retrying k
  leases : ∀ k ∈ st.leases, .lease k ∈ st.held ∧ ∃ token, t.LeaseToken k token
  rest : ∀ k ∈ st.stage.rest, k ∈ st.leases
  done : ∀ k ∈ st.leases, .run k ∈ st.held ∨ k ∈ st.stage.pending
  kinds : ∀ r ∈ st.held, (∃ w, r = .worker w) ∨ (∃ k, r = .lease k) ∨
    (∃ k, r = .run k ∧ (t.Retrying k ∨ .lease k ∈ st.held)) ∨
    ∃ k, r = .workspace k ∧ t.Owns st.held k

def QueueTxn.Guarded (t : QueueTables) : QueueTxn → Prop
  | .claim _ st => st.Guarded t
  | .create call st => st.Guarded call
  | .finish call st => st.Guarded t call
  | .recoverExpired _ st => st.Guarded t

/-! ### Statements keep what they need -/

def ClaimHolds (t : QueueTables) (held : List QueueRow) (r : QueueRow) : Prop :=
  (∃ w, r = .worker w) ∨ (∃ k, r = .run k ∧ t.Queued k) ∨ (∃ τ, r = .quota τ) ∨
    ∃ k : Uuid × Uuid, r = .workspace k ∧
      ((t.fleet.workspace? k.1 k.2).isSome = true ∨ .quota k.1 ∈ held)

namespace ClaimState.Guarded

theorem kinds_cons (h : st.Guarded t) {r₀ : QueueRow}
    (hnew : ClaimHolds t st.held r₀) : ∀ r ∈ r₀ :: st.held, ClaimHolds t (r₀ :: st.held) r := by
  intro r hr
  have hold : ClaimHolds t st.held r := by
    rcases mem_cons.mp hr with rfl | hr
    · exact hnew
    · exact h.kinds r hr
  rcases hold with h₁ | h₂ | h₃ | ⟨k, hk, hrow | hq⟩
  · exact .inl h₁
  · exact .inr (.inl h₂)
  · exact .inr (.inr (.inl h₃))
  · exact .inr (.inr (.inr ⟨k, hk, .inl hrow⟩))
  · exact .inr (.inr (.inr ⟨k, hk, .inr (mem_cons_of_mem _ hq)⟩))

theorem skip (h : st.Guarded t) (c : Candidate) : (st.skip c).Guarded t where
  start := by rintro ⟨⟩
  kinds := h.kinds
  candidate := by rintro c ⟨⟩
  counting := by rintro c ⟨⟩
  taking := by rintro c ⟨⟩
  inserted := h.inserted
  insertedKeys := h.insertedKeys

theorem lock (h : st.Guarded t) {r₀ : QueueRow} {stage : ClaimStage}
    {quotas : List TenantQuotaRecord}
    (hnew : ClaimHolds t st.held r₀) (hs : stage ≠ .lockWorker)
    (hc : ∀ c, stage.candidate? = some c → .run c.key ∈ r₀ :: st.held ∧
      ∃ r, t.fleet.run? c.tenantId c.runId = some r ∧ r.store.run.workspaceId = c.workspaceId)
    (hco : ∀ c, stage.counting? = some c → .quota c.tenantId ∈ r₀ :: st.held)
    (ht : ∀ c, stage = .take c → .workspace c.workspaceKey ∈ r₀ :: st.held) :
    ({ st with stage := stage, quotas := quotas, held := r₀ :: st.held } : ClaimState).Guarded t where
  start := fun hst => absurd hst hs
  kinds := h.kinds_cons hnew
  candidate := hc
  counting := hco
  taking := ht
  inserted w hw := ⟨mem_cons_of_mem _ (h.inserted w hw).1, (h.inserted w hw).2⟩
  insertedKeys := h.insertedKeys

theorem workspace_seen (h : st.Guarded t) {c : Candidate}
    (hc : st.stage.counting? = some c) :
    (t.fleet.workspace? c.workspaceKey.1 c.workspaceKey.2).isSome ∨
      .quota c.workspaceKey.1 ∈ st.held :=
  .inr (h.counting c hc)

theorem step {st' : ClaimState} {call : ClaimCall} (hv : t.Valid)
    (h : st.Guarded t) (hs : st.execute t locked call = .running st') : st'.Guarded t := by
  cases ClaimState.running_inv hs with
  | worker =>
    exact h.lock (.inl ⟨_, rfl⟩) (by rintro ⟨⟩) (by rintro c ⟨⟩) (by rintro c ⟨⟩)
      (by rintro c ⟨⟩)
  | candidate c _ found =>
    obtain ⟨r, hr, hkey, hwo, hst, -⟩ := candidate?_some found
    have hre := run?_of_mem hv hr
    rw [hkey] at hre
    refine h.lock (.inr (.inl ⟨c.key, rfl, r, hre, hst⟩)) (by rintro ⟨⟩) ?_
      (by rintro c ⟨⟩) (by rintro c ⟨⟩)
    rintro _ ⟨⟩
    exact ⟨mem_cons_self .., r, hre, hwo⟩
  | quotaFound c stage =>
    exact
      { start := by rintro ⟨⟩
        kinds := h.kinds
        candidate := by
          rintro _ ⟨⟩
          exact h.candidate c (by rw [stage]; rfl)
        counting := by rintro c ⟨⟩
        taking := by rintro c ⟨⟩
        inserted := h.inserted
        insertedKeys := h.insertedKeys }
  | quotaInserted c stage =>
    obtain ⟨hrun, hr⟩ := h.candidate c (by rw [stage]; rfl)
    refine h.lock (.inr (.inr (.inl ⟨_, rfl⟩))) (by rintro ⟨⟩) ?_ (by rintro c ⟨⟩)
      (by rintro c ⟨⟩)
    rintro _ ⟨⟩
    exact ⟨mem_cons_of_mem _ hrun, hr⟩
  | quotaLocked c stage =>
    obtain ⟨hrun, hr⟩ := h.candidate c (by rw [stage]; rfl)
    refine h.lock (.inr (.inr (.inl ⟨_, rfl⟩))) (by rintro ⟨⟩) ?_ ?_ (by rintro c ⟨⟩)
    · rintro _ ⟨⟩
      exact ⟨mem_cons_of_mem _ hrun, hr⟩
    · rintro _ ⟨⟩
      exact mem_cons_self ..
  | full c stage | workspaceBusy c stage => exact h.skip c
  | room c row stage found room | workspaceFound c stage =>
    exact
      { start := by rintro ⟨⟩
        kinds := h.kinds
        candidate := by
          rintro _ ⟨⟩
          exact h.candidate c (by rw [stage]; rfl)
        counting := by
          rintro _ ⟨⟩
          exact h.counting c (by rw [stage]; rfl)
        taking := by rintro c ⟨⟩
        inserted := h.inserted
        insertedKeys := h.insertedKeys }
  | workspaceInserted c stage request =>
    obtain ⟨hrun, hr⟩ := h.candidate c (by rw [stage]; rfl)
    have hco := h.counting c (by rw [stage]; rfl)
    have hn : lookup WorkspaceLeaseRecord.key c.workspaceKey
        (t.fleet.workspaces ++ st.workspaces) = none := by
      simp only [ClaimState.request, stage] at request
      split at request
      · cases request
      next hn => simpa [ClaimState.view, workspace?, workspaceKey] using hn
    rw [lookup_append, or_eq_none_iff] at hn
    exact
      { start := by rintro ⟨⟩
        kinds := h.kinds_cons (.inr (.inr (.inr ⟨_, rfl, .inr hco⟩)))
        candidate := by
          rintro _ ⟨⟩
          exact ⟨mem_cons_of_mem _ hrun, hr⟩
        counting := by
          rintro _ ⟨⟩
          exact mem_cons_of_mem _ hco
        taking := by rintro c ⟨⟩
        inserted := by
          intro w hw
          rcases mem_append.mp hw with hold | hnew
          · exact ⟨mem_cons_of_mem _ (h.inserted w hold).1, (h.inserted w hold).2⟩
          · rw [mem_singleton.mp hnew]
            exact ⟨mem_cons_self .., hn.1⟩
        insertedKeys := h.insertedKeys.append_single (lookup_eq_none.mp hn.2) }
  | workspaceOwned c w stage =>
    have hl : ({ st with held := .workspace c.workspaceKey :: st.held } : ClaimState).Guarded t :=
      h.lock (.inr (.inr (.inr ⟨_, rfl, h.workspace_seen (by rw [stage]; rfl)⟩)))
        (by rw [stage]; rintro ⟨⟩)
        (fun c hc => ⟨mem_cons_of_mem _ (h.candidate c hc).1, (h.candidate c hc).2⟩)
        (fun c hc => mem_cons_of_mem _ (h.counting c hc))
        (fun c hc => mem_cons_of_mem _ (h.taking c hc))
    exact hl.skip c
  | workspaceFree c w stage =>
    obtain ⟨hrun, hr⟩ := h.candidate c (by rw [stage]; rfl)
    have hco := h.counting c (by rw [stage]; rfl)
    refine h.lock (.inr (.inr (.inr ⟨_, rfl, h.workspace_seen (by rw [stage]; rfl)⟩)))
      (by rintro ⟨⟩) ?_ ?_ ?_
    · rintro _ ⟨⟩
      exact ⟨mem_cons_of_mem _ hrun, hr⟩
    · rintro _ ⟨⟩
      exact mem_cons_of_mem _ hco
    · rintro _ ⟨⟩
      exact mem_cons_self ..

end ClaimState.Guarded

theorem CreateState.Guarded.step {st st' : CreateState} {call : CreateCall} (h : st.Guarded call)
    (hst : st.execute t call = .running st') : st'.Guarded call := by
  -- before the admission row is asked for, it is not held
  have he : st.stage ≠ .lockAdmission → st.stage ≠ .insertRun → ∀ r ∈ st.held,
      r = call.sessionRow ∨ r = .quota call.submission.tenantId := by
    intro h₁ h₂ r hr
    rcases h.kinds r hr with hs | hq | ⟨-, hsta⟩
    · exact .inl hs
    · exact .inr hq
    · exact absurd hsta (by simp [h₁, h₂])
  cases CreateState.running_inv hst with
  | missing stage =>
    have hh := h.start (.inl stage)
    refine ⟨fun _ => hh, ?_⟩
    simp [hh]
  | session stage =>
    refine ⟨by simp, ?_⟩
    simp [h.start (.inr stage)]
  | quotaFound stage | unclaimed stage | admissionFound stage =>
    refine ⟨by simp, ?_⟩
    intro r hr
    exact (he (by simp [stage]) (by simp [stage]) r hr).imp_right .inl
  | quotaInserted stage request | quotaLocked stage request =>
    refine ⟨by simp, ?_⟩
    intro r hr
    rcases mem_cons.mp hr with rfl | hr
    · exact .inr (.inl rfl)
    · exact (he (by simp [stage]) (by simp [stage]) r hr).imp_right .inl
  | admissionInserted _ stage =>
    refine ⟨by simp, ?_⟩
    intro r hr
    rcases mem_cons.mp hr with rfl | hr
    · exact .inr (.inr ⟨rfl, .inl rfl⟩)
    · exact (he (by simp [stage]) (by simp [stage]) r hr).imp_right .inl
  | admissionLocked =>
    refine ⟨by simp, ?_⟩
    intro r hr
    rcases mem_cons.mp hr with rfl | hr
    · exact .inr (.inr ⟨rfl, .inr rfl⟩)
    · rcases h.kinds r hr with hs | hq | ⟨ha, -⟩
      · exact .inl hs
      · exact .inr (.inl hq)
      · exact .inr (.inr ⟨ha, .inr rfl⟩)

theorem FinishState.Guarded.step {st st' : FinishState} {call : FinishCall} (h : st.Guarded t call)
    (hs : st.execute t call = .running st') : st'.Guarded t call := by
  cases FinishState.running_inv hs with
  | lease row stage found =>
    have hh := h.start stage
    simp only [FinishState.leaseRow, bind_eq_some_iff, filter_eq_some_iff] at found
    obtain ⟨r, hr, hrow, hm⟩ := found
    refine ⟨by rintro ⟨⟩, fun _ => ?_, by simp, ?_⟩
    · exact ⟨mem_cons_self .., r, row, hr, hrow, RunLeaseRecord.matches_token hm⟩
    · simp [hh]
  | run stage =>
    obtain ⟨hl, ht⟩ := h.lease (by simp [stage])
    refine ⟨by rintro ⟨⟩, fun _ => ⟨mem_cons_of_mem _ hl, ht⟩, fun _ => mem_cons_self .., ?_⟩
    intro r hr
    rcases mem_cons.mp hr with rfl | hr
    · exact .inr (.inl rfl)
    · exact h.kinds r hr
  | noWorkspace stage =>
    exact ⟨by rintro ⟨⟩, fun _ => h.lease (by simp [stage]), fun _ => h.run (.inl stage), h.kinds⟩
  | workspace w stage found =>
    obtain ⟨hl, ht⟩ := h.lease (by simp [stage])
    refine ⟨by rintro ⟨⟩, fun _ => ⟨mem_cons_of_mem _ hl, ht⟩,
      fun _ => mem_cons_of_mem _ (h.run (.inl stage)), ?_⟩
    intro r hr
    rcases mem_cons.mp hr with rfl | hr
    · exact .inr (.inr ⟨w.key, rfl, workspaceToken_of_workspaceOf found⟩)
    · exact h.kinds r hr

theorem QueueTables.Owns.mono {held held' : List QueueRow} {k : Uuid × Uuid} (h : t.Owns held k)
    (hsub : ∀ r ∈ held, r ∈ held') : t.Owns held' k := by
  obtain ⟨key, token, hh, hl, hw⟩ := h
  exact ⟨key, token, hsub _ hh, hl, hw⟩

def RecoveryHolds (t : QueueTables) (held : List QueueRow) (r : QueueRow) : Prop :=
  (∃ w, r = .worker w) ∨ (∃ k, r = .lease k) ∨
    (∃ k, r = .run k ∧ (t.Retrying k ∨ .lease k ∈ held)) ∨ ∃ k, r = .workspace k ∧ t.Owns held k

theorem RecoverState.Guarded.kinds_append {st : RecoverState} (h : st.Guarded t)
    {rows : List QueueRow} (hnew : ∀ r ∈ rows, RecoveryHolds t st.held r) :
    ∀ r ∈ rows ++ st.held, RecoveryHolds t (rows ++ st.held) r := by
  intro r hr
  have hold : RecoveryHolds t st.held r := by
    rcases mem_append.mp hr with hr | hr
    · exact hnew r hr
    · exact h.kinds r hr
  rcases hold with h₁ | h₂ | ⟨k, hk, hre | hl⟩ | ⟨k, hk, hown⟩
  · exact .inl h₁
  · exact .inr (.inl h₂)
  · exact .inr (.inr (.inl ⟨k, hk, .inl hre⟩))
  · exact .inr (.inr (.inl ⟨k, hk, .inr (mem_append_right _ hl)⟩))
  · exact .inr (.inr (.inr ⟨k, hk, hown.mono fun r hr => mem_append_right _ hr⟩))

theorem RecoverState.Guarded.lock {st : RecoverState} (h : st.Guarded t) {rows : List QueueRow}
    {stage : RecoverStage} (hnew : ∀ r ∈ rows, RecoveryHolds t st.held r)
    (hst : stage ≠ .lockRetries ∧ stage ≠ .lockLeases) (hr : ∀ k ∈ stage.rest, k ∈ st.leases)
    (hd : ∀ k ∈ st.stage.pending, .run k ∈ rows ∨ k ∈ stage.pending) :
    ({ st with stage := stage, held := rows ++ st.held } : RecoverState).Guarded t where
  start := fun e => absurd e hst.1
  unselected := fun e => absurd e (by simp [hst])
  retries k hk := ⟨mem_append_right _ (h.retries k hk).1, (h.retries k hk).2⟩
  leases k hk := ⟨mem_append_right _ (h.leases k hk).1, (h.leases k hk).2⟩
  rest := hr
  done k hk := by
    rcases h.done k hk with hrun | hp
    · exact .inl (mem_append_right _ hrun)
    · exact (hd k hp).imp_left (mem_append_left _)
  kinds := h.kinds_append hnew

theorem RecoverState.Guarded.step {st st' : RecoverState} {call : RecoverCall} (hv : t.Valid)
    (h : st.Guarded t) (hs : st.execute t locked call = .running st') : st'.Guarded t := by
  cases RecoverState.running_inv hs with
  | retries stage =>
    have hre : ∀ k ∈ t.dueRetries locked call, t.Retrying k := by
      intro k hk
      obtain ⟨r, hr, rfl, hst, -, -⟩ := mem_dueRetries hk
      exact ⟨r, run?_of_mem hv hr, hst⟩
    have hl := h.unselected (.inl stage)
    refine ⟨by rintro ⟨⟩, fun _ => hl, ?_, by simp [hl], by rintro k ⟨⟩,
      by simp [hl], h.kinds_append ?_⟩
    · intro k hk
      exact ⟨mem_append_left _ (mem_map_of_mem hk), hre k hk⟩
    · intro r hr
      obtain ⟨k, hk, rfl⟩ := mem_map.mp hr
      exact .inr (.inr (.inl ⟨k, rfl, .inl (hre k hk)⟩))
  | leases =>
    refine ⟨by rintro ⟨⟩, by simp, ?_, ?_, fun k hk => hk, fun k hk => .inr hk, h.kinds_append ?_⟩
    · intro k hk
      exact ⟨mem_append_right _ (h.retries k hk).1, (h.retries k hk).2⟩
    · intro k hk
      refine ⟨mem_append_left _ (mem_map_of_mem hk), ?_⟩
      obtain ⟨r, hr, rfl, hso, -⟩ := mem_expiredLeases hk
      obtain ⟨row, hrow⟩ := isSome_iff_exists.mp hso
      exact ⟨row.leaseToken, r, row, run?_of_mem hv hr, hrow, rfl⟩
    · intro r hr
      obtain ⟨k, hk, rfl⟩ := mem_map.mp hr
      exact .inr (.inl ⟨k, rfl⟩)
  | run key rest stage =>
    have hkey : key ∈ st.leases := h.rest key (by rw [stage]; exact mem_cons_self ..)
    obtain ⟨hh, token, hls⟩ := h.leases key hkey
    have hreq : st.request t = some (.run key) := by
      obtain ⟨r, row, hr, -, -⟩ := hls
      simp [RecoverState.request, stage, hr]
    refine h.lock ?_ (by simp) ?_ ?_
    · intro r hr
      rw [hreq] at hr
      rw [mem_singleton.mp hr]
      exact .inr (.inr (.inl ⟨key, rfl, .inr hh⟩))
    · intro k hk
      exact h.rest k (by rw [stage]; exact hk)
    · intro k hp
      rw [stage] at hp
      rcases mem_cons.mp hp with rfl | hrs
      · rw [hreq]
        exact .inl (mem_cons_self ..)
      · exact .inr hrs
  | workspace key rest stage =>
    have hkey : key ∈ st.leases := h.rest key (by rw [stage]; exact mem_cons_self ..)
    obtain ⟨hh, token, hls⟩ := h.leases key hkey
    refine h.lock ?_ (by simp) ?_ ?_
    · intro r hr
      have hreq := mem_toList.mp hr
      simp only [RecoverState.request, stage, RecoverState.workspace,
        map_eq_some_iff, bind_eq_some_iff, RecoverState.leaseRow] at hreq
      obtain ⟨w, ⟨row, ⟨r', hr', hrow⟩, hw⟩, rfl⟩ := hreq
      exact .inr (.inr (.inr ⟨w.key, rfl, key, row.leaseToken, hh, ⟨r', row, hr', hrow, rfl⟩,
        workspaceToken_of_workspaceOf hw⟩))
    · intro k hk
      exact h.rest k (by rw [stage]; exact hk)
    · exact fun k hp => .inr (by rwa [stage] at hp)
  | worker _ rest stage =>
    refine h.lock ?_ (by simp) ?_ ?_
    · intro r hr
      have hreq := mem_toList.mp hr
      simp only [RecoverState.request, stage, map_eq_some_iff] at hreq
      obtain ⟨w, -, rfl⟩ := hreq
      exact .inl ⟨_, rfl⟩
    · intro k hk
      exact h.rest k (by rw [stage]; exact mem_cons_of_mem _ hk)
    · exact fun k hp => .inr (by rwa [stage] at hp)

theorem QueueTxn.Guarded.step {p p' : QueueTxn} (hv : t.Valid) (hp : p.Guarded t)
    (h : p.execute t locked = .running p') : p'.Guarded t := by
  cases p with
  | claim =>
    obtain ⟨st', hst, rfl⟩ := outcome_map_running h
    exact ClaimState.Guarded.step hv hp hst
  | create =>
    obtain ⟨st', hst, rfl⟩ := outcome_map_running h
    exact CreateState.Guarded.step hp hst
  | finish =>
    obtain ⟨st', hst, rfl⟩ := outcome_map_running h
    exact FinishState.Guarded.step hp hst
  | recoverExpired =>
    obtain ⟨st', hst, rfl⟩ := outcome_map_running h
    exact RecoverState.Guarded.step hv hp hst

/-! ### The commit of a claim -/

theorem claim_stored {s s' : RunStore} {w : String} {token : Uuid} {at' ex : Timestamp}
    {lease : RunLease} (h : claim s w token at' ex = .ok (some lease, s')) :
    s'.run.status = .leased ∧ ∃ row, s'.lease = some row ∧ row.leaseToken = token := by
  obtain ⟨hn, -⟩ | ⟨_, -, hq, hl, -⟩ := claim_inv h
  · cases hn
  refine ⟨hl, ?_⟩
  have hs := claim_queueStep h
  generalize s'.run = run at hs hl
  generalize s'.lease = l at hs ⊢
  cases hs with
  | kept =>
    rw [hq] at hl
    cases hl
  | claimed => exact ⟨_, rfl, rfl⟩

theorem ClaimState.Guarded.viewKeys (hv : t.Valid) (h : st.Guarded t) :
    KeyedTable.Unique WorkspaceLeaseRecord.key (st.view t).fleet.workspaces := by
  refine hv.workspaceKeys.append h.insertedKeys ?_
  intro w hw w' hw' hs
  have hn := (h.inserted w' hw').2
  rw [← hs] at hn
  exact lookup_eq_none.mp hn w hw rfl

theorem ClaimState.Guarded.commit_view (hv : t.Valid) (h : st.Guarded t)
    : (st.view t).Valid ∧ t.Keeps (st.view t) st.held := by
  refine ⟨⟨hv.runKeys, h.viewKeys hv, hv.leased, hv.tokens⟩, fun _ _ hr => .inl hr,
    fun w hw _ _ => .inl (mem_append_left _ hw), ?_, ?_⟩
  · intro k hk
    simp only [ClaimState.view, workspace?, lookup_append, isSome_or,
      or_eq_true]
    exact .inl hk
  · intro k hk
    simp only [ClaimState.view, workspace?, lookup_append, isSome_or,
      or_eq_true] at hk
    rcases hk with hold | hnew
    · exact .inl hold
    · obtain ⟨w, hw⟩ := isSome_iff_exists.mp hnew
      obtain ⟨hmem, hkey⟩ := lookup_some hw
      have hh := (h.inserted w hmem).1
      rw [hkey] at hh
      exact .inr hh

theorem ClaimState.Guarded.commit_take (hv : t.Valid) (h : st.Guarded t) {c : Candidate}
    (hsta : st.stage = .take c) {w : String} {token wsToken : Uuid} {at' ex : Timestamp}
    {lease : RunLease} {f : Fleet}
    (hfr : ∀ r ∈ t.fleet.runs, ∀ row, r.store.lease = some row → row.leaseToken ≠ token)
    (hcl : (st.view t).fleet.claim w c.tenantId c.runId token wsToken at' ex =
      .ok (some lease, f)) : ({ st.view t with fleet := f } : QueueTables).Valid ∧
      t.Keeps { st.view t with fleet := f } st.held := by
  obtain ⟨hvi, hke⟩ := h.commit_view hv
  obtain ⟨hru, r₀, hr₀, hwr⟩ := h.candidate c (by rw [hsta]; rfl)
  obtain ⟨_, r, s, -, -, -, hr, hown, hc, hf⟩ := (claim_cases hcl).resolve_left (by simp)
  have hs : r = r₀ := Option.some.inj (hr.symm.trans hr₀)
  subst hs
  obtain ⟨hst, row, hrow, ht⟩ := claim_stored hc
  obtain ⟨hid₁, hid₂, -⟩ := (claim_queueStep hc).sameIdentity
  have hkey : ({ r with store := s } : FleetRun).key = (c.tenantId, c.runId) := by
    rw [← run?_key hr]
    simp [FleetRun.key, hid₁, hid₂]
  have hqu : t.Queued c.key := by
    rcases h.kinds _ hru with ⟨_, ⟨⟩⟩ | ⟨k, ⟨⟩, hq⟩ | ⟨_, ⟨⟩⟩ | ⟨_, ⟨⟩, -⟩
    exact hq
  rw [hwr] at hown hf
  have hro := (st.view t).fleet.workspaceRow_key c.tenantId c.workspaceId
  generalize hw₀ : (st.view t).fleet.workspaceRow c.tenantId c.workspaceId = w₀
    at hown hro hf
  have hre : ∀ k : Uuid × Uuid, f.run? k.1 k.2 =
      if k = (c.tenantId, c.runId) then some { r with store := s } else t.fleet.run? k.1 k.2 := by
    intro k
    rw [hf, ← hkey]
    exact t.fleet.run?_setRun _ k
  obtain ⟨w₁, hw₁, hwo⟩ : ∃ w₁ : WorkspaceLeaseRecord, w₁.key = w₀.key ∧ f.workspaces =
      upsert WorkspaceLeaseRecord.key w₁ (st.view t).fleet.workspaces :=
    ⟨w₀.takenBy
      { runId := c.runId, workerId := w, runLeaseToken := token, leaseToken := wsToken
        acquiredAt := at', expiresAt := ex }, rfl, by rw [hf]; rfl⟩
  have hrun : f.runs = upsert FleetRun.key { r with store := s } t.fleet.runs := by
    rw [hf]
    rfl
  refine ⟨⟨by dsimp only; rw [hrun]; exact hv.runKeys.upsert _,
    by dsimp only; rw [hwo]; exact hvi.workspaceKeys.upsert _, ?_, ?_⟩, ?_, ?_, ?_, ?_⟩
  · intro k r' hr' hne
    have hr'' := (hre k).symm.trans hr'
    split at hr''
    · cases hr''
      simp [hst, RunStatus.assigned]
    · exact hv.leased k r' hr'' hne
  · have hold : ∀ k token', ({ st.view t with fleet := f } : QueueTables).LeaseToken k token' →
        k = c.key ∧ token' = token ∨ k ≠ c.key ∧ t.LeaseToken k token' := by
      rintro k token' ⟨r', row', hr', hrow', rfl⟩
      have hr'' := (hre k).symm.trans hr'
      split at hr''
      next hk =>
        cases hr''
        refine .inl ⟨hk, ?_⟩
        rw [hrow] at hrow'
        cases hrow'
        exact ht
      next hk => exact .inr ⟨hk, r', row', hr'', hrow', rfl⟩
    have hnew : ∀ k, ¬ t.LeaseToken k token := by
      rintro k ⟨r', row', hr', hrow', hs⟩
      exact hfr r' (mem_of_run? hr') row' hrow' hs
    intro k k' token' h₁ h₂
    rcases hold k token' h₁ with ⟨hk, rfl⟩ | ⟨-, h₁⟩
    · rcases hold k' token' h₂ with ⟨hk', -⟩ | ⟨-, h₂⟩
      · rw [hk, hk']
      · exact absurd h₂ (hnew k')
    · rcases hold k' token' h₂ with ⟨-, rfl⟩ | ⟨-, h₂⟩
      · exact absurd h₁ (hnew k)
      · exact hv.tokens k k' token' h₁ h₂
  · intro k r' hr'
    by_cases hk : k = (c.tenantId, c.runId)
    · subst hk
      exact .inr ⟨hru, .inl hqu⟩
    · refine .inl ((hre k).trans ?_)
      rw [if_neg hk]
      exact hr'
  · intro w' hw' token' hown'
    left
    dsimp only
    rw [hwo]
    refine mem_upsert_of_ne (mem_append_left _ hw') ?_
    intro hs
    have hfo : (st.view t).fleet.workspace? c.tenantId c.workspaceId = some w' :=
      (hvi.workspaceKeys.lookup_eq_some_iff).mpr
        ⟨mem_append_left _ hw', (hs.trans hw₁).trans hro⟩
    rw [workspaceRow_of_some hfo] at hw₀
    subst hw₀
    rw [hown] at hown'
    cases hown'
  · intro k hk
    simp only [workspace?, hwo]
    exact isSome_lookup_upsert.mpr (.inl (hke.rows k hk))
  · intro k hk
    simp only [workspace?, hwo] at hk
    rcases isSome_lookup_upsert.mp hk with hold | hnew
    · exact hke.inserted k hold
    · have hh := h.taking c hsta
      rw [workspaceKey, ← hro, ← hw₁, hnew] at hh
      exact .inr hh

/-! ### All commits -/

theorem CreateState.commit_run {call : CreateCall} (hv : t.Valid)
    (hnew : ∀ r ∈ t.fleet.runs, r.store.run.id ≠ call.submission.runId)
    (ht' : t'.fleet = { t.fleet with runs := t.fleet.runs ++ [{ store := call.store }] })
    (held : List QueueRow) : t'.Valid ∧ t.Keeps t' held := by
  have hid : call.store.run.id = call.submission.runId ∧ call.store.lease = none := by
    unfold CreateCall.store
    split <;> exact ⟨rfl, rfl⟩
  have hre : ∀ k : Uuid × Uuid, t'.fleet.run? k.1 k.2 = (t.fleet.run? k.1 k.2).or
        (lookup FleetRun.key (k.1, k.2) [{ store := call.store }]) := by
    intro k
    simp only [run?, ht', lookup_append]
  have hold : ∀ (k : Uuid × Uuid) r, t'.fleet.run? k.1 k.2 = some r → r.store.lease ≠ none →
      t.fleet.run? k.1 k.2 = some r := by
    intro k r hr hne
    rw [hre, or_eq_some_iff] at hr
    rcases hr with hr | ⟨-, hr⟩
    · exact hr
    · obtain ⟨hmem, -⟩ := lookup_some hr
      rw [mem_singleton.mp hmem] at hne
      exact absurd hid.2 hne
  have hl : ∀ k token, t'.LeaseToken k token → t.LeaseToken k token := by
    rintro k token ⟨r, row, hr, hrow, hto⟩
    exact ⟨r, row, hold k r hr (by simp [hrow]), hrow, hto⟩
  have hwo : t'.fleet.workspaces = t.fleet.workspaces := by rw [ht']
  refine ⟨⟨?_, hwo ▸ hv.workspaceKeys, ?_, ?_⟩, ?_, ?_, ?_, ?_⟩
  · rw [ht']
    refine hv.runKeys.append_single ?_
    intro r hr hs
    exact hnew r hr ((congrArg Prod.snd hs).trans hid.1)
  · intro k r hr hne
    exact hv.leased k r (hold k r hr hne) hne
  · intro k k' token h₁ h₂
    exact hv.tokens k k' token (hl k token h₁) (hl k' token h₂)
  · intro k r hr
    rw [hre, hr]
    exact .inl rfl
  · intro w hw _ _
    exact .inl (hwo ▸ hw)
  · intro k hk
    simpa only [workspace?, hwo] using hk
  · intro k hk
    refine .inl ?_
    simpa only [workspace?, hwo] using hk

theorem QueueTxn.keeps {p : QueueTxn} (hv : t.Valid) (hp : p.Guarded t)
    (h : p.execute t locked = .committed t') : t'.Valid ∧ t.Keeps t' p.held := by
  cases p with
  | claim =>
    obtain rfl | rfl | ⟨_, lease, f, hst, hf, hc, rfl⟩ :=
      ClaimState.committed_inv (outcome_map_committed h)
    · exact ⟨hv, .refl _ _⟩
    · exact ClaimState.Guarded.commit_view hv hp
    · exact ClaimState.Guarded.commit_take hv hp hst hf hc
  | create _ st =>
    obtain rfl | rfl | ⟨hnew, _, rfl⟩ := CreateState.committed_inv (outcome_map_committed h)
    · exact ⟨hv, .refl _ _⟩
    · exact ⟨⟨hv.runKeys, hv.workspaceKeys, hv.leased, hv.tokens⟩, fun _ _ hr => .inl hr,
        fun _ hw _ _ => .inl hw, fun _ hk => hk, fun _ hk => .inl hk⟩
    · exact CreateState.commit_run hv hnew rfl st.held
  | finish call st =>
    have hg : st.Guarded t call := hp
    obtain ⟨hst, _, f, hfi, rfl⟩ :=
      FinishState.committed_inv (outcome_map_committed h)
    have hre := releases_finish hfi
    refine ⟨hre.valid hv, hre.keeps ?_ hv⟩
    intro k hk
    rw [mem_singleton.mp hk]
    exact ⟨hg.run (.inr hst), .inr (hg.lease (by simp [hst])).1⟩
  | recoverExpired _ st =>
    have hg : st.Guarded t := hp
    obtain ⟨hst, f, hrec, rfl⟩ := RecoverState.committed_inv (outcome_map_committed h)
    have hre := releases_recoverExpired hv hrec
    refine ⟨hre.valid hv, hre.keeps ?_ hv⟩
    intro k hk
    rcases mem_append.mp hk with hrt | hl
    · exact ⟨(hg.retries k hrt).1, .inl (hg.retries k hrt).2⟩
    · refine ⟨(hg.done k hl).resolve_right ?_, .inr (hg.leases k hl).1⟩
      rw [hst]
      simp [RecoverStage.pending]

theorem QueueTxn.Guarded.others {held : List QueueRow} {q : QueueTxn} (hv : t.Valid)
    (hke : t.Keeps t' held) (ha : ∀ r ∈ held, r ∉ q.held) (hq : q.Guarded t) : q.Guarded t' := by
  have hf : ∀ {r}, r ∈ q.held → r ∉ held := fun hr hp => ha _ hp hr
  cases q with
  | claim _ st =>
    have hg : st.Guarded t := hq
    have hqd : ∀ {k}, .run k ∈ st.held → t.Queued k → t'.Queued k :=
      fun hh hk => hke.queued (hf hh) hk
    exact
      { start := hg.start
        kinds := by
          intro r hr
          rcases hg.kinds r hr with h₁ | ⟨k, rfl, hk⟩ | h₃ | ⟨k, rfl, hrow | hqu⟩
          · exact .inl h₁
          · exact .inr (.inl ⟨k, rfl, hqd hr hk⟩)
          · exact .inr (.inr (.inl h₃))
          · exact .inr (.inr (.inr ⟨k, rfl, .inl (hke.rows k hrow)⟩))
          · exact .inr (.inr (.inr ⟨k, rfl, .inr hqu⟩))
        candidate := by
          intro c hc
          obtain ⟨hh, r, hr, hwo⟩ := hg.candidate c hc
          exact ⟨hh, r, hke.run? (k := c.key) (hf hh) hr, hwo⟩
        counting := hg.counting
        taking := hg.taking
        inserted := by
          intro w hw
          obtain ⟨hh, hn⟩ := hg.inserted w hw
          refine ⟨hh, not_isSome_iff_eq_none.mp fun hs => ?_⟩
          rcases hke.inserted w.key hs with hold | hnew
          · rw [hn] at hold
            cases hold
          · exact hf hh hnew
        insertedKeys := hg.insertedKeys }
  | create => exact hq
  | finish call st =>
    have hg : st.Guarded t call := hq
    refine ⟨hg.start, ?_, hg.run, ?_⟩
    · intro hst
      obtain ⟨hh, ht⟩ := hg.lease hst
      exact ⟨hh, hke.leaseToken hv (hf hh) ht⟩
    · intro r hr
      rcases hg.kinds r hr with h₁ | h₂ | ⟨k, rfl, hw⟩
      · exact .inl h₁
      · exact .inr (.inl h₂)
      have hst : st.stage ≠ .lockLease := by
        intro hst
        rw [hg.start hst] at hr
        cases hr
      obtain ⟨hh, ht⟩ := hg.lease hst
      have hkp := hke.lease_and_workspace hv (hf hh) ht hw
      exact .inr (.inr ⟨k, rfl, hkp.2⟩)
  | recoverExpired _ st =>
    have hg : st.Guarded t := hq
    refine ⟨hg.start, hg.unselected, ?_, ?_, hg.rest, hg.done, ?_⟩
    · intro k hk
      obtain ⟨hh, hre⟩ := hg.retries k hk
      exact ⟨hh, hke.retrying (hf hh) hre⟩
    · intro k hk
      obtain ⟨hh, token, ht⟩ := hg.leases k hk
      exact ⟨hh, token, hke.leaseToken hv (hf hh) ht⟩
    · intro r hr
      rcases hg.kinds r hr with h₁ | h₂ | ⟨k, rfl, hre | hl⟩ | ⟨k, rfl, hown⟩
      · exact .inl h₁
      · exact .inr (.inl h₂)
      · exact .inr (.inr (.inl ⟨k, rfl, .inl (hke.retrying (hf hr) hre)⟩))
      · exact .inr (.inr (.inl ⟨k, rfl, .inr hl⟩))
      · exact .inr (.inr (.inr ⟨k, rfl, hke.owns hv ha hown⟩))

theorem QueueTxn.guarded_start (t : QueueTables) (call : QueueCall) :
    (QueueTxn.start call).Guarded t := by
  cases call with
  | claim =>
    exact ⟨fun _ => rfl, by rintro r ⟨⟩, by rintro c ⟨⟩, by rintro c ⟨⟩, by rintro c ⟨⟩,
      by rintro _ ⟨⟩, unique_nil⟩
  | create => exact ⟨fun _ => rfl, by rintro r ⟨⟩⟩
  | finish =>
    exact ⟨fun _ => rfl, fun h => absurd rfl h, by simp, by rintro r ⟨⟩⟩
  | recoverExpired =>
    exact ⟨fun _ => rfl, fun _ => rfl, by rintro k ⟨⟩, by rintro k ⟨⟩, by rintro k ⟨⟩,
      by rintro k ⟨⟩, by rintro r ⟨⟩⟩

end AgentPlatform
