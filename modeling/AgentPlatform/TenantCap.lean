/-
**No tenant has more leased runs than its quota allows.**
-/

import AgentPlatform.FleetSteps
import AgentPlatform.QueueStatements

namespace AgentPlatform

open ClaimStage Fleet FleetRun KeyedTable QueueTables QueueTxn TenantQuotaRecord

open RowLocking

section Counting

variable {f f' : Fleet} {at' : Timestamp}

abbrev Fleet.leasesOf (f : Fleet) (τ : Uuid) : ℕ :=
  f.runs.countP fun r => r.store.lease.any (·.tenantId = τ)

theorem Fleet.countP_setRun {p : FleetRun → Bool} {r : FleetRun} {s : RunStore} {tenantId runId : Uuid}
    (hr : f.run? tenantId runId = some r) (hkey : ({ r with store := s } : FleetRun).key = r.key)
    (hp : p { r with store := s } = true → p r = true) :
    (f.setRun { r with store := s }).runs.countP p ≤ f.runs.countP p := by
  have hadd := countP_upsert_of_lookup (p := p)
    ((congrArg (lookup _ · f.runs) hkey).trans (stores_of_run? hr))
  change (upsert _ _ _).countP p ≤ _
  by_cases hnew : p { r with store := s }
  · rw [if_pos hnew, if_pos (hp hnew)] at hadd
    omega
  · rw [if_neg hnew] at hadd
    omega

theorem Fleet.countP_claim {w : String} {tenantId runId t wsToken : Uuid} {ex : Timestamp}
    {lease : RunLease} (h : f.claim w tenantId runId t wsToken at' ex = .ok (some lease, f'))
    (τ : Uuid) : f'.leasesOf τ ≤ f.leasesOf τ + if τ = tenantId then 1 else 0 := by
  obtain ⟨_, r, s, -, -, -, hr, -, hc, rfl⟩ := (claim_cases h).resolve_left (by simp)
  have hkey := run?_key hr
  have ht : r.store.run.tenantId = tenantId := congrArg Prod.fst hkey
  have hs := claim_queueStep hc
  obtain ⟨hid₁, hid₂, -⟩ := hs.sameIdentity
  by_cases hτ : τ = tenantId
  · rw [if_pos hτ]
    refine (countP_upsert_le _ _ _).trans (Nat.add_le_add_left ?_ _)
    split <;> omega
  · rw [if_neg hτ, Nat.add_zero]
    refine countP_setRun hr ?_ ?_
    · simp [key, hid₁, hid₂]
    dsimp only
    generalize s.run = run at hs
    generalize s.lease = l at hs ⊢
    cases hs with
    | kept => exact id
    | claimed =>
      intro hany
      simp only [claimedLease, any_some, decide_eq_true_eq] at hany
      exact absurd (hany.symm.trans ht) hτ

theorem Fleet.countP_finish {lease : RunLease} {result : RunExecutionResult} {status : RunStatus}
    (h : f.finish lease result at' = .ok (status, f')) (τ : Uuid) :
    f'.leasesOf τ ≤ f.leasesOf τ := by
  obtain ⟨_, s, hr, hs, rfl⟩ := Fleet.finish_inv h
  obtain ⟨hid₁, hid₂, -⟩ := (finish_queueStep hs).sameIdentity
  rw [leasesOf, returnWorkerSlot_runs]
  refine countP_setRun hr (by simp [key, hid₁, hid₂]) ?_
  have hn : s.lease = none := by
    obtain ⟨-, -, -, -, -, -, hl, -, -⟩ := AgentPlatform.finish_inv hs
    exact hl
  simp [hn]

theorem Fleet.countP_recoverRun {key : Uuid × Uuid} (h : f.recoverRun at' key = .ok f') (τ : Uuid) :
    f'.leasesOf τ ≤ f.leasesOf τ := by
  obtain ⟨-, rfl⟩ | ⟨r, s, hr, hs, hc⟩ := recoverRun_inv h
  · exact le_rfl
  obtain ⟨hid₁, hid₂, -⟩ := (recoverExpired_queueStep hs).sameIdentity
  have hset := countP_setRun (p := fun r => r.store.lease.any (·.tenantId = τ)) hr
    (s := s) (by simp [FleetRun.key, hid₁, hid₂]) (by
      rcases recoverExpired_lease hs with hsa | hn
      · simp [hsa]
      · simp [hn])
  obtain ⟨-, rfl⟩ | ⟨_, -, -, rfl⟩ := hc
  · exact hset
  · rw [leasesOf, returnWorkerSlot_runs]
    exact hset

theorem Fleet.countP_recoverExpired {keys : List (Uuid × Uuid)}
    (h : f.recoverExpired at' keys = .ok f') (τ : Uuid) :
    f'.leasesOf τ ≤ f.leasesOf τ :=
  recoverExpired_induction
    (R := fun f f' => f'.leasesOf τ ≤ f.leasesOf τ)
    (fun _ => le_rfl) (fun h h' => h'.trans h) (fun h => countP_recoverRun h τ) h

end Counting

def QueueTables.maxActiveRuns (t : QueueTables) (τ : Uuid) : ℕ :=
  (t.quota? τ).elim 0 (·.quota.maxActiveRuns)

def QueueTables.WithinQuota (t : QueueTables) : Prop := ∀ τ, t.activeRuns τ ≤ t.maxActiveRuns τ

def QueueTxn.quotas : QueueTxn → List TenantQuotaRecord
  | .claim _ st => st.quotas
  | .create _ st => st.quotas
  | .finish _ _ | .recoverExpired _ _ => []

def ClaimStage.counted? : ClaimStage → Option Candidate
  | .insertWorkspace c | .lockWorkspace c | .take c => some c
  | .lockWorker | .selectCandidate | .insertQuota _ | .lockQuota _ | .countActive _ => none

/-- **What a transaction knows about quotas**. -/
structure QueueTxn.Counted (t : QueueTables) (p : QueueTxn) : Prop where
  inserted : ∀ row ∈ p.quotas, .quota row.tenantId ∈ p.held
  locked : ∀ call st c, p = .claim call st → st.stage.counting? = some c →
    .quota c.tenantId ∈ st.held
  room : ∀ call st c, p = .claim call st → st.stage.counted? = some c →
    t.activeRuns c.tenantId < (st.view t).maxActiveRuns c.tenantId

variable {t t' : QueueTables} {p : QueueTxn} {locked : QueueRow → Bool}

theorem QueueTxn.Counted.of_not_claim (hp : ∀ call st, p ≠ .claim call st)
    (h : ∀ row ∈ p.quotas, .quota row.tenantId ∈ p.held) :
    p.Counted t :=
  ⟨h, fun call st _ e => absurd e (hp call st), fun call st _ e => absurd e (hp call st)⟩

theorem QueueTxn.Counted.of_claim {call : ClaimCall} {st : ClaimState}
    (inserted : ∀ row ∈ st.quotas, .quota row.tenantId ∈ st.held)
    (locked : ∀ c, st.stage.counting? = some c → .quota c.tenantId ∈ st.held)
    (room : ∀ c, st.stage.counted? = some c →
      t.activeRuns c.tenantId < (st.view t).maxActiveRuns c.tenantId) :
    (QueueTxn.claim call st).Counted t where
  inserted := inserted
  locked := by
    rintro _ _ c ⟨⟩ hc
    exact locked c hc
  room := by
    rintro _ _ c ⟨⟩ hc
    exact room c hc

theorem quota?_append {rows : List TenantQuotaRecord} (ht : t'.quotas = t.quotas ++ rows) {τ : Uuid}
    {row : TenantQuotaRecord} (h : t.quota? τ = some row) : t'.quota? τ = some row := by
  rw [quota?, ht]
  exact lookup_append_of_some h

theorem maxActiveRuns_append {rows : List TenantQuotaRecord} (ht : t'.quotas = t.quotas ++ rows)
    (τ : Uuid) : t.maxActiveRuns τ ≤ t'.maxActiveRuns τ := by
  unfold maxActiveRuns
  cases h : t.quota? τ with
  | none => exact Nat.zero_le _
  | some => rw [quota?_append ht h]

theorem maxActiveRuns_view {rows : List TenantQuotaRecord} {st : ClaimState}
    (ht : t'.quotas = t.quotas ++ rows) {τ : Uuid} (hrow : ∀ row ∈ rows, row.tenantId ≠ τ) :
    (st.view t').maxActiveRuns τ = (st.view t).maxActiveRuns τ := by
  have hlk : lookup tenantId τ ((t.quotas ++ rows) ++ st.quotas) =
      lookup tenantId τ (t.quotas ++ st.quotas) := by
    rw [lookup_append, lookup_append, lookup_append,
      lookup_eq_none.mpr hrow, Option.or_none]
  simp only [maxActiveRuns, quota?, ClaimState.view, ht, hlk]

/-- **What a commit does to quotas and lease rows.** -/
theorem QueueTxn.active_committed (h : p.execute t locked = .committed t') :
    (t'.quotas = t.quotas ∨ t'.quotas = t.quotas ++ p.quotas) ∧
      ((∀ τ, t'.activeRuns τ ≤ t.activeRuns τ) ∨
        ∃ call st c, p = .claim call st ∧ st.stage = .take c ∧ t'.quotas = t.quotas ++ p.quotas ∧
          ∀ τ, t'.activeRuns τ ≤ t.activeRuns τ + if τ = c.tenantId then 1 else 0) := by
  cases p with
  | claim call st =>
    obtain rfl | rfl | ⟨c, lease, f, hst, -, hc, rfl⟩ :=
      ClaimState.committed_inv (outcome_map_committed h)
    · exact ⟨.inl rfl, .inl fun τ => le_rfl⟩
    · exact ⟨.inr rfl, .inl fun τ => le_rfl⟩
    · have hco : ∀ τ, _ ≤ t.activeRuns τ + _ := fun τ => countP_claim hc τ
      exact ⟨.inr rfl, .inr ⟨call, st, c, rfl, hst, rfl, hco⟩⟩
  | create call =>
    obtain rfl | rfl | ⟨-, _, rfl⟩ := CreateState.committed_inv (outcome_map_committed h)
    · exact ⟨.inl rfl, .inl fun τ => le_rfl⟩
    · exact ⟨.inr rfl, .inl fun τ => le_rfl⟩
    · refine ⟨.inr rfl, .inl fun τ => ?_⟩
      have hl : call.store.lease = none := by
        unfold CreateCall.store
        split <;> rfl
      simp [activeRuns, countP_append, hl]
  | finish =>
    obtain ⟨-, _, f, hf, rfl⟩ := FinishState.committed_inv (outcome_map_committed h)
    exact ⟨.inl rfl, .inl fun τ => countP_finish hf τ⟩
  | recoverExpired =>
    obtain ⟨-, f, hrec, rfl⟩ := RecoverState.committed_inv (outcome_map_committed h)
    exact ⟨.inl rfl, .inl fun τ => countP_recoverExpired hrec τ⟩

theorem QueueTables.WithinQuota.commit (hcap : t.WithinQuota) (hp : p.Counted t)
    (h : p.execute t locked = .committed t') : t'.WithinQuota := by
  intro τ
  obtain ⟨hq, ha⟩ := active_committed h
  have hg : t.maxActiveRuns τ ≤ t'.maxActiveRuns τ := by
    rcases hq with hs | hadd
    · exact maxActiveRuns_append (hs.trans (append_nil _).symm) τ
    · exact maxActiveRuns_append hadd τ
  rcases ha with hl | ⟨call, st, c, rfl, hst, hadd, hone⟩
  · exact (hl τ).trans ((hcap τ).trans hg)
  by_cases hτ : τ = c.tenantId
  · subst hτ
    have hr := hp.room call st c rfl (by rw [hst]; rfl)
    have hv : (st.view t).maxActiveRuns c.tenantId = t'.maxActiveRuns c.tenantId := by
      simp only [maxActiveRuns, quota?, hadd]
      rfl
    have hle := hone c.tenantId
    rw [if_pos rfl] at hle
    omega
  · have hle := hone τ
    rw [if_neg hτ] at hle
    exact hle.trans ((hcap τ).trans hg)

theorem QueueTxn.Counted.others {q : QueueTxn} (hp : p.Counted t) (hq : q.Counted t)
    (ha : ∀ r ∈ p.held, r ∉ q.held) (h : p.execute t locked = .committed t') : q.Counted t' := by
  refine ⟨hq.inserted, hq.locked, ?_⟩
  rintro call st c rfl hc
  have hr := hq.room call st c rfl hc
  have hh : .quota c.tenantId ∈ st.held := by
    refine hq.locked call st c rfl ?_
    cases hst : st.stage <;> simp_all [counting?, counted?]
  have hrw : ∀ row ∈ p.quotas, row.tenantId ≠ c.tenantId := by
    rintro row hrow hs
    exact ha _ (hp.inserted row hrow) (hs ▸ hh)
  obtain ⟨hqu, hac⟩ := active_committed h
  have hmax : (st.view t').maxActiveRuns c.tenantId = (st.view t).maxActiveRuns c.tenantId := by
    rcases hqu with hs | hadd
    · exact maxActiveRuns_view (hs.trans (append_nil _).symm) (by simp)
    · exact maxActiveRuns_view hadd hrw
  have hl : t'.activeRuns c.tenantId ≤ t.activeRuns c.tenantId := by
    rcases hac with hl | ⟨call', st', c', rfl, hst, -, hone⟩
    · exact hl _
    have ho : c.tenantId ≠ c'.tenantId := by
      intro hs
      have hh' := hp.locked call' st' c' rfl (by rw [hst]; rfl)
      exact ha _ hh' (hs ▸ hh)
    have hle := hone c.tenantId
    rwa [if_neg ho] at hle
  rw [hmax]
  exact lt_of_le_of_lt hl hr

theorem QueueTxn.Counted.step {p' : QueueTxn} (hp : p.Counted t)
    (h : p.execute t locked = .running p') : p'.Counted t := by
  cases p with
  | claim call st =>
    obtain ⟨st', hst, rfl⟩ := outcome_map_running h
    have hi : ∀ row ∈ st.quotas, .quota row.tenantId ∈ st.held := hp.inserted
    have hl := fun c => hp.locked call st c rfl
    have hr := fun c => hp.room call st c rfl
    cases ClaimState.running_inv hst with
    | worker stage request | candidate c stage found | workspaceOwned c =>
      exact .of_claim (fun row hrow => mem_cons_of_mem _ (hi row hrow))
        (by rintro c ⟨⟩) (by rintro c ⟨⟩)
    | quotaFound c | full c stage | workspaceBusy c stage =>
      exact .of_claim hi (by rintro c ⟨⟩) (by rintro c ⟨⟩)
    | quotaInserted c =>
      refine .of_claim ?_ (by rintro c ⟨⟩) (by rintro c ⟨⟩)
      intro row hrow
      rcases mem_append.mp hrow with hold | hnew
      · exact mem_cons_of_mem _ (hi row hold)
      · rw [mem_singleton.mp hnew]
        exact mem_cons_self ..
    | quotaLocked c =>
      refine .of_claim (fun row hrow => mem_cons_of_mem _ (hi row hrow)) ?_
        (by rintro c ⟨⟩)
      rintro _ ⟨⟩
      exact mem_cons_self ..
    | room c row stage found room =>
      refine .of_claim hi ?_ ?_
      · rintro _ ⟨⟩
        exact hl c (by rw [stage]; rfl)
      · rintro _ ⟨⟩
        have hmax : (st.view t).maxActiveRuns c.tenantId = row.quota.maxActiveRuns := by
          simp [maxActiveRuns, found]
        exact hmax ▸ room
    | workspaceFound c stage =>
      refine .of_claim hi ?_ ?_
      · rintro _ ⟨⟩
        exact hl c (by rw [stage]; rfl)
      · rintro _ ⟨⟩
        exact hr c (by rw [stage]; rfl)
    | workspaceInserted c stage request | workspaceFree c w stage free found unowned =>
      refine .of_claim (fun row hrow => mem_cons_of_mem _ (hi row hrow)) ?_ ?_
      · rintro _ ⟨⟩
        exact mem_cons_of_mem _ (hl c (by rw [stage]; rfl))
      · rintro _ ⟨⟩
        exact hr c (by rw [stage]; rfl)
  | create _ st =>
    obtain ⟨st', hst, rfl⟩ := outcome_map_running h
    have hi : ∀ row ∈ st.quotas, .quota row.tenantId ∈ st.held := hp.inserted
    refine .of_not_claim (by rintro _ _ ⟨⟩) ?_
    cases CreateState.running_inv hst with
    | missing | quotaFound | unclaimed | admissionFound => exact hi
    | session | quotaLocked | admissionInserted | admissionLocked =>
      exact fun row hrow => mem_cons_of_mem _ (hi row hrow)
    | quotaInserted =>
      intro row hrow
      rcases mem_append.mp hrow with hold | hnew
      · exact mem_cons_of_mem _ (hi row hold)
      · rw [mem_singleton.mp hnew]
        exact mem_cons_self ..
  | finish | recoverExpired =>
    obtain ⟨st', -, rfl⟩ := outcome_map_running h
    exact .of_not_claim (by rintro _ _ ⟨⟩) (by rintro row ⟨⟩)

theorem counted_nonInterfering :
    queueProtocol.NonInterfering (fun _ _ _ => True) QueueTables.WithinQuota
      fun t p _ => p.Counted t where
  start := by
    rintro t (call | call | call | call) -
    · exact .of_claim (by rintro row ⟨⟩) (by rintro c ⟨⟩) (by rintro c ⟨⟩)
    all_goals exact .of_not_claim (by rintro _ _ ⟨⟩) (by rintro row ⟨⟩)
  wait := fun _ hp _ _ _ _ _ => hp
  step := fun _ hp _ h => hp.step h
  commit := fun hcap hp _ h => hcap.commit hp h
  others := fun _ hp hq ha _ h => hp.others hq ha h

/-- **Tenant concurrency cap.** -/
theorem active_runs_within_quota (t : QueueTables) (ht : t.WithinQuota) (ops : List (Op QueueCall))
    (τ : Uuid) : (ops.foldl QueueDatabase.apply { tables := t }).tables.activeRuns τ ≤
      (ops.foldl QueueDatabase.apply { tables := t }).tables.maxActiveRuns τ := by
  exact (counted_nonInterfering.sound_all queueProtocol_lawful ht ops).tables τ

def oneLeaseTenant : QueueTables where
  fleet :=
    { runs :=
        [{ store :=
            { run := { tenantId := 1, id := 10, sessionId := 5, workspaceId := 20, status := .queued
                       createdAt := 0 }
              routeName := "main", approvalMode := .autoApprove } },
         { store :=
            { run := { tenantId := 1, id := 11, sessionId := 5, workspaceId := 21, status := .queued
                       createdAt := 1 }
              routeName := "main", approvalMode := .autoApprove } }]
      workers :=
        [{ workerId := "w", totalSlots := 2, availableSlots := 2, status := .active
           registeredAt := 0, lastHeartbeatAt := 0 },
         { workerId := "v", totalSlots := 2, availableSlots := 2, status := .active
           registeredAt := 0, lastHeartbeatAt := 0 }] }
  quotas := [{ tenantId := 1, quota := { maxActiveRuns := 1 } }]

def rivalClaims : List (Op QueueCall) :=
  [.begin (.claim { workerId := "w", token := 30, workspaceToken := 31, occurredAt := 2
                    expiresAt := 9 }),
   .begin (.claim { workerId := "v", token := 32, workspaceToken := 33, occurredAt := 2
                    expiresAt := 9 }),
   .advance 0, .advance 1, .advance 0, .advance 1, .advance 0, .advance 1, .advance 0, .advance 1,
   .advance 0, .advance 1, .advance 0, .advance 0, .advance 0, .advance 1, .advance 1, .advance 1]

theorem active_runs_within_quota_rivals : oneLeaseTenant.WithinQuota ∧
      (rivalClaims.foldl QueueDatabase.apply { tables := oneLeaseTenant }).tables.activeRuns 1 = 1 ∧
      (rivalClaims.foldl QueueDatabase.apply { tables := oneLeaseTenant }).tables.activeRuns 1 ≤
        (rivalClaims.foldl QueueDatabase.apply
          { tables := oneLeaseTenant }).tables.maxActiveRuns 1 := by
  have hwithin : oneLeaseTenant.WithinQuota := by
    intro τ
    simp [QueueTables.activeRuns, oneLeaseTenant]
  exact ⟨hwithin, by decide, active_runs_within_quota _ hwithin _ _⟩

end AgentPlatform
