/-
**Which run a claim takes.**
-/

import AgentPlatform.QueueTransactions
import AgentPlatform.RunValidity

namespace AgentPlatform

open FleetRun QueueTables List

inductive ClaimAnswer where
  | lease (lease : RunLease)
  | nothing
  | raised
  deriving DecidableEq

def RunLease.validWindow (lease : RunLease) (queuedAt : Timestamp) : Bool :=
  lease.acquiredAt < lease.expiresAt && queuedAt ≤ lease.acquiredAt

/-- A call of `claim` on the tables of the queue. -/
structure Claiming where
  tables : QueueTables
  call : ClaimCall
  worker : WorkerRecord
  runIds : (tables.fleet.runs.map (·.store.run.id)).Nodup
  valid : ∀ r ∈ tables.fleet.runs, r.store.run.invalidity = none
  unleased : ∀ r ∈ tables.fleet.runs, r.store.run.status = .queued → r.store.lease = none
  registered : tables.fleet.worker? call.workerId = some worker
  identified : pythonStrip call.workerId ≠ ""
  window : call.occurredAt < call.expiresAt

namespace Claiming

variable (p : Claiming)

abbrev runs : List FleetRun := p.tables.fleet.runs

def ready : Bool := p.worker.status = .active && 0 < p.worker.availableSlots

def full (τ : Uuid) : Bool :=
  ((p.tables.quota? τ).elim p.call.defaultQuota (·.quota)).maxActiveRuns ≤ p.tables.activeRuns τ

def take (c : Candidate) : ClaimAnswer :=
  match p.tables.fleet.claim p.call.workerId c.tenantId c.runId p.call.token p.call.workspaceToken
      p.call.occurredAt p.call.expiresAt, p.tables.fleet.run? c.tenantId c.runId with
  | .ok (some lease, _), some r =>
    if lease.validWindow r.store.run.createdAt then .lease lease else .raised
  | _, _ => .raised

def walk : ℕ → List (Uuid × Uuid) → ClaimAnswer
  | 0, _ => .nothing
  | n + 1, skipped =>
    match p.tables.candidate? (fun _ => false) p.call skipped with
    | none => .nothing
    | some c => if p.full c.tenantId then walk n (c.key :: skipped) else p.take c

/-- `PostgresRunQueue.claim`, run alone. -/
def answer : ClaimAnswer := if p.ready then p.walk maxClaimCandidates [] else .nothing

def class? (r : FleetRun) : Option RunPriorityClass :=
  (p.tables.columns.find? fun c => (c.tenantId, c.runId) = r.key).map (·.priorityClass)

def priority (r : FleetRun) : ℤ :=
  (p.tables.columns.find? fun c => (c.tenantId, c.runId) = r.key).elim 0 (·.priority)

def score (r : FleetRun) : ℕ :=
  (p.class? r).elim 0 (·.rank) +
    ageBoost p.call.priorityAging p.call.occurredAt r.store.run.createdAt

def Before (a b : FleetRun) : Prop :=
  p.tables.ranksBefore p.call.priorityAging p.call.occurredAt a b = true

instance (a b : FleetRun) : Decidable (p.Before a b) := inferInstanceAs (Decidable (_ = true))

def eligible (r : FleetRun) : Bool := p.tables.claimable r && !p.full r.store.run.tenantId

def best? (runs : List FleetRun) : Option FleetRun := (runs.insertionSort p.Before).head?

def first? : Option FleetRun := p.best? (p.runs.filter p.eligible)

def passed (r : FleetRun) : List FleetRun :=
  p.runs.filter fun b =>
    p.tables.claimable b && p.full b.store.run.tenantId && decide (p.Before b r)

def ahead (skipped : List (Uuid × Uuid)) : List FleetRun :=
  p.runs.filter fun r => p.tables.claimable r && !skipped.contains r.key

variable {p} {a b r : FleetRun} {skipped : List (Uuid × Uuid)}

theorem before_iff : p.Before a b ↔ p.score b < p.score a ∨ p.score a = p.score b ∧
      (p.priority b < p.priority a ∨ p.priority a = p.priority b ∧
        (a.store.run.createdAt < b.store.run.createdAt ∨
          a.store.run.createdAt = b.store.run.createdAt ∧ a.store.run.id ≤ b.store.run.id)) := by
  have hc : ∀ r : FleetRun, (p.tables.columns.find? fun c => (c.tenantId, c.runId) = r.key).elim
      0 (·.priorityClass.rank) = (p.class? r).elim 0 (·.rank) := by
    intro r
    unfold class?
    cases p.tables.columns.find? fun c => (c.tenantId, c.runId) = r.key <;> rfl
  unfold Before ranksBefore
  simp only [hc]
  change (if p.score a ≠ p.score b then decide (p.score b < p.score a)
    else if p.priority a ≠ p.priority b then decide (p.priority b < p.priority a)
    else if _ then decide _ else decide _) = true ↔ _
  repeat' split
  all_goals
    simp only [decide_eq_true_eq]
    dsimp only [Timestamp, Uuid] at *
    omega

instance : Std.Total p.Before where
  total a b := by
    simp only [before_iff]
    dsimp only [Timestamp, Uuid]
    omega

instance : IsTrans FleetRun p.Before where
  trans a b c := by
    simp only [before_iff]
    dsimp only [Timestamp, Uuid]
    omega

theorem Before.older (h : p.Before a b) (hc : p.class? a = p.class? b)
    (hp : p.priority a = p.priority b) : a.store.run.createdAt ≤ b.store.run.createdAt := by
  by_contra hlt
  rw [not_le] at hlt
  have ha := Nat.div_le_div_right (c := p.call.priorityAging)
    (Nat.sub_le_sub_left hlt.le p.call.occurredAt)
  rw [before_iff, score, score, ageBoost, ageBoost, hc, hp] at h
  dsimp only [Timestamp, Uuid] at *
  omega

theorem eq_of_id (ha : a ∈ p.runs) (hb : b ∈ p.runs) (hid : a.store.run.id = b.store.run.id) :
    a = b :=
  inj_on_of_nodup_map p.runIds ha hb hid

theorem Before.antisymm (ha : a ∈ p.runs) (hb : b ∈ p.runs) (h : p.Before a b)
    (h' : p.Before b a) : a = b := by
  rw [before_iff] at h h'
  refine eq_of_id ha hb ?_
  dsimp only [Timestamp, Uuid] at *
  omega

theorem best?_none {runs : List FleetRun} (h : p.best? runs = none) : runs = [] := by
  rw [best?, head?_eq_none_iff] at h
  have hlen := length_insertionSort p.Before runs
  rw [h] at hlen
  exact eq_nil_of_length_eq_zero hlen.symm

theorem best?_some {runs : List FleetRun} (h : p.best? runs = some r) :
    r ∈ runs ∧ ∀ b ∈ runs, p.Before r b := by
  have hs := pairwise_insertionSort p.Before runs
  have hmem := fun x => mem_insertionSort (r := p.Before) (l := runs) (x := x)
  unfold best? at h
  cases hrun : runs.insertionSort p.Before with
  | nil => rw [hrun] at h; cases h
  | cons =>
    rw [hrun] at h hs hmem
    cases h
    refine ⟨(hmem r).1 (mem_cons_self ..), fun b hb => ?_⟩
    rcases mem_cons.1 ((hmem b).2 hb) with rfl | hr
    · exact (Std.Total.total (r := p.Before) b b).elim id id
    · exact (pairwise_cons.1 hs).1 b hr

theorem mem_ahead : r ∈ p.ahead skipped ↔
    r ∈ p.runs ∧ p.tables.claimable r ∧ r.key ∉ skipped := by
  simp [ahead]

theorem mem_passed : b ∈ p.passed r ↔ b ∈ p.runs ∧ p.tables.claimable b ∧
    p.full b.store.run.tenantId = true ∧ p.Before b r := by
  simp [passed, and_assoc]

theorem eligible_iff : p.eligible r = true ↔
    p.tables.claimable r = true ∧ p.full r.store.run.tenantId = false := by
  simp [eligible]

theorem first?_some (h : p.first? = some r) :
    r ∈ p.runs ∧ p.eligible r ∧ ∀ b ∈ p.runs, p.eligible b = true → p.Before r b := by
  obtain ⟨hmem, hbe⟩ := best?_some h
  rw [mem_filter] at hmem
  exact ⟨hmem.1, hmem.2, fun b hb he => hbe b (mem_filter.2 ⟨hb, he⟩)⟩

theorem first?_none (h : p.first? = none) : ∀ r ∈ p.runs, p.eligible r = false := by
  have hnil := best?_none h
  rw [filter_eq_nil_iff] at hnil
  simpa using hnil

def candidate (r : FleetRun) : Candidate :=
  { tenantId := r.store.run.tenantId, runId := r.store.run.id
    workspaceId := r.store.run.workspaceId }

theorem candidate?_eq (skipped : List (Uuid × Uuid)) :
    p.tables.candidate? (fun _ => false) p.call skipped =
      (p.best? (p.ahead skipped)).map candidate := by
  simp only [candidate?, Bool.not_false, Bool.and_true]
  rfl

/-- **What a walk has passed over**. -/
structure Passes (p : Claiming) (skipped : List (Uuid × Uuid)) : Prop where
  nodup : skipped.Nodup
  full : ∀ k ∈ skipped, ∃ b ∈ p.runs, b.key = k ∧ p.tables.claimable b = true ∧
    p.full b.store.run.tenantId = true ∧ ∀ r ∈ p.ahead skipped, p.Before b r

theorem Passes.cons (h : p.Passes skipped) (hr : p.best? (p.ahead skipped) = some r)
    (hfu : p.full r.store.run.tenantId) : p.Passes (r.key :: skipped) := by
  obtain ⟨hmem, hbe⟩ := best?_some hr
  obtain ⟨hrun, hcl, hkey⟩ := mem_ahead.1 hmem
  have ha : ∀ b ∈ p.ahead (r.key :: skipped), b ∈ p.ahead skipped := by
    intro b hb
    obtain ⟨hb, hc, hnot⟩ := mem_ahead.1 hb
    exact mem_ahead.2 ⟨hb, hc, fun hk => hnot (mem_cons_of_mem _ hk)⟩
  refine ⟨nodup_cons.2 ⟨hkey, h.nodup⟩, fun k hk => ?_⟩
  rcases mem_cons.1 hk with rfl | hk
  · exact ⟨r, hrun, rfl, hcl, hfu, fun b hb => hbe b (ha b hb)⟩
  · obtain ⟨b, hb, hbk, hc, hf, hbf⟩ := h.full k hk
    exact ⟨b, hb, hbk, hc, hf, fun r' hr' => hbf r' (ha r' hr')⟩

theorem Passes.walk {n : ℕ} (h : p.Passes skipped) : ∃ skipped', p.Passes skipped' ∧
      (p.walk n skipped = .nothing ∧
          (n + skipped.length ≤ skipped'.length ∨ p.ahead skipped' = []) ∨
        ∃ r, skipped'.length < n + skipped.length ∧ p.best? (p.ahead skipped') = some r ∧
          p.full r.store.run.tenantId = false ∧ p.walk n skipped = p.take (candidate r)) := by
  induction n generalizing skipped with
  | zero => exact ⟨skipped, h, .inl ⟨rfl, .inl (by omega)⟩⟩
  | succ n ih =>
    rw [Claiming.walk, candidate?_eq]
    cases hb : p.best? (p.ahead skipped) with
    | none => exact ⟨skipped, h, .inl ⟨rfl, .inr (best?_none hb)⟩⟩
    | some r =>
      simp only [map_some]
      split
      next hf =>
        have hlen : n + (r.key :: skipped).length = n + 1 + skipped.length := by
          rw [length_cons]
          omega
        rw [← hlen]
        exact ih (h.cons hb hf)
      next hr => exact ⟨skipped, h, .inr ⟨r, by omega, hb, Bool.eq_false_of_not_eq_true hr, rfl⟩⟩

theorem Passes.length_le (h : p.Passes skipped) (hr : r ∈ p.ahead skipped) :
    skipped.length ≤ (p.passed r).length := by
  have hsub : skipped ⊆ (p.passed r).map key := by
    intro k hk
    obtain ⟨b, hb, hkey, hc, hf, hbe⟩ := h.full k hk
    exact mem_map.2 ⟨b, mem_passed.2 ⟨hb, hc, hf, hbe r hr⟩, hkey⟩
  simpa using (subperm_of_subset h.nodup hsub).length_le

theorem Passes.mem_ahead (h : p.Passes skipped) (hr : r ∈ p.runs) (he : p.eligible r) :
    r ∈ p.ahead skipped := by
  obtain ⟨hc, hro⟩ := eligible_iff.1 he
  refine Claiming.mem_ahead.2 ⟨hr, hc, fun hk => ?_⟩
  obtain ⟨_, hb, hkey, -, hf, -⟩ := h.full _ hk
  rw [eq_of_id hb hr (congrArg Prod.snd hkey), hro] at hf
  cases hf

theorem runKeys (p : Claiming) : KeyedTable.Unique key p.runs := by
  have hids := p.runIds
  rw [show (fun r : FleetRun => r.store.run.id) = Prod.snd ∘ key from rfl,
    ← map_map] at hids
  exact hids.of_map _

theorem passed_le (hr : p.best? (p.ahead skipped) = some r)
    (hro : p.full r.store.run.tenantId = false) : (p.passed r).length ≤ skipped.length := by
  obtain ⟨hmem, hbe⟩ := best?_some hr
  have hsub : (p.passed r).map key ⊆ skipped := by
    intro k hk
    obtain ⟨b, hb, rfl⟩ := mem_map.1 hk
    obtain ⟨hb, hc, hf, hbf⟩ := mem_passed.1 hb
    by_contra hnot
    have hba := hbe b (mem_ahead.2 ⟨hb, hc, hnot⟩)
    rw [hbf.antisymm hb (mem_ahead.1 hmem).1 hba, hro] at hf
    cases hf
  have hn : ((p.passed r).map key).Nodup :=
    (filter_sublist.map key).nodup p.runKeys
  simpa using (subperm_of_subset hn hsub).length_le

theorem take_cases (hre : p.ready) (hr : r ∈ p.runs) (hc : p.tables.claimable r) :
    p.call.occurredAt < r.store.run.comparisonStart ∧ p.take (candidate r) = .raised ∨
      r.store.run.comparisonStart ≤ p.call.occurredAt ∧
        ∃ lease, p.take (candidate r) = .lease lease ∧ (lease.tenantId, lease.runId) = r.key := by
  simp only [ready, claimable, and_eq_true, decide_eq_true_eq,
    Bool.not_eq_true'] at hre hc
  obtain ⟨⟨hqueued, hf⟩, hfr⟩ := hc
  have hrun : p.tables.fleet.run? (candidate r).tenantId (candidate r).runId = some r :=
    p.runKeys.lookup_eq_some_iff.2 ⟨hr, rfl⟩
  have hown : (p.tables.fleet.workspaceRow (candidate r).tenantId
      r.store.run.workspaceId).owner = none := by
    unfold Fleet.workspaceRow
    cases hw : p.tables.fleet.workspace? (candidate r).tenantId r.store.run.workspaceId with
    | none => rfl
    | some =>
      rw [show (candidate r).tenantId = r.store.run.tenantId from rfl] at hw
      simpa [hw] using hfr
  have hca : ¬ (r.store.run.status ≠ .queued ∨ r.store.run.cancellationRequested = true ∨
      r.store.lease ≠ none) := by simp [hqueued, hf, p.unleased r hr hqueued]
  simp only [take, Fleet.claim, p.registered, hre.1, Nat.pos_iff_ne_zero.1 hre.2, hrun,
    hown, claim, if_neg hca, ne_eq, not_true_eq_false, or_self, if_false]
  rcases lt_or_ge p.call.occurredAt r.store.run.comparisonStart with hl | ht
  · refine .inl ⟨hl, ?_⟩
    unfold transitionRun
    rw [hqueued, if_neg (by decide), if_pos hl]
    rfl
  · obtain ⟨run, hm⟩ : ∃ run, transitionRun r.store.run .leased p.call.occurredAt
        (some p.call.workerId) (some p.call.expiresAt) = .ok run :=
      transitionRun_accepts (p.valid r hr) (by simp [hqueued, allowedRunTransitions]) ht
        fun _ => ⟨p.identified, _, rfl, p.window⟩
    have hcr := (Run.createdAt_le_start (p.valid r hr)).trans ht
    obtain ⟨-, hid⟩ := transitionRun_frame hm
    refine .inr ⟨ht, ?_⟩
    simp only [hm, RunLease.validWindow, runLeaseDomain, p.window, hcr, decide_true,
      Bool.and_true, if_true]
    exact ⟨_, rfl, Prod.ext hid.tenantId hid.id⟩

theorem answer_cases (p : Claiming) (hre : p.ready) :
    p.first? = none ∧ p.answer = .nothing ∨ ∃ r, p.first? = some r ∧
        (maxClaimCandidates ≤ (p.passed r).length ∧ p.answer = .nothing ∨
          (p.passed r).length < maxClaimCandidates ∧
            (p.call.occurredAt < r.store.run.comparisonStart ∧ p.answer = .raised ∨
              r.store.run.comparisonStart ≤ p.call.occurredAt ∧
                ∃ lease, p.answer = .lease lease ∧ (lease.tenantId, lease.runId) = r.key)) := by
  have ha : p.answer = p.walk maxClaimCandidates [] := if_pos hre
  obtain ⟨_, hp, hend⟩ := Passes.walk (p := p) (n := maxClaimCandidates)
    ⟨nodup_nil, by simp⟩
  rw [← ha, length_nil, Nat.add_zero] at hend
  obtain ⟨hnot, hs⟩ | ⟨r, hbo, hbe, hro, ht⟩ := hend
  · cases hf : p.first? with
    | none => exact .inl ⟨rfl, hnot⟩
    | some r =>
      obtain ⟨hr, he, -⟩ := first?_some hf
      have hah := hp.mem_ahead hr he
      refine .inr ⟨r, rfl, .inl ⟨?_, hnot⟩⟩
      rcases hs with hbo | hnil
      · exact hbo.trans (hp.length_le hah)
      · rw [hnil] at hah
        cases hah
  · obtain ⟨hmem, hl⟩ := best?_some hbe
    obtain ⟨hr, hc, -⟩ := mem_ahead.1 hmem
    have he := eligible_iff.2 ⟨hc, hro⟩
    have hf : p.first? = some r := by
      cases hf : p.first? with
      | none => cases he.symm.trans (first?_none hf r hr)
      | some b =>
        obtain ⟨hb, heb, hbf⟩ := first?_some hf
        rw [(hbf r hr he).antisymm hb hr (hl b (hp.mem_ahead hb heb))]
    refine .inr ⟨r, hf, .inr ⟨(passed_le hbe hro).trans_lt hbo, ?_⟩⟩
    rw [ht]
    exact take_cases hre hr hc

def Blocked (p : Claiming) : Prop :=
  p.ready = true ∧ ∃ r, p.first? = some r ∧ (p.passed r).length < maxClaimCandidates ∧
    p.call.occurredAt < r.store.run.comparisonStart

def Served (p : Claiming) : Prop :=
  p.answer = .nothing ∨ ∃ lease, p.answer = .lease lease ∧ ∃ r ∈ p.runs,
    p.eligible r = true ∧ (lease.tenantId, lease.runId) = r.key

theorem served_or_blocked (p : Claiming) :
    p.Served ∧ p.answer ≠ .raised ∧ ¬ p.Blocked ∨ p.answer = .raised ∧ p.Blocked := by
  cases hre : p.ready with
  | false =>
    have hnot : p.answer = .nothing := by simp [answer, hre]
    exact .inl ⟨.inl hnot, by simp [hnot], fun hb => by cases hre.symm.trans hb.1⟩
  | true =>
    obtain ⟨hn, hnot⟩ | ⟨r, hf, hc⟩ := p.answer_cases hre
    · exact .inl ⟨.inl hnot, by simp [hnot], by simp [Blocked, hn]⟩
    obtain ⟨hr, he, -⟩ := first?_some hf
    obtain ⟨hbo, hnot⟩ | ⟨hbo, ⟨hl, hra⟩ | ⟨ht, lease, hle, hkey⟩⟩ := hc
    · exact .inl ⟨.inl hnot, by simp [hnot], by simp [Blocked, hf, hbo]⟩
    · exact .inr ⟨hra, hre, r, hf, hbo, hl⟩
    · exact .inl ⟨.inr ⟨lease, hle, r, hr, he, hkey⟩, by simp [hle],
        by simp [Blocked, hf, ht]⟩

end Claiming

/-- How `WorkerService.serve` ends. -/
inductive ServeEnd where
  | stopped
  | raised
  deriving DecidableEq

/-- `WorkerService.serve`: claims until it is stopped. -/
def serve : List Claiming → ServeEnd
  | [] => .stopped
  | p :: rest => if p.answer = .raised then .raised else serve rest

/-- **A worker goes on exactly while the run its claim reaches has started in time.** -/
theorem polls_served_iff (polls : List Claiming) :
    ((∀ p ∈ polls, p.Served) ∧ serve polls = .stopped) ↔ ∀ p ∈ polls, ¬ p.Blocked := by
  induction polls with
  | nil => simp [serve]
  | cons p _ ih =>
    rw [List.forall_mem_cons, List.forall_mem_cons, ← ih, serve]
    obtain ⟨hserved, hanswer, hfree⟩ | ⟨hanswer, hblocked⟩ := p.served_or_blocked
    · simp [hserved, hanswer, hfree]
    · simp [hanswer, hblocked]

/-- **A ready worker is sent away with work in the queue exactly when the bound is reached**. -/
theorem work_conserving_iff (p : Claiming) (hready : p.ready = true) :
    (p.answer = .nothing → ∀ r ∈ p.runs, p.eligible r = false) ↔
      ∀ r, p.first? = some r → (p.passed r).length < maxClaimCandidates := by
  obtain ⟨hnone, -⟩ | ⟨r, hfirst, hcases⟩ := p.answer_cases hready
  · simpa [hnone] using fun _ => Claiming.first?_none hnone
  · obtain ⟨hr, he, -⟩ := Claiming.first?_some hfirst
    obtain ⟨hbound, hnothing⟩ | ⟨hbound, ⟨-, hraised⟩ | ⟨-, _, hlease, -⟩⟩ := hcases
    · refine iff_of_false (fun h => ?_) (by simp [hfirst, hbound])
      cases he.symm.trans (h hnothing r hr)
    · simp [hraised, hfirst, hbound]
    · simp [hlease, hfirst, hbound]

def queuedRun (τ id : Uuid) (createdAt : Timestamp) : FleetRun where
  store :=
    { run := { tenantId := τ, id := id, sessionId := id, workspaceId := id, status := .queued
               createdAt := createdAt }
      routeName := "main", approvalMode := .autoApprove }

def freeWorker : WorkerRecord :=
  { workerId := "w", totalSlots := 1, availableSlots := 1, status := .active, registeredAt := 0
    lastHeartbeatAt := 0 }

def claimAtTen : ClaimCall :=
  { workerId := "w", token := 1, workspaceToken := 2, occurredAt := 10, expiresAt := 20 }

def earlyClaim : Claiming where
  tables :=
    { fleet := { runs := [queuedRun 1 7 11, queuedRun 2 8 10], workers := [freeWorker] }
      columns := [{ tenantId := 1, runId := 7, sessionId := 7, idempotencyKey := "k"
                    creationHash := "h", priorityClass := .interactive, priority := 0 }] }
  call := claimAtTen
  worker := freeWorker
  runIds := by decide
  valid := by decide
  unleased := by decide
  registered := by decide
  identified := by decide
  window := by decide

theorem early_run_stops_worker :
    earlyClaim.eligible (queuedRun 2 8 10) = true ∧ earlyClaim.answer = .raised ∧
      serve [earlyClaim] = .raised := by
  decide +kernel

def leasedRun : FleetRun where
  store :=
    { run := { tenantId := 1, id := 5, sessionId := 5, workspaceId := 5, status := .running
               createdAt := 0, startedAt := some 1, assignedWorkerId := some "v"
               leaseExpiresAt := some 99 }
      lease := some { tenantId := 1, runId := 5, workerId := "v", leaseToken := 3, generation := 1
                      acquiredAt := 1, lastHeartbeatAt := 1, expiresAt := 99 }
      routeName := "main", approvalMode := .autoApprove }

def crowd : List FleetRun := (List.range maxClaimCandidates).map fun i => queuedRun 1 (i + 10) 0

theorem mem_crowded {r : FleetRun} : r ∈ crowd ++ [leasedRun, queuedRun 2 5000 0] ↔
    (∃ i < maxClaimCandidates, queuedRun 1 (i + 10) 0 = r) ∨ r = leasedRun ∨
      r = queuedRun 2 5000 0 := by
  simp [crowd]

theorem crowded_ids : ((crowd ++ [leasedRun, queuedRun 2 5000 0]).map (·.store.run.id)).Nodup := by
  rw [map_append, crowd, map_map]
  refine List.Nodup.append (nodup_range.map fun a b h => Nat.add_right_cancel h) (by decide) ?_
  intro k hc hl
  obtain ⟨_, hi, rfl⟩ := mem_map.1 hc
  rw [mem_range, maxClaimCandidates] at hi
  simp only [map_cons, map_nil, mem_cons, not_mem_nil, or_false, leasedRun,
    queuedRun, comp_apply] at hl
  dsimp only [Uuid] at *
  omega

def crowdedClaim : Claiming where
  tables :=
    { fleet := { runs := crowd ++ [leasedRun, queuedRun 2 5000 0], workers := [freeWorker] }
      quotas := [{ tenantId := 1, quota := { maxActiveRuns := 1 } }] }
  call := claimAtTen
  worker := freeWorker
  runIds := crowded_ids
  valid r hr := by obtain ⟨i, -, rfl⟩ | rfl | rfl := mem_crowded.1 hr <;> rfl
  unleased r hr hqueued := by
    obtain ⟨i, -, rfl⟩ | rfl | rfl := mem_crowded.1 hr
    · rfl
    · cases hqueued
    · rfl
  registered := by rfl
  identified := by decide
  window := by decide

theorem crowdedClaim_full : crowdedClaim.full 1 = true :=
  decide_eq_true (countP_pos_iff.2 ⟨leasedRun, mem_crowded.2 (.inr (.inl rfl)), rfl⟩ :
    0 < crowdedClaim.tables.activeRuns 1)

theorem crowdedClaim_last : crowdedClaim.eligible (queuedRun 2 5000 0) = true := by
  have hro : crowdedClaim.tables.activeRuns 2 = 0 := by
    refine countP_eq_zero.2 fun r hr => ?_
    obtain ⟨_, -, rfl⟩ | rfl | rfl := mem_crowded.1 hr <;> simp [queuedRun, leasedRun]
  refine Claiming.eligible_iff.2 ⟨rfl, ?_⟩
  rw [Claiming.full, show (queuedRun 2 5000 0).store.run.tenantId = 2 from rfl, hro]
  rfl

theorem crowd_length_le : maxClaimCandidates ≤ (crowdedClaim.passed (queuedRun 2 5000 0)).length := by
  have hc : crowd.countP (fun b => crowdedClaim.tables.claimable b &&
      crowdedClaim.full b.store.run.tenantId &&
      decide (crowdedClaim.Before b (queuedRun 2 5000 0))) = maxClaimCandidates := by
    rw [countP_eq_length.2, crowd, length_map, length_range]
    intro b hb
    obtain ⟨i, hi, rfl⟩ := mem_map.1 hb
    rw [mem_range, maxClaimCandidates] at hi
    have hid : i + 10 ≤ 5000 := (Nat.add_le_add_right hi.le 10).trans (by decide)
    have hbe : crowdedClaim.Before (queuedRun 1 (i + 10) 0) (queuedRun 2 5000 0) :=
      Claiming.before_iff.2 (.inr ⟨rfl, .inr ⟨rfl, .inr ⟨rfl, hid⟩⟩⟩)
    exact Bool.and_eq_true_iff.2
      ⟨Bool.and_eq_true_iff.2 ⟨rfl, crowdedClaim_full⟩, decide_eq_true hbe⟩
  rw [Claiming.passed, ← countP_eq_length_filter]
  exact hc.ge.trans (sublist_append_left _ _).countP_le

theorem crowded_worker_idles : crowdedClaim.ready = true ∧ crowdedClaim.answer = .nothing ∧
      ∃ r ∈ crowdedClaim.runs, crowdedClaim.eligible r = true := by
  refine ⟨rfl, ?_, _, mem_crowded.2 (.inr (.inr rfl)), crowdedClaim_last⟩
  obtain ⟨-, hnothing⟩ | ⟨r, hfirst, ⟨-, hnothing⟩ | ⟨hbound, -⟩⟩ := crowdedClaim.answer_cases rfl
  · exact hnothing
  · exact hnothing
  · obtain ⟨hr, he, -⟩ := Claiming.first?_some hfirst
    obtain ⟨hclaimable, hroom⟩ := Claiming.eligible_iff.1 he
    obtain ⟨_, -, rfl⟩ | rfl | rfl := mem_crowded.1 hr
    · cases crowdedClaim_full.symm.trans hroom
    · cases hclaimable
    · exact absurd hbound (not_lt.2 crowd_length_le)

theorem work_conserving_crowded : crowdedClaim.ready = true ∧
      ((crowdedClaim.answer = .nothing → ∀ r ∈ crowdedClaim.runs, crowdedClaim.eligible r = false) ↔
        ∀ r, crowdedClaim.first? = some r →
          (crowdedClaim.passed r).length < maxClaimCandidates) :=
  ⟨rfl, work_conserving_iff _ rfl⟩

end AgentPlatform
