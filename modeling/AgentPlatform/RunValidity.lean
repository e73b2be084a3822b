/-
**The run's row stays valid.**
-/

import AgentPlatform.QueueInvariant

namespace AgentPlatform

open Run RunStatus RunStore

variable {r : Run} {at' : Timestamp} {s : RunStore}

theorem Run.invalidity_extend (h : r.invalidity = none)
    (ha : r.status = .leased ∨ r.status = .running) (expiresAt : Timestamp) :
    ({ r with leaseExpiresAt := some expiresAt } : Run).invalidity = none := by
  simp only [invalidity, ite_some_eq_none] at h ⊢
  obtain ⟨hep, hs, hc, hst, hw, -, -, ht, ho, -⟩ := h
  refine ⟨hep, hs, hc, hst, hw, by simp, ?_, ht, ho, trivial⟩
  rcases ha with heq | heq <;> simp [heq, unassigned]

theorem transitionRun_valid {r' : Run} {new : RunStatus} {worker : Option String}
    {ex : Option Timestamp} (h : transitionRun r new at' worker ex = .ok r')
    : r'.invalidity = none := by
  unfold transitionRun at h
  split at h
  · cases h
  split at h
  · simp [domainError] at h
  cases hd : transitionData r new at' worker ex with
  | error => rw [hd] at h; cases h
  | ok =>
    rw [hd] at h
    obtain ⟨rfl, hval⟩ := validate_eq_ok h
    exact hval

theorem transitionRun_accepts {new : RunStatus} {worker : Option String} {ex : Option Timestamp}
    (hval : r.invalidity = none) (hnew : new ∈ allowedRunTransitions r.status)
    (ht : r.comparisonStart ≤ at')
    (hl : new = .leased → pythonStrip (worker.getD "") ≠ "" ∧ ∃ e, ex = some e ∧ at' < e) :
    ∃ r', transitionRun r new at' worker ex = .ok r' := by
  obtain ⟨r', hd, hr'⟩ :
      ∃ r', transitionData r new at' worker ex = .ok r' ∧ r'.invalidity = none := by
    simp only [invalidity, ite_some_eq_none] at hval ⊢
    obtain ⟨hep, hs, hc, hst, hw, hx, hu, htm, ho, -⟩ := hval
    have hopen : r.completedAt = none := by
      cases hq : r.status <;>
        simp_all [allowedRunTransitions, terminal]
    have hheld : new = .running → r.assignedWorkerId.isSome ∧ r.leaseExpiresAt.isSome := by
      rintro rfl
      cases hq : r.status <;>
        simp_all [allowedRunTransitions, assigned, isSome_iff_ne_none]
    have hbegun : new.started = true → new ≠ .running → r.startedAt.isSome := by
      intro hn hne
      cases hq : r.status <;> cases new <;>
        simp_all [allowedRunTransitions, started, isSome_iff_ne_none]
    clear hst hw hx hu htm ho
    cases new with
    | leased =>
      obtain ⟨hne, e, rfl, he⟩ := hl rfl
      simp only [transitionData, if_neg hne, if_neg (not_le.2 he), Except.ok.injEq,
        exists_eq_left']
      simp_all [started, unassigned, terminal]
    | running =>
      simp only [transitionData, Except.ok.injEq, exists_eq_left']
      obtain ⟨hw', hx'⟩ := hheld rfl
      have hle : r.createdAt ≤ r.startedAt.getD at' := by
        cases hst : r.startedAt with
        | none => simpa [comparisonStart, hst] using ht
        | some => simpa [hst] using hs
      simp_all [assigned, unassigned, terminal,
        isSome_iff_ne_none]
    | queued =>
      have hle : r.executionEpoch ≤
          if r.status = .retryPending ∨ r.status = .lost then r.attempt + 1 else r.attempt := by
        split <;> omega
      simp only [transitionData, Except.ok.injEq, exists_eq_left']
      simp_all [started, assigned, terminal]
    | completed | failed | cancelled =>
      simp only [transitionData, Except.ok.injEq, exists_eq_left']
      simp_all [assigned, unassigned, started, terminal,
        comparisonStart, isSome_iff_ne_none]
      exact decide_eq_false (not_lt.2 ht)
    | _ =>
      simp only [transitionData, Except.ok.injEq, exists_eq_left']
      simp_all [started, assigned, terminal,
        isSome_iff_ne_none]
  refine ⟨r', ?_⟩
  rw [transitionRun, if_neg (not_not.2 hnew), if_neg (not_lt.2 ht), hd]
  dsimp only
  rw [validate, hr']

theorem Run.createdAt_le_start (h : r.invalidity = none) : r.createdAt ≤ r.comparisonStart := by
  simp only [invalidity, ite_some_eq_none] at h
  obtain ⟨-, hst, -⟩ := h
  unfold comparisonStart
  cases hs : r.startedAt with
  | none => exact le_rfl
  | some => simpa [hs] using hst

theorem rewindRun_valid {r' : Run} {id : Uuid} (h : rewindRun r id = .ok r') :
    r'.invalidity = none := by
  unfold rewindRun at h
  split at h
  · obtain ⟨rfl, hval⟩ := validate_eq_ok h
    exact hval
  · cases h

theorem QueueStep.valid {r' : Run} {l l' : Option RunLeaseRecord} {op : StoreOp}
    (h : QueueStep r l op r' l') (hr : r.invalidity = none) : r'.invalidity = none := by
  cases h with
  | kept | discarded => exact hr
  -- the validation does not read the cancellation flag
  | cancelling => exact hr
  | renewed held assigned =>
    refine invalidity_extend hr ?_ _
    cases hst : r.status <;> simp [hst, RunStatus.assigned] at assigned ⊢
  | claimed free uncancelled moved =>
    have hval := transitionRun_valid moved
    exact hval
  | started leased moved => exact transitionRun_valid moved
  | finished moved columns =>
    obtain ⟨_, _, rfl⟩ := columns
    have hval := transitionRun_valid moved
    exact hval
  | retried pending moved =>
    have hval := transitionRun_valid moved
    exact hval
  | cancelledExpired cancelling moved => exact transitionRun_valid moved
  | requeuedExpired uncancelled moved moved' => exact transitionRun_valid moved'
  | cancelled idle moved => exact transitionRun_valid moved
  | woken waiting moved => exact transitionRun_valid moved
  | rewound moved =>
    have hval := rewindRun_valid moved
    exact hval

theorem RunStore.apply_valid (h : s.run.invalidity = none) (op : StoreOp) :
    (s.apply op).run.invalidity = none :=
  (s.queueStep op).valid h

/-- What `Run.model_validate` accepts. -/
structure Run.Accepted (r : Run) : Prop where
  attempt : 1 ≤ r.attempt
  executionEpoch : 1 ≤ r.executionEpoch
  workerId : ∀ w ∈ r.assignedWorkerId, identifierString? w = some w
  lifecycle : r.invalidity = none

inductive RunChange where
  | transition (new : RunStatus) (occurredAt : Timestamp) (workerId : Option String)
      (leaseExpiresAt : Option Timestamp)
  | rewind (checkpointId : Uuid)

def Run.change (r : Run) : RunChange → Except Failure Run
  | .transition new at' w e => transitionRun r new at' w e
  | .rewind c => rewindRun r c

def Run.changed (r : Run) (c : RunChange) : Run :=
  match r.change c with
  | .ok r' => r'
  | .error _ => r

def RunChange.rewinds : RunChange → Bool
  | .rewind _ => true
  | .transition .. => false

def RunChange.retries (c : RunChange) (r : Run) : Bool :=
  match c with
  | .rewind _ => true
  | .transition new .. => new = .queued ∧ (r.status = .retryPending ∨ r.status = .lost)

variable {c : RunChange} {r' : Run}

theorem Run.change_columns (h : r.change c = .ok r') :
    (r'.attempt = if c.retries r then r.attempt + 1 else r.attempt) ∧
    (r'.executionEpoch = if c.rewinds then r.executionEpoch + 1 else r.executionEpoch) ∧
    r'.invalidity = none ∧ ∀ t ∈ r.startedAt, t ∈ r'.startedAt := by
  cases c with
  | transition =>
    obtain ⟨ha, hst, -⟩ := transitionRun_columns h
    exact ⟨by simpa [RunChange.retries] using ha, (transitionRun_frame h).2.executionEpoch,
      transitionRun_valid h, hst⟩
  | rewind =>
    obtain ⟨-, rfl⟩ := rewindRun_eq h
    exact ⟨rfl, rfl, rewindRun_valid h, fun _ ht => ht⟩

theorem Run.foldl_changed (cs : List RunChange) (h : r.invalidity = none) :
    (cs.foldl changed r).invalidity = none ∧
      ∀ t ∈ r.startedAt, t ∈ (cs.foldl changed r).startedAt := by
  induction cs generalizing r with
  | nil => exact ⟨h, fun _ ht => ht⟩
  | cons c _ ih =>
    rw [List.foldl_cons, changed]
    split
    next hc =>
      obtain ⟨-, -, hv, hst⟩ := change_columns hc
      exact ⟨(ih hv).1, fun t ht => (ih hv).2 t (hst t ht)⟩
    · exact ih h

/-- **Transitions preserve validity**, and one that is asked for in order fails only when it leases
the run to a worker whose id `str.strip` empties. -/
theorem run_transitions_valid (r₀ : Run) (hr₀ : r₀.Accepted) :
    (∀ (new : RunStatus) (at' : Timestamp) (w : Option String) (e : Option Timestamp),
      new ∈ allowedRunTransitions r₀.status → r₀.createdAt ≤ at' → (∀ t ∈ r₀.startedAt, t ≤ at') →
      (new = .leased → (identifierString? (w.getD "")).isSome ∧ ∃ ex, e = some ex ∧ at' < ex) →
      ((∃ r', transitionRun r₀ new at' w e = .ok r' ∧ r'.Accepted) ↔
        (new = .leased → pythonStrip (w.getD "") ≠ ""))) ∧
    ∀ past rest : List RunChange,
      let r := past.foldl Run.changed r₀
      r.executionEpoch ≤ r.attempt ∧
      (∀ t ∈ r.startedAt, t ∈ (rest.foldl Run.changed r).startedAt) ∧
      ∀ c r', r.change c = .ok r' →
        (r'.attempt = if c.retries r then r.attempt + 1 else r.attempt) ∧
        (r'.executionEpoch = if c.rewinds then r.executionEpoch + 1 else r.executionEpoch) ∧
        r'.executionEpoch ≤ r'.attempt := by
  have hep : ∀ {r : Run}, r.invalidity = none → r.executionEpoch ≤ r.attempt := by
    intro r h
    simp only [Run.invalidity, ite_some_eq_none] at h
    exact not_lt.1 h.1
  refine ⟨fun new at' w e hnew hcr hst hl => ?_, fun past rest => ?_⟩
  · have ht : r₀.comparisonStart ≤ at' := by
      unfold Run.comparisonStart
      cases hs : r₀.startedAt with
      | none => exact hcr
      | some t => exact hst t hs
    refine ⟨fun ⟨r', h, _⟩ hn hblank => ?_, fun hne => ?_⟩
    · obtain ⟨-, hd⟩ := transitionRun_inv h
      obtain ⟨-, ex, rfl, -⟩ := hl hn
      simp [hn, transitionData, hblank, domainError] at hd
    obtain ⟨r', h⟩ := transitionRun_accepts hr₀.lifecycle hnew ht fun hn => ⟨hne hn, (hl hn).2⟩
    obtain ⟨ha, -, hw⟩ := transitionRun_columns h
    refine ⟨r', h, ?_, ?_, ?_, transitionRun_valid h⟩
    · rw [ha]
      have := hr₀.attempt
      split <;> omega
    · rw [(transitionRun_frame h).2.executionEpoch]
      exact hr₀.executionEpoch
    · intro v hv
      obtain hv | ⟨hn, rfl⟩ := hw v hv
      · exact hr₀.workerId v hv
      · exact identifierString?_pythonStrip (hl hn).1 (hne hn)
  · have hv := Run.foldl_changed past hr₀.lifecycle
    refine ⟨hep hv.1, (Run.foldl_changed rest hv.1).2, fun c r' hc => ?_⟩
    obtain ⟨ha, he, hval, -⟩ := Run.change_columns hc
    exact ⟨ha, he, hep hval⟩

theorem run_transitions_valid_leased : ∃ r', transitionRun
      { tenantId := 1, id := 2, sessionId := 3, workspaceId := 4, status := .queued, createdAt := 5 }
      .leased 6 (some " worker-1") (some 7) = .ok r' ∧ r'.Accepted :=
  ((run_transitions_valid _ ⟨by decide, by decide, by simp, by decide⟩).1 _ _ _ _ (by decide)
    (by decide) (by simp) fun _ => ⟨by decide, 7, rfl, by decide⟩).2 fun _ => by decide

theorem leasing_raises_for_separator : identifierString? "\x1f" = some "\x1f" ∧ transitionRun
    { tenantId := 1, id := 2, sessionId := 3, workspaceId := 4, status := .queued, createdAt := 5 }
    .leased 6 (some "\x1f") (some 7) =
      domainError "invalid_run_lease" "leasing a run requires worker_id and lease_expires_at"
        false (.ofList [("run_id", .str "2")]) :=
  ⟨by decide, rfl⟩

def RunStatus.Announced (status : RunStatus) : Prop := status = .completed ∨ status = .failed

/-- The lease is the stored one and has not expired (`_locked_lease_state`). -/
def RunStore.owns (s : RunStore) (lease : RunLease) (occurredAt : Timestamp) : Bool :=
  (ownedLeaseRow s lease occurredAt).isOk

theorem RunStore.owns_generation {lease : RunLease} (h : s.owns lease at')
    : s.run.leaseGeneration = lease.generation := by
  unfold owns at h
  cases hown : ownedLeaseRow s lease at' with
  | error => rw [hown] at h; cases h
  | ok => exact (ownedLeaseRow_ok hown).2.2.1

theorem finish_owned {s' : RunStore} {lease : RunLease} {result : RunExecutionResult}
    {status : RunStatus} (h : finish s lease result at' = .ok (status, s')) :
    s.owns lease at' ∧ status ≠ .leased := by
  obtain ⟨_, _, hown, -, hrun, -⟩ := finish_ok h
  refine ⟨by rw [owns, hown]; rfl, ?_⟩
  rintro rfl
  cases (transitionRun_inv hrun).2

theorem finish_announced {lease : RunLease} {result : RunExecutionResult}
    (hval : s.run.invalidity = none) (hr : s.run.status = .running)
    (hf : s.run.cancellationRequested = false) (ha : result.status.Announced)
    (hw : s.owns lease at') (ht : s.run.comparisonStart ≤ at') :
    ∃ s', finish s lease result at' = .ok (result.status, s') := by
  have hall : result.status ∈ allowedRunTransitions s.run.status := by
    rw [hr]
    rcases ha with heq | heq <;> simp [heq, allowedRunTransitions]
  obtain ⟨_, hrun⟩ : ∃ r', transitionRun s.run result.status at' = .ok r' :=
    transitionRun_accepts hval hall ht (by rcases ha with heq | heq <;> simp [heq])
  unfold owns at hw
  unfold finish
  cases hown : ownedLeaseRow s lease at' with
  | error =>
    rw [hown] at hw
    cases hw
  | ok =>
    dsimp only
    rw [hf, if_neg Bool.false_ne_true, hrun]
    exact ⟨_, rfl⟩

end AgentPlatform
