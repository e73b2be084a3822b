/-
**Terminal events and the status of the run.**
-/

import AgentPlatform.DurableTables
import AgentPlatform.RunValidity

namespace AgentPlatform

open Attempt AttemptPhase EventBody Executor LogEntry RunStore World List Option Bool

open History (Admissible)

/-! ### Event logs -/

def EventBody.outcome : EventBody → Option RunStatus
  | .runCompleted .. => some .completed
  | .runFailed _ => some .failed
  | _ => none

def LogEntry.event? (epoch : ℕ) : LogEntry → Option AgentEvent
  | .performed _ executionEpoch (.emit event) => if executionEpoch = epoch then some event else none
  | _ => none

def World.events (w : World) (epoch : ℕ) : List AgentEvent :=
  w.log.filterMap (LogEntry.event? epoch)

def World.HasOutcome (w : World) (epoch : ℕ) (status : RunStatus) : Prop :=
  ∃ event ∈ w.events epoch, event.body.outcome = some status

variable {event : AgentEvent} {w : World} {g : ℕ} {s s' : RunStore} {at' : Timestamp}

variable {entry : LogEntry} {x : Executor} {lease : RunLease} {op : SystemOp}

theorem LogEntry.event?_eq_some {epoch : ℕ} :
    entry.event? epoch = some event ↔ ∃ g, entry = .performed g epoch (.emit event) := by
  cases entry with
  | performed g _ step =>
    cases step with
    | emit =>
      simp only [event?, ite_none_right_eq_some, Option.some.injEq,
        LogEntry.performed.injEq, LoopStep.emit.injEq]
      exact ⟨fun h => ⟨g, rfl, h⟩, fun ⟨_, _, h⟩ => h⟩
    | _ => simp [event?]
  | _ => simp [event?]

theorem World.mem_events {epoch : ℕ} :
    event ∈ w.events epoch ↔ ∃ g, performed g epoch (.emit event) ∈ w.log := by
  simp only [events, mem_filterMap, event?_eq_some]
  exact ⟨fun ⟨entry, he, g, heq⟩ => ⟨g, heq ▸ he⟩, fun ⟨g, h⟩ => ⟨_, h, g, rfl⟩⟩

theorem World.events_record (w : World) (entry : LogEntry) (epoch : ℕ) :
    (w.record entry).events epoch = w.events epoch ++ (entry.event? epoch).toList := by
  unfold events record
  rw [filterMap_append]
  cases he : entry.event? epoch <;> simp [filterMap, he]

theorem eq_nil_of_concat_eq {α : Type} {p : α → Bool} {xs before after : List α} {x y : α}
    (hxs : ∀ z ∈ xs, p z = false) (h : xs ++ [x] = before ++ y :: after) (hy : p y) :
    after = [] := by
  rcases eq_nil_or_concat after with hnil | ⟨init, last, rfl⟩
  · exact hnil
  · rw [concat_eq_append, ← cons_append, ← append_assoc] at h
    obtain ⟨rfl, -⟩ := append_inj' h rfl
    have hf := hxs y (by simp)
    rw [hf] at hy
    cases hy

theorem Executor.finished_status (x : Executor) (event : AgentEvent) :
    (x.finished event).map (·.status) = event.body.outcome := by
  unfold finished EventBody.outcome
  split <;> simp_all

theorem Executor.after_cases (x : Executor) (rest : List LoopStep) (event : AgentEvent) :
    event.body.outcome = none ∧ x.after rest event = .running rest (x.noted event) ∨
      ∃ result : RunExecutionResult, event.body.outcome = some result.status ∧
        x.after rest event = .finishing result := by
  have hs := (x.noted event).finished_status event
  unfold after
  dsimp only
  cases hf : (x.noted event).finished event with
  | none =>
    rw [hf] at hs
    exact .inl ⟨hs.symm, rfl⟩
  | some result =>
    rw [hf] at hs
    exact .inr ⟨result, hs.symm, rfl⟩

theorem Executor.noted_deferred (event : AgentEvent) (h : x.deferredStatus ≠ some .completed) :
    (x.noted event).deferredStatus ≠ some .completed := by
  unfold noted
  split <;> simp [h]

theorem Executor.counted_deferred (x : Executor) (event : AgentEvent) :
    (x.counted event).deferredStatus = x.deferredStatus := by
  unfold counted
  split <;> rfl

theorem Executor.exhausted_status (h : x.deferredStatus ≠ some .completed) :
    x.exhausted.status ≠ .completed := by
  unfold exhausted
  cases hd : x.deferredStatus with
  | none => simp
  | some =>
    rw [hd] at h
    simpa using h

theorem AttemptPhase.Halted.status {phase : AttemptPhase} (h : phase.Halted)
    {result : RunExecutionResult} (hph : phase = .finishing result) :
    result.status ≠ .completed := by
  rcases h with rfl | ⟨result', rfl, -, hs⟩
  · cases hph
  · cases hph
    rcases hs with heq | heq <;> rw [heq] <;> simp

/-! ### The property -/

structure Audit where
  world : World
  status : ℕ → Option RunStatus

def Audit.observe (a : Audit) (w : World) : Audit :=
  { world := w
    status := fun epoch =>
      if epoch = w.store.run.executionEpoch then some w.store.run.status else a.status epoch }

def Audit.apply (a : Audit) (op : SystemOp) : Audit := a.observe (a.world.apply op)

def audited (x : Submission) : Audit :=
  { world := submitted x
    status := fun epoch =>
      if epoch = (submitted x).store.run.executionEpoch then some (submitted x).store.run.status
      else none }

/-- **The property**: once an epoch is over, its log holds `run.completed` iff the run was completed
in it, and `run.failed` iff it failed. -/
structure Audit.StatusAgrees (a : Audit) : Prop where
  completed : ∀ epoch status, a.status epoch = some status →
    allowedRunTransitions status = [] ∨ epoch < a.world.store.run.executionEpoch →
    (a.world.HasOutcome epoch .completed ↔ status = .completed)
  failed : ∀ epoch status, a.status epoch = some status →
    allowedRunTransitions status = [] ∨ epoch < a.world.store.run.executionEpoch →
    (a.world.HasOutcome epoch .failed ↔ status = .failed)
  single : ∀ epoch, ((a.world.events epoch).countP (·.body.outcome.isSome)) ≤ 1
  last : ∀ epoch before event after, a.world.events epoch = before ++ event :: after →
    event.body.outcome.isSome = true → after = []

/-! ### The condition -/

def World.announced (w : World) (g : ℕ) : Bool :=
  w.log.any fun entry =>
    match entry with
    | .performed g' _ (.emit event) => g' = g && event.body.outcome.isSome
    | _ => false

def Attempt.report (a : Attempt) : Option RunExecutionResult :=
  match a.phase with
  | .finishing result => some result
  | _ => none

def Attempt.announces (a : Attempt) : Bool :=
  match a.phase with
  | .running (.emit event :: _) x => x.approvalDue.isNone && event.body.outcome.isSome
  | _ => false

def World.pending (w : World) (g : ℕ) : Bool :=
  w.announced g && (w.attempts g).any (·.report.isSome)

def ReportsAnnounced (w : World) : SystemOp → Prop
  | .work g _ now => ∀ a ∈ w.attempts g, a.announces = true →
      w.store.leaseActive a.lease now = true → w.store.run.cancellationRequested = false
  | .interrupt g _ => w.pending g = false
  | .requestCancel _ => w.pending w.store.run.leaseGeneration = false
  | .recoverExpired occurredAt => w.pending w.store.run.leaseGeneration = true →
      ∀ row ∈ w.store.lease, occurredAt < row.expiresAt
  | .finish g occurredAt => ∀ a ∈ w.attempts g, ∀ result ∈ a.report,
      if w.announced g then
        w.store.owns a.lease occurredAt = true ∧ w.store.run.comparisonStart ≤ occurredAt
      else result.status = .failed → w.store.run.cancellationRequested = false →
        w.store.owns a.lease occurredAt = false
  | _ => True

instance (w : World) : ∀ op : SystemOp, Decidable (ReportsAnnounced w op)
  | .work g _ _ => inferInstanceAs (Decidable (∀ a ∈ w.attempts g, _ → _ → _))
  | .interrupt _ _ | .requestCancel _ => inferInstanceAs (Decidable (_ = false))
  | .recoverExpired _ => inferInstanceAs (Decidable (_ → ∀ row ∈ w.store.lease, _))
  | .finish g _ => inferInstanceAs (Decidable (∀ a ∈ w.attempts g, ∀ result ∈ a.report,
      if w.announced g then _ ∧ _ else _ → _ → _))
  | .claim .. | .start .. | .heartbeat .. | .load .. | .decide .. | .rewind .. => isTrue trivial

theorem World.announced_iff :
    w.announced g = true ↔ ∃ epoch event, performed g epoch (.emit event) ∈ w.log ∧
      event.body.outcome.isSome = true := by
  rw [announced, any_eq_true]
  constructor
  · rintro ⟨_, he, hm⟩
    split at hm
    next g' epoch event =>
      obtain ⟨hg, ho⟩ := and_eq_true_iff.1 hm
      obtain rfl := of_decide_eq_true hg
      exact ⟨epoch, event, he, ho⟩
    · cases hm
  · rintro ⟨epoch, event, he, ho⟩
    exact ⟨_, he, by simp [ho]⟩

theorem World.announced_of_mem (w : World) {epoch : ℕ} {status : RunStatus}
    (he : .performed g epoch (.emit event) ∈ w.log)
    (ho : event.body.outcome = some status) : w.announced g = true :=
  announced_iff.2 ⟨epoch, event, he, by rw [ho]; rfl⟩

theorem World.announced_record (h : w.announced g) :
    (w.record entry).announced g := by
  obtain ⟨epoch, event, hmem, ho⟩ := announced_iff.1 h
  exact announced_iff.2 ⟨epoch, event, mem_append_left _ hmem, ho⟩

def World.Unbegun (w : World) : Prop :=
  w.store.run.status = .leased → ∀ a, w.attempts w.store.run.leaseGeneration = some a →
    a.phase ≠ .started ∧ a.phase.Stopped

/-! ### The status in the operations of the queue and of the control plane -/

theorem EventBody.outcome_announced {body : EventBody} {status : RunStatus}
    (h : body.outcome = some status) : status.Announced := by
  unfold EventBody.outcome at h
  split at h
  · exact .inl (Option.some.inj h).symm
  · exact .inr (Option.some.inj h).symm
  · cases h

def Run.Undecided (r r' : Run) : Prop := ¬ r.status.Announced ∧ ¬ r'.status.Announced

theorem heartbeat_flag {ex : Timestamp} {c : Bool} (h : heartbeat s lease at' ex = .ok (c, s')) :
    s'.run.cancellationRequested = s.run.cancellationRequested := by
  obtain ⟨_, -, -, rfl⟩ := heartbeat_ok h
  rfl

theorem start_leased {lease' : RunLease} (h : start s lease at' = .ok (lease', s'))
    : s.run.status = .leased := by
  obtain ⟨_, run, -, hl, -⟩ := start_ok h
  exact hl

theorem recoverExpired_undecided (h : recoverExpired s at' = .ok s') :
    s'.run = s.run ∨ s.run.Undecided s'.run ∧
      (s.run.status = .retryPending ∨ ∃ row ∈ s.lease, row.expiresAt ≤ at') := by
  have undecided : ∀ {run : Run} {status : RunStatus}, run.status = status →
      (s.run.status = .leased ∨ s.run.status = .running) → ¬ status.Announced →
      s.run.Undecided run := by
    rintro run _ rfl ha hnew
    refine ⟨?_, hnew⟩
    rcases ha with hst | hst <;> simp [RunStatus.Announced, hst]
  cases recoverExpired_ok h with
  | kept | discarded => exact .inl rfl
  | retried pending moved =>
    refine .inr ⟨?_, .inl pending⟩
    simp [Run.Undecided, RunStatus.Announced, pending, (transitionRun_frame moved).1]
  | @cancelled row _ held expired assigned _ moved =>
    exact .inr ⟨undecided (transitionRun_frame moved).1 assigned (by simp [RunStatus.Announced]),
      .inr ⟨row, held, expired⟩⟩
  | @requeued row _ _ held expired assigned _ _ moved' =>
    exact .inr ⟨undecided (transitionRun_frame moved').1 assigned (by simp [RunStatus.Announced]),
      .inr ⟨row, held, expired⟩⟩

theorem requestCancel_undecided (h : requestCancel s at' = .ok s')
    : s' = s ∨ s.run.Undecided s'.run := by
  cases requestCancel_ok h with
  | kept => exact .inl rfl
  | cancelled idle moved =>
    refine .inr ⟨?_, by simp [RunStatus.Announced, (transitionRun_frame moved).1]⟩
    rintro (hst | hst) <;> rw [hst] at idle <;> cases idle
  | cancelling assigned =>
    have ho : ¬ s.run.status.Announced := by
      rintro (hst | hst) <;> rw [hst] at assigned <;> cases assigned
    exact .inr ⟨ho, ho⟩

/-! ### The invariant -/

def World.Reported (w : World) (g epoch : ℕ) (status : RunStatus) : Prop :=
  (∀ a, w.attempts g = some a → a.phase = .ended) ∧
    (epoch = w.store.run.executionEpoch → w.store.run.status = status)

structure World.Awaits (w : World) (g epoch : ℕ) (status : RunStatus) : Prop where
  epoch : epoch = w.store.run.executionEpoch
  generation : g = w.store.run.leaseGeneration
  running : w.store.run.status = .running
  requested : w.store.run.cancellationRequested = false
  report : ∃ a result, w.attempts g = some a ∧ a.phase = .finishing result ∧ result.status = status

theorem World.Awaits.record {epoch : ℕ} {status : RunStatus} (h : w.Awaits g epoch status)
    : (w.record entry).Awaits g epoch status :=
  ⟨h.epoch, h.generation, h.running, h.requested, h.report⟩

def RunStore.Sound (s : RunStore) : Prop := s.WellFormed ∧ s.run.invalidity = none

structure World.Settling (w : World) : Prop where
  wellFormed : w.store.WellFormed
  valid : w.store.run.invalidity = none
  leased : w.Leased
  unbegun : w.Unbegun
  recorded : ∀ g epoch event, .performed g epoch (.emit event) ∈ w.log →
    (w.attempts g).isSome = true ∧ epoch ≤ w.store.run.executionEpoch
  deferred : ∀ g a rest x, w.attempts g = some a → a.phase = .running rest x →
    x.deferredStatus ≠ some .completed
  reported : ∀ g a result, w.attempts g = some a → a.phase = .finishing result →
    result.status = .completed → w.announced g = true
  settled : w.store.run.status.Announced →
    w.HasOutcome w.store.run.executionEpoch w.store.run.status
  outcomes : ∀ g epoch event status, .performed g epoch (.emit event) ∈ w.log →
    event.body.outcome = some status → w.Reported g epoch status ∨ w.Awaits g epoch status
  last : ∀ epoch before event after, w.events epoch = before ++ event :: after →
    event.body.outcome.isSome = true → after = []

namespace World.Settling

variable {w : World} {g : ℕ} {a : Attempt}

variable {event : AgentEvent} {result : RunExecutionResult} {now : Timestamp} {rest : List LoopStep}
    {x : Executor} {b : Attempt}

variable (h : w.Settling)

include h

theorem reporting (ha : w.attempts g = some a) (hend : a.phase ≠ .ended)
    {epoch : ℕ} {status : RunStatus} (he : .performed g epoch (.emit event) ∈ w.log)
    (ho : event.body.outcome = some status) :
    w.Awaits g epoch status ∧ ∃ result, a.phase = .finishing result ∧ result.status = status := by
  rcases h.outcomes g epoch event status he ho with hov | haw
  · exact absurd (hov.1 a ha) hend
  · obtain ⟨_, result, ha', hph, hs⟩ := haw.report
    rw [ha] at ha'
    cases ha'
    exact ⟨haw, result, hph, hs⟩

theorem unannounced (ha : w.attempts g = some a) (hend : a.phase ≠ .ended)
    (hr : a.report = none) : w.announced g = false := by
  rw [eq_false_iff]
  intro han
  obtain ⟨_, _, he, ho⟩ := announced_iff.1 han
  obtain ⟨_, hs⟩ := isSome_iff_exists.1 ho
  obtain ⟨-, _, hph, -⟩ := h.reporting ha hend he hs
  rw [report, hph] at hr
  cases hr

theorem awaits (han : w.announced g) (ha : w.attempts g = some a)
    (hph : a.phase = .finishing result) : ∃ epoch event, .performed g epoch (.emit event) ∈ w.log ∧
      event.body.outcome = some result.status ∧ w.Awaits g epoch result.status := by
  obtain ⟨epoch, event, he, ho⟩ := announced_iff.1 han
  obtain ⟨status, hs⟩ := isSome_iff_exists.1 ho
  obtain ⟨haw, _, hph', rfl⟩ :=
    h.reporting ha (by rw [hph]; simp) he hs
  rw [hph] at hph'
  cases hph'
  exact ⟨epoch, event, he, hs, haw⟩

omit h in
theorem pending {epoch : ℕ} {status : RunStatus} (he : .performed g epoch (.emit event) ∈ w.log)
    (ho : event.body.outcome = some status) (haw : w.Awaits g epoch status)
    : w.pending w.store.run.leaseGeneration = true := by
  obtain ⟨_, _, ha, hph, -⟩ := haw.report
  rw [World.pending, ← haw.generation, and_eq_true_iff]
  exact ⟨w.announced_of_mem he ho, by simp [ha, report, hph]⟩

theorem quiet (ha : w.attempts g = some a) (hph : a.phase = .running rest x)
    (hac : w.store.leaseActive a.lease now) :
    ∀ event ∈ w.events a.lease.executionEpoch, event.body.outcome = none := by
  intro event he
  rw [← not_isSome_iff_eq_none]
  intro ho
  obtain ⟨status, hst⟩ := isSome_iff_exists.1 ho
  obtain ⟨g', hen⟩ := mem_events.1 he
  rcases h.outcomes g' _ event status hen hst with hov | haw
  · have heq := hov.2 (leaseActive_epoch hac).symm
    have han := outcome_announced hst
    rw [← heq] at han
    rcases leaseActive_status hac with hs | hs <;>
      simp [RunStatus.Announced, hs] at han
  · obtain ⟨_, _, ha', hph', -⟩ := haw.report
    rw [haw.generation, leaseActive_generation hac, (h.leased g a ha).1, ha] at ha'
    cases ha'
    rw [hph] at hph'
    cases hph'

theorem isRunning (ha : w.attempts g = some a) (hph : a.phase = .running rest x)
    (hac : w.store.leaseActive a.lease now) : w.store.run.status = .running := by
  rcases leaseActive_status hac with hl | hrun
  · have hg : w.store.run.leaseGeneration = g :=
      (leaseActive_generation hac).trans (h.leased g a ha).1
    exact absurd hph ((h.unbegun hl a (hg ▸ ha)).2 rest x)
  · exact hrun

theorem manage {s' : RunStore} (hs : s'.Sound)
    (hep : s'.run.executionEpoch = w.store.run.executionEpoch)
    (hg : w.store.run.leaseGeneration ≤ s'.run.leaseGeneration)
    (hu : ({ w with store := s' } : World).Unbegun)
    (hrun : s'.run.status = w.store.run.status ∧
        s'.run.cancellationRequested = w.store.run.cancellationRequested ∧
        s'.run.leaseGeneration = w.store.run.leaseGeneration ∨
      w.store.run.Undecided s'.run ∧ w.pending w.store.run.leaseGeneration = false) :
    ({ w with store := s' } : World).Settling where
  wellFormed := hs.1
  valid := hs.2
  leased := fun g a ha => ⟨(h.leased g a ha).1, (h.leased g a ha).2.trans hg⟩
  unbegun := hu
  recorded := fun g epoch step he =>
    ⟨(h.recorded g epoch step he).1, (h.recorded g epoch step he).2.trans hep.ge⟩
  deferred := h.deferred
  reported := h.reported
  settled := by
    intro han
    rcases hrun with ⟨hst, -, -⟩ | ⟨hun, -⟩
    · change w.HasOutcome s'.run.executionEpoch s'.run.status
      rw [hep, hst]
      exact h.settled (hst ▸ han)
    · exact absurd han hun.2
  outcomes := by
    intro g epoch event status he ho
    rcases h.outcomes g epoch event status he ho with hov | haw
    · refine .inl ⟨hov.1, fun heq => ?_⟩
      have hw := hov.2 (heq.trans hep)
      rcases hrun with ⟨hst, -, -⟩ | ⟨hun, -⟩
      · exact hst.trans hw
      · -- the status of the run would be the announced one
        exact absurd (hw ▸ outcome_announced ho) hun.1
    · rcases hrun with ⟨hst, hf, hsa⟩ | ⟨-, hn⟩
      · exact .inr ⟨haw.epoch.trans hep.symm, haw.generation.trans hsa.symm,
          hst.trans haw.running, hf.trans haw.requested, haw.report⟩
      · have hp : w.pending w.store.run.leaseGeneration = true :=
          pending he ho haw
        rw [hp] at hn
        cases hn
  last := h.last

theorem set_attempts
    (hd : ∀ rest x, b.phase = .running rest x → x.deferredStatus ≠ some .completed) :
    (∀ g' epoch event, .performed g' epoch (.emit event) ∈ w.log →
      ((w.setAttempt g b).attempts g').isSome = true ∧ epoch ≤ w.store.run.executionEpoch) ∧
    ∀ g' a rest x, (w.setAttempt g b).attempts g' = some a → a.phase = .running rest x →
      x.deferredStatus ≠ some .completed := by
  refine ⟨fun g' epoch event he => ?_, fun g' a rest x ha hph => ?_⟩
  · obtain ⟨hs, hep⟩ := h.recorded g' epoch event he
    refine ⟨?_, hep⟩
    by_cases heq : g' = g <;> simp [setAttempt, heq, hs]
  · obtain ⟨-, rfl⟩ | ⟨-, hold⟩ := setAttempt_attempts.1 ha
    · exact hd rest x hph
    · exact h.deferred g' a rest x hold hph

theorem outcomes_other {g' epoch : ℕ} {status : RunStatus} (hne : g' ≠ g)
    (he : .performed g' epoch (.emit event) ∈ w.log)
    (ho : event.body.outcome = some status) :
    (w.setAttempt g b).Reported g' epoch status ∨ (w.setAttempt g b).Awaits g' epoch status := by
  have hs : (w.setAttempt g b).attempts g' = w.attempts g' := by simp [setAttempt, hne]
  rcases h.outcomes g' epoch event status he ho with hov | haw
  · exact .inl ⟨fun a ha => hov.1 a (hs ▸ ha), hov.2⟩
  · obtain ⟨a, result, ha, hr⟩ := haw.report
    exact .inr ⟨haw.epoch, haw.generation, haw.running, haw.requested,
      a, result, hs.trans ha, hr⟩

theorem set (hls : b.lease.generation = g)
    (hle : g ≤ w.store.run.leaseGeneration) (han : w.announced g = false)
    (hb : w.store.run.status = .leased → g = w.store.run.leaseGeneration →
      b.phase ≠ .started ∧ b.phase.Stopped)
    (hd : ∀ rest x, b.phase = .running rest x → x.deferredStatus ≠ some .completed)
    (hr : ∀ result, b.phase = .finishing result → result.status ≠ .completed) :
    (w.setAttempt g b).Settling where
  wellFormed := h.wellFormed
  valid := h.valid
  leased := h.leased.set le_rfl ⟨hls, hle⟩
  unbegun := by
    intro hl a ha
    obtain ⟨heq, rfl⟩ | ⟨-, hold⟩ := setAttempt_attempts.1 ha
    · exact hb hl heq.symm
    · exact h.unbegun hl a hold
  recorded := (h.set_attempts hd).1
  deferred := (h.set_attempts hd).2
  reported := by
    intro g' a result ha hph hc
    obtain ⟨-, rfl⟩ | ⟨-, hold⟩ := setAttempt_attempts.1 ha
    · exact absurd hc (hr result hph)
    · exact h.reported g' a result hold hph hc
  settled := h.settled
  outcomes := by
    intro g' epoch event status he ho
    refine h.outcomes_other ?_ he ho
    rintro rfl
    rw [w.announced_of_mem he ho] at han
    cases han
  last := h.last

theorem last_record {g epoch : ℕ}
    (hq : ∀ event ∈ w.events epoch, event.body.outcome = none) : ∀ epoch' before event' after,
      (w.record (.performed g epoch (.emit event))).events epoch' = before ++ event' :: after →
      event'.body.outcome.isSome = true → after = [] := by
  intro epoch' before event' after he hou
  rw [events_record] at he
  by_cases heq : epoch' = epoch
  · subst heq
    rw [event?_eq_some.2 ⟨g, rfl⟩] at he
    refine eq_nil_of_concat_eq (p := fun event => event.body.outcome.isSome)
      (fun event hmem => ?_) he hou
    rw [hq event hmem]
    rfl
  · have ho : (performed g epoch (.emit event)).event? epoch' = none := by
      simp [event?, Ne.symm heq]
    rw [ho, toList_none, append_nil] at he
    exact h.last epoch' before event' after he hou

theorem record {entry : LogEntry}
    (hv : ∀ g epoch event, entry = .performed g epoch (.emit event) →
      ((w.attempts g).isSome = true ∧ epoch ≤ w.store.run.executionEpoch) ∧
        event.body.outcome = none ∧ ∀ event ∈ w.events epoch, event.body.outcome = none) :
    (w.record entry).Settling where
  wellFormed := h.wellFormed
  valid := h.valid
  leased := h.leased
  unbegun := h.unbegun
  recorded := by
    intro g epoch event hmem
    rcases mem_append.1 hmem with hold | hnew
    · exact h.recorded g epoch event hold
    · exact (hv g epoch event (mem_singleton.1 hnew).symm).1
  deferred := h.deferred
  reported := fun g a result ha hph hc =>
    announced_record (h.reported g a result ha hph hc)
  settled := by
    intro han
    obtain ⟨event, hmem, ho⟩ := h.settled han
    exact ⟨event, by rw [events_record]; exact mem_append_left _ hmem, ho⟩
  outcomes := by
    intro g epoch event status hmem ho
    rcases mem_append.1 hmem with hold | hnew
    · exact (h.outcomes g epoch event status hold ho).imp id (·.record)
    · rw [(hv g epoch event (mem_singleton.1 hnew).symm).2.1] at ho
      cases ho
  last := by
    intro epoch before event after he
    cases hen : entry.event? epoch with
    | none =>
      rw [events_record, hen, toList_none, append_nil] at he
      exact h.last epoch before event after he
    | some event' =>
      obtain ⟨g, rfl⟩ := event?_eq_some.1 hen
      exact h.last_record (hv g epoch event' rfl).2.2 epoch before event after he

theorem announce (ha : w.attempts g = some a) (hph : a.phase = .running rest x)
    (hac : w.store.leaseActive a.lease now)
    (hf : w.store.run.cancellationRequested = false) (hls : b.lease = a.lease)
    (hr : b.phase = .finishing result) (ho : event.body.outcome = some result.status) :
    ((w.setAttempt g b).record (.performed g a.lease.executionEpoch (.emit event))).Settling := by
  have hg : w.store.run.leaseGeneration = g :=
    (leaseActive_generation hac).trans (h.leased g a ha).1
  have hep := leaseActive_epoch hac
  have hrun := h.isRunning ha hph hac
  have hs : (w.setAttempt g b).attempts g = some b := by simp [setAttempt]
  have hb : w.announced g = false :=
    h.unannounced ha (by rw [hph]; simp) (by simp [report, hph])
  have hset := h.set_attempts (g := g) fun rest x hph => by
    rw [hr] at hph
    cases hph
  refine ⟨h.wellFormed, h.valid, ?_, ?_, ?_, hset.2, ?_, ?_, ?_, ?_⟩
  · exact h.leased.set le_rfl ⟨(congrArg _ hls).trans (h.leased g a ha).1, hg.ge⟩
  · intro hl
    exact absurd (hrun.symm.trans hl) (by simp)
  · intro g' epoch event' hmem
    rcases mem_append.1 hmem with hold | hnew
    · exact hset.1 g' epoch event' hold
    · cases mem_singleton.1 hnew
      exact ⟨by rw [World.record, hs]; rfl, hep.ge⟩
  · intro g' a' result' ha' hph' hc
    obtain ⟨rfl, rfl⟩ | ⟨-, hold⟩ := setAttempt_attempts.1 ha'
    · exact announced_of_mem _ (mem_append_right _ (mem_singleton_self _)) ho
    · exact announced_record (w := w.setAttempt g b)
        (h.reported g' a' result' hold hph' hc)
  · intro han
    change w.store.run.status.Announced at han
    rw [hrun] at han
    simp [RunStatus.Announced] at han
  · intro g' epoch event' status hmem ho'
    rcases mem_append.1 hmem with hold | hnew
    · -- an earlier terminal event is that of another attempt
      refine (h.outcomes_other ?_ hold ho').imp id (·.record)
      rintro rfl
      rw [w.announced_of_mem hold ho'] at hb
      cases hb
    · cases mem_singleton.1 hnew
      rw [ho] at ho'
      cases ho'
      exact .inr ⟨hep.symm, hg.symm, hrun, hf, b, result, hs, hr, rfl⟩
  · exact h.last_record (h.quiet ha hph hac)

theorem settle {s' : RunStore} (ha : w.attempts g = some a)
    (hph : a.phase = .finishing result) (han : w.announced g) (hs : s'.Sound)
    (hst : s'.run.status = result.status)
    (hep : s'.run.executionEpoch = w.store.run.executionEpoch)
    (hg : s'.run.leaseGeneration = w.store.run.leaseGeneration) :
    (({ w with store := s' } : World).setAttempt g { a with phase := .ended }).Settling := by
  obtain ⟨epoch, event, he, ho, haw⟩ := h.awaits han ha hph
  have hd := outcome_announced ho
  have hset := h.set_attempts (g := g) (b := { a with phase := .ended }) (by simp)
  refine ⟨hs.1, hs.2, ?_, ?_, ?_, hset.2, ?_, ?_, ?_, h.last⟩
  · exact h.leased.set hg.ge ⟨(h.leased g a ha).1, (h.leased g a ha).2.trans hg.ge⟩
  · intro hl
    change s'.run.status = .leased at hl
    rw [← hst, hl] at hd
    simp [RunStatus.Announced] at hd
  · intro g' epoch' event' hmem
    exact ⟨(hset.1 g' epoch' event' hmem).1, (hset.1 g' epoch' event' hmem).2.trans hep.ge⟩
  · intro g' a' result' ha' hph' hc
    obtain ⟨-, rfl⟩ | ⟨-, hold⟩ := setAttempt_attempts.1 ha'
    · cases hph'
    · exact h.reported g' a' result' hold hph' hc
  · intro _
    refine ⟨event, mem_events.2 ⟨g, ?_⟩, ho.trans (congrArg some hst.symm)⟩
    change _ ∈ w.log
    rw [show (({ w with store := s' } : World).setAttempt g { a with phase := .ended }).store =
      s' from rfl, hep, ← haw.epoch]
    exact he
  · intro g' epoch' event' status hmem ho'
    by_cases heq : g' = g
    · subst heq
      refine .inl ⟨fun a' ha' => ?_, fun _ => ?_⟩
      · obtain ⟨-, rfl⟩ | ⟨hne, -⟩ := setAttempt_attempts.1 ha'
        · rfl
        · exact absurd rfl hne
      · obtain ⟨-, result', hph', rfl⟩ :=
          h.reporting ha (by rw [hph]; simp) hmem ho'
        rw [hph] at hph'
        cases hph'
        exact hst
    · rcases h.outcomes_other (b := { a with phase := .ended }) heq hmem ho' with
        hov | haw'
      · refine .inl ⟨hov.1, fun hcu => ?_⟩
        have hw : w.store.run.status = status := hov.2 (hcu.trans hep)
        rw [haw.running] at hw
        have han' := outcome_announced ho'
        rw [← hw] at han'
        simp [RunStatus.Announced] at han'
      · exact absurd (haw'.generation.trans haw.generation.symm) heq

theorem manageSame {s' : RunStore} (hs : s'.Sound) (hid : w.store.run.SameIdentity s'.run)
    (hst : s'.run.status = w.store.run.status ∨ s'.run.status ≠ .leased)
    (hrun : s'.run.status = w.store.run.status ∧
        s'.run.cancellationRequested = w.store.run.cancellationRequested ∨
      w.store.run.Undecided s'.run ∧ w.pending w.store.run.leaseGeneration = false) :
    ({ w with store := s' } : World).Settling := by
  refine h.manage hs hid.executionEpoch hid.leaseGeneration.ge ?_
    (hrun.imp (fun hsa => ⟨hsa.1, hsa.2, hid.leaseGeneration⟩) id)
  intro hl a ha
  change s'.run.status = .leased at hl
  change w.attempts s'.run.leaseGeneration = some a at ha
  rw [hid.leaseGeneration] at ha
  rcases hst with hsa | hne
  · exact h.unbegun (hsa.symm.trans hl) a ha
  · exact absurd hl hne

theorem halt {phase : AttemptPhase} (ha : w.attempts g = some a)
    (han : w.announced g = false) (hh : phase.Halted) :
    (w.setAttempt g { a with phase := phase }).Settling := by
  refine h.set (h.leased g a ha).1 (h.leased g a ha).2 han (fun _ _ => ⟨?_, hh.stopped⟩)
    (fun rest x hph => absurd hph (hh.stopped rest x))
    (fun result hph => hh.status hph)
  rcases hh with rfl | ⟨result, rfl, -⟩ <;> simp

theorem advance {p : Performed} (ha : w.attempts g = some a)
    (hph : a.phase = .running rest x) (hs : p.store.run = w.store.run) (hwf : p.store.WellFormed)
    (hd : ∀ rest' x', p.phase = .running rest' x' → x'.deferredStatus ≠ some .completed)
    (hr : ∀ result, p.phase = .finishing result → result.status ≠ .completed) :
    (({ w with store := p.store } : World).setAttempt g
      { a with phase := p.phase, workspace := p.workspace }).Settling := by
  have hm : ({ w with store := p.store } : World).Settling :=
    h.manageSame ⟨hwf, hs ▸ h.valid⟩ (hs ▸ .refl _) (.inl (congrArg _ hs))
      (.inl ⟨congrArg _ hs, congrArg _ hs⟩)
  refine hm.set (h.leased g a ha).1 (hm.leased g a ha).2
    (hm.unannounced ha (by rw [hph]; simp) (by simp [report, hph]))
    (fun hl hg => ?_) hd hr
  exact absurd hph ((hm.unbegun hl a (hg ▸ ha)).2 rest x)

theorem emit {p : Performed} {x' : Executor} (ha : w.attempts g = some a)
    (hph : a.phase = .running (.emit event :: rest) x) (hdue : x.approvalDue = none)
    (hac : w.store.leaseActive a.lease now)
    (hs : p.store.run = w.store.run ∧ p.store.lease = w.store.lease) (hwf : p.store.WellFormed)
    (hd : x'.deferredStatus = x.deferredStatus) (hn : p.phase = x'.after rest event)
    (hf : a.announces → w.store.run.cancellationRequested = false) :
    ((({ w with store := p.store } : World).setAttempt g
      { a with phase := p.phase, workspace := p.workspace }).record
        (.performed g a.lease.executionEpoch (.emit event))).Settling := by
  rcases x'.after_cases rest event with ⟨hno, haf⟩ | ⟨result, ho, haf⟩
  · have hset := h.advance ha hph hs.1 hwf
      (by
        intro rest' x₁ hrun
        rw [hn, haf] at hrun
        cases hrun
        exact noted_deferred event (hd ▸ h.deferred g a _ x ha hph))
      (by
        intro result hfi
        rw [hn, haf] at hfi
        cases hfi)
    refine hset.record fun g' epoch event' heq => ?_
    cases heq
    refine ⟨⟨by simp [setAttempt], ?_⟩, hno, h.quiet ha hph hac⟩
    change a.lease.executionEpoch ≤ p.store.run.executionEpoch
    rw [hs.1, leaseActive_epoch hac]
  · have hm : ({ w with store := p.store } : World).Settling :=
      h.manageSame ⟨hwf, hs.1 ▸ h.valid⟩ (hs.1 ▸ .refl _) (.inl (congrArg _ hs.1))
        (.inl ⟨congrArg _ hs.1, congrArg _ hs.1⟩)
    have han : a.announces := by
      rw [announces, hph]
      simp [hdue, ho]
    have hst : p.store.leaseActive a.lease now := by
      rw [leaseActive, hs.1, hs.2]
      exact hac
    exact hm.announce ha hph hst ((congrArg _ hs.1).trans (hf han)) rfl
      (hn.trans haf) ho

theorem work {codec : StoreCodec} (ha : w.attempts g = some a)
    (hwf : (a.work codec now w.store).1.store.WellFormed)
    (hf : a.announces → w.store.leaseActive a.lease now →
      w.store.run.cancellationRequested = false) : (w.workAttempt g a codec now).Settling := by
  have hw := a.work_works codec now w.store
  unfold workAttempt
  generalize hwr : a.work codec now w.store = result at hw hwf
  obtain ⟨p, _⟩ := result
  have hs := hw.sameRun
  have plain : ∀ {step : LoopStep} {rest : List LoopStep} {x : Executor},
      a.phase = .running (step :: rest) x → p.phase = .running rest x →
      (∀ event, step ≠ .emit event) → ((({ w with store := p.store } : World).setAttempt g
        { a with phase := p.phase, workspace := p.workspace }).record
          (.performed g a.lease.executionEpoch step)).Settling := by
    intro step rest x hph hn hp
    refine (h.advance ha hph hs.1 hwf ?_ ?_).record fun g' epoch event heq =>
      absurd (performed.inj heq).2.2 (hp event)
    · intro rest' x' hrun
      rw [hn] at hrun
      cases hrun
      exact h.deferred g a _ x ha hph
    · intro result hfi
      rw [hn] at hfi
      cases hfi
  cases hw with
  | resting =>
    have hse : w.setAttempt g a = w := by
      have hat : (fun g' => if g' = g then some a else w.attempts g') = w.attempts := by
        funext g'
        by_cases heq : g' = g <;> simp [heq, ha]
      simp only [setAttempt, hat]
    change (w.setAttempt g a).Settling
    rw [hse]
    exact h
  | refused _ halted running =>
    obtain ⟨_, x, hph⟩ := running
    exact h.advance ha hph rfl hwf
      (fun rest' x' hrun => absurd hrun (halted.stopped rest' x'))
      (fun result hfi => halted.status hfi)
  | exhausted x phase =>
    exact h.advance ha phase rfl hwf (by simp)
      (fun result hfi => by
        cases hfi
        exact exhausted_status (h.deferred g a _ x ha phase))
  | approval _ x _ _ _ phase =>
    exact h.advance ha phase hs.1 hwf
      (fun rest' x' hrun => by
        cases hrun
        exact h.deferred g a _ x ha phase)
      (by simp)
  | step x step _ _ phase due performs =>
    cases performs with
    | refused _ _ halted =>
      exact h.advance ha phase rfl hwf
        (fun rest' x' hrun => absurd hrun (halted.stopped rest' x'))
        (fun result hfi => halted.status hfi)
    | noted event active =>
      exact h.emit ha phase due active hs hwf (x.counted_deferred event) rfl
        (fun han => hf han active)
    | saved event _ returned _ _ save =>
      have hac := (saveToolCallFenced_inv save).1
      have hd : ({ (x.counted event).observe returned with
          approvalDue := approvalRequest a.lease event } : Executor).deferredStatus =
          x.deferredStatus := x.counted_deferred event
      exact h.emit ha phase due hac hs hwf hd rfl
        (fun han => hf han hac)
    | observed _ observation =>
      refine plain phase rfl fun event heq => ?_
      rw [heq] at observation
      cases observation
    | _ =>
      refine plain phase rfl ?_
      intro _ hem
      cases hem

theorem finish {at' : Timestamp} (ha : w.attempts g = some a)
    (hph : a.phase = .finishing result) (hs : (w.finishAttempt g a result at').store.Sound)
    (hop : if w.announced g then w.store.owns a.lease at' ∧ w.store.run.comparisonStart ≤ at'
      else result.status = .failed → w.store.run.cancellationRequested = false →
        w.store.owns a.lease at' = false) : (w.finishAttempt g a result at').Settling := by
  by_cases han : w.announced g
  · rw [if_pos han] at hop
    obtain ⟨_, _, -, ho, haw⟩ := h.awaits han ha hph
    obtain ⟨s', hf⟩ := finish_announced h.valid haw.running haw.requested
      (outcome_announced ho) hop.1 hop.2
    have hst : w.store.commit (AgentPlatform.finish w.store a.lease result at') = s' :=
      commit_ok hf
    unfold finishAttempt at hs ⊢
    rw [hst] at hs ⊢
    obtain ⟨-, -, hsa, -, hep, -, -, hg, -⟩ := finish_inv hf
    exact h.settle ha hph han hs hsa hep hg
  · rw [if_neg han] at hop
    have hu := eq_false_iff.2 han
    unfold finishAttempt at hs ⊢
    obtain heq | ⟨status, hf⟩ :=
      w.store.commit_cases (AgentPlatform.finish w.store a.lease result at')
    · rw [heq]
      exact h.halt ha hu halted_ended
    generalize w.store.commit (AgentPlatform.finish w.store a.lease result at') = s' at *
    obtain ⟨hd, hall, hsa, -, hep, -, -, hg, -⟩ := finish_inv hf
    obtain ⟨hown, hl⟩ := finish_owned hf
    have hnew : w.store.run.leaseGeneration = g :=
      (owns_generation hown).trans (h.leased g a ha).1
    have hun : w.store.run.Undecided s'.run := by
      refine ⟨fun hb => ?_, fun haf => ?_⟩
      · rcases hb with heq | heq <;>
          (rw [heq] at hall; simp [allowedRunTransitions] at hall)
      rw [hsa, hd] at haf
      split at haf
      · simp [RunStatus.Announced] at haf
      next hfl =>
        rcases haf with hc | hfa
        · exact han (h.reported g a result ha hph hc)
        · rw [hop hfa (eq_false_iff.2 hfl)] at hown
          cases hown
    have hn : w.pending w.store.run.leaseGeneration = false := by
      rw [World.pending, hnew, hu, Bool.false_and]
    have hm : ({ w with store := s' } : World).Settling :=
      h.manage hs hep hg.ge
        (fun hl' => absurd (hsa.symm.trans hl') hl) (.inr ⟨hun, hn⟩)
    exact hm.halt ha hu halted_ended

theorem unannounced_new (hg : w.store.run.leaseGeneration < g) :
    w.announced g = false := by
  rw [eq_false_iff]
  intro han
  obtain ⟨epoch, event, he, -⟩ := announced_iff.1 han
  obtain ⟨a, ha⟩ := isSome_iff_exists.1 (h.recorded g epoch event he).1
  exact absurd (h.leased g a ha).2 (not_le.2 hg)

theorem not_pending (hs : w.store.run.status ≠ .running) :
    w.pending g = false := by
  rw [eq_false_iff]
  intro hp
  obtain ⟨han, hr⟩ := and_eq_true_iff.1 hp
  obtain ⟨_, ha, hso⟩ := (Option.any_eq_true _ _).1 hr
  unfold report at hso
  split at hso
  next result hph =>
    obtain ⟨_, _, _, _, haw⟩ := h.awaits han ha hph
    exact hs haw.running
  · cases hso

theorem claim {worker : String} {token : Uuid} {at' ex : Timestamp}
    (hs : (w.claimAttempt worker token at' ex).store.Sound) :
    (w.claimAttempt worker token at' ex).Settling := by
  unfold claimAttempt at hs ⊢
  cases hc : AgentPlatform.claim w.store worker token at' ex with
  | error => exact h
  | ok claimed =>
    obtain ⟨_, s'⟩ := claimed
    rw [hc] at hs
    obtain ⟨rfl, -⟩ | ⟨_, rfl, hq, hl, -, hep, -, -, -, _, hown⟩ :=
      claim_inv hc
    · exact h
    have hm : ({ w with store := s' } : World).Settling := by
      refine h.manage hs hep (by omega) ?_
        (.inr ⟨?_, h.not_pending (by rw [hq]; simp)⟩)
      · intro _ a ha
        have hle : s'.run.leaseGeneration ≤ w.store.run.leaseGeneration := (h.leased _ a ha).2
        omega
      · simp [Run.Undecided, RunStatus.Announced, hq, hl]
    refine hm.set rfl hown.le (h.unannounced_new (by omega)) ?_ ?_ ?_
    · exact fun _ _ => ⟨by simp, fun _ _ => by simp⟩
    · exact fun rest x hph => by cases hph
    · exact fun result hph => by cases hph

theorem start {at' : Timestamp} (ha : w.attempts g = some a)
    (hph : a.phase = .claimed) (hs : (w.startAttempt g a at').store.Sound) :
    (w.startAttempt g a at').Settling := by
  have hu : w.announced g = false :=
    h.unannounced ha (by rw [hph]; simp) (by simp [report, hph])
  unfold startAttempt at hs ⊢
  cases hst : AgentPlatform.start w.store a.lease at' with
  | error => exact h.halt ha hu raisedPhase_halted
  | ok started =>
    obtain ⟨lease, s'⟩ := started
    rw [hst] at hs
    obtain ⟨hrun, -, hid, -, -, hown, -⟩ := start_inv hst
    have hl := start_leased hst
    have hm : ({ w with store := s' } : World).Settling := by
      refine h.manageSame hs hid (.inr (by rw [hrun]; simp))
        (.inr ⟨?_, h.not_pending (by rw [hl]; simp)⟩)
      simp [Run.Undecided, RunStatus.Announced, hl, hrun]
    refine hm.set (hown.trans (h.leased g a ha).1) (hm.leased g a ha).2 hu
      (fun hsa => ?_) (fun rest x hn => ?_) (fun result hn => ?_)
    · exact absurd (hrun.symm.trans hsa) (by simp)
    · dsimp only at hn
      split at hn <;> cases hn
    · dsimp only at hn
      split at hn
      · cases hn
        simp
      · cases hn

theorem load {env : LoopEnv} {codec : RecoveryCodec}
    {context : Option BuiltContext} (ha : w.attempts g = some a) (hph : a.phase = .started)
    : (w.loadAttempt g a env codec context now).Settling := by
  have hu : w.announced g = false :=
    h.unannounced ha (by rw [hph]; simp) (by simp [report, hph])
  unfold loadAttempt
  split
  · exact (h.halt ha hu raisedPhase_halted).record nofun
  · refine World.Settling.record ?_ nofun
    refine h.set (h.leased g a ha).1 (h.leased g a ha).2 hu (fun hl hg => ?_)
      (fun rest x hn => ?_) (fun result hn => ?_)
    · exact absurd hph (h.unbegun hl a (hg ▸ ha)).1
    · cases hn
      simp
    · cases hn

theorem rewind {id : Uuid} (hs : (w.rewindRun id now).store.Sound) :
    (w.rewindRun id now).Settling := by
  unfold World.rewindRun at hs ⊢
  split at hs
  next run s' row hr hst =>
    obtain rfl | ⟨record, -, hre, hq, _, -, -, -, -, -, -, hg, -⟩ :=
      rewind_inv hr
    · exact h.record nofun
    have hnot : w.store.run.status ≠ .running := by
      intro hrun
      rw [hrun] at hre
      cases hre
    refine World.Settling.record (w := { w with store := s' }) ?_ nofun
    refine ⟨hs.1, hs.2, ?_, ?_, ?_, h.deferred, h.reported, ?_, ?_, h.last⟩
    · exact fun g a ha => ⟨(h.leased g a ha).1, (h.leased g a ha).2.trans hg.ge⟩
    · exact fun hl => absurd (hq.symm.trans hl) (by simp)
    · intro g epoch event he
      obtain ⟨hso, hle⟩ := h.recorded g epoch event he
      refine ⟨hso, ?_⟩
      change epoch ≤ s'.run.executionEpoch
      omega
    · intro han
      change s'.run.status.Announced at han
      rw [hq] at han
      simp [RunStatus.Announced] at han
    · intro g epoch event status he ho
      rcases h.outcomes g epoch event status he ho with hov | haw
      · refine .inl ⟨hov.1, fun hc => ?_⟩
        have hle := (h.recorded g epoch event he).2
        change epoch = s'.run.executionEpoch at hc
        omega
      · exact absurd haw.running hnot
  · exact h

theorem apply {op : SystemOp} (hop : ReportsAnnounced w op) :
    (w.apply op).Settling := by
  have hs : (w.apply op).store.Sound := by
    refine ⟨h.wellFormed.of_committed (w.apply_committed op), ?_⟩
    rcases w.apply_committed op with heq | ⟨op', heq⟩ <;> rw [heq]
    · exact h.valid
    · exact apply_valid h.valid op'
  cases op with
  | claim => exact h.claim hs
  | start =>
    simp only [World.apply] at hs ⊢
    split at hs
    · split at hs
      next a ha _ hph => exact h.start ha hph hs
      · exact h
    · exact h
  | heartbeat g at' ex =>
    simp only [World.apply] at hs ⊢
    split at hs
    next a ha =>
      obtain heq | ⟨_, hok⟩ :=
        w.store.commit_cases (AgentPlatform.heartbeat w.store a.lease at' ex)
      · rw [heq]
        exact h
      · obtain ⟨hst, -, hid⟩ := heartbeat_inv hok
        exact h.manageSame hs hid (.inl hst) (.inl ⟨hst, heartbeat_flag hok⟩)
    · exact h
  | load =>
    simp only [World.apply]
    split
    · split
      next a ha _ hph => exact h.load ha hph
      · exact h
    · exact h
  | work g codec now =>
    simp only [World.apply]
    split
    next a ha =>
      refine h.work ha ?_ (hop a ha)
      exact h.wellFormed.of_committed (a.work_works codec now w.store).committed
    · exact h
  | interrupt g i =>
    simp only [World.apply]
    split
    next a ha =>
      have hu : a.phase ≠ .ended → w.announced g = false := by
        intro hend
        cases hr : a.report with
        | none => exact h.unannounced ha hend hr
        | some =>
          have hn : w.pending g = false := hop
          simpa [World.pending, ha, hr] using hn
      have halt : a.phase ≠ .ended → (w.setAttempt g { a with phase := i.phase }).Settling :=
        fun hend => h.halt ha (hu hend) i.phase_halted
      split
      next hph => exact halt (by rw [hph]; simp)
      next hph => exact halt (by rw [hph]; simp)
      next hph => exact halt (by rw [hph]; simp)
      · exact h
    · exact h
  | finish =>
    simp only [World.apply] at hs ⊢
    split at hs
    · split at hs
      next a ha _ result hph =>
        exact h.finish ha hph hs (hop a ha result (by simp [report, hph]))
      · exact h
    · exact h
  | recoverExpired at' =>
    obtain heq | hok := w.store.commit_map_cases (AgentPlatform.recoverExpired w.store at')
    · simp only [World.apply, heq]
      exact h
    obtain ⟨-, hid, hst⟩ := recoverExpired_inv hok
    refine h.manageSame hs hid ?_ ?_
    · rcases hst with hsa | hq | hc
      · exact .inl hsa
      · exact .inr (by rw [hq]; simp)
      · exact .inr (by rw [hc]; simp)
    · rcases recoverExpired_undecided hok with hsa | ⟨hun, hca⟩
      · exact .inl ⟨congrArg _ hsa, congrArg _ hsa⟩
      refine .inr ⟨hun, ?_⟩
      rcases hca with hre | ⟨row, hrow, he⟩
      · exact h.not_pending (by rw [hre]; simp)
      · rw [eq_false_iff]
        intro hp
        exact absurd (hop hp row hrow) (not_lt.2 he)
  | requestCancel at' =>
    obtain heq | hok := w.store.commit_map_cases (AgentPlatform.requestCancel w.store at')
    · simp only [World.apply, heq]
      exact h
    obtain ⟨-, hid, hst⟩ := requestCancel_inv hok
    refine h.manageSame hs hid ?_ ?_
    · rcases hst with hc | ⟨hsa, -⟩
      · exact .inr (by rw [hc]; simp)
      · exact .inl hsa
    · rcases requestCancel_undecided hok with hsa | hun
      · exact .inl ⟨congrArg (·.run.status) hsa, congrArg (·.run.cancellationRequested) hsa⟩
      · exact .inr ⟨hun, hop⟩
  | decide id d =>
    obtain heq | ⟨_, hok⟩ := w.store.commit_cases (decideApproval w.store id d)
    · simp only [World.apply, heq]
      exact h
    obtain hsa | ⟨-, -, -, -, -, -, -, -, -, hid, hst⟩ := decideApproval_inv hok
    · simp only [World.apply, hsa]
      exact h
    rcases hst with ⟨hw, -, hq⟩ | ⟨-, hsa⟩
    · refine h.manageSame hs hid (.inr (by rw [hq]; simp))
        (.inr ⟨?_, h.not_pending (by rw [hw]; simp)⟩)
      simp [Run.Undecided, RunStatus.Announced, hw, hq]
    · exact h.manageSame hs hid (.inl (congrArg _ hsa))
        (.inl ⟨congrArg _ hsa, congrArg _ hsa⟩)
  | rewind => exact h.rewind hs

theorem agrees (hs : w.store.run.status ≠ .running) {outcome : RunStatus}
    (ho : outcome.Announced) :
    w.HasOutcome w.store.run.executionEpoch outcome ↔ w.store.run.status = outcome := by
  constructor
  · rintro ⟨event, he, heq⟩
    obtain ⟨g, hen⟩ := mem_events.1 he
    rcases h.outcomes g _ event outcome hen heq with hov | ha
    · exact hov.2 rfl
    · exact absurd ha.running hs
  · rintro rfl
    exact h.settled ho

end World.Settling

/-! ### Epochs -/

theorem Performs.emit_active {hash : JsonObject → String} {codec : StoreCodec} {now : Timestamp}
    {w : Workspace} {rest : List LoopStep} {p : Performed}
    (h : Performs hash codec lease now s w x rest (.emit event) p) (hlog : p.logged) :
    s.leaseActive lease now := by
  cases h with
  | refused => cases hlog
  | noted _ active => exact active
  | saved _ _ _ _ _ save => exact (saveToolCallFenced_inv save).1
  | observed _ observation => cases observation

theorem World.Moves.events {w' : World} (h : w.Moves op w') {epoch : ℕ}
    (hep : epoch ≠ w.store.run.executionEpoch) : w'.events epoch = w.events epoch := by
  have hk : ∀ {entries : List LogEntry}, w'.log = w.log ++ entries →
      (∀ entry ∈ entries, entry.event? epoch = none) → w'.events epoch = w.events epoch := by
    intro entries hlog hn
    rw [World.events, hlog, filterMap_append, filterMap_eq_nil_iff.2 hn,
      append_nil, World.events]
  obtain ⟨entries, hlog, hn⟩ |
    ⟨g, a, x, codec, now, step, rest, p, -, -, -, performs, hl, -, hlog⟩ := h.performed
  · refine hk hlog fun entry he => ?_
    rw [eq_none_iff_forall_not_mem]
    intro event hev
    obtain ⟨g, rfl⟩ := event?_eq_some.1 hev
    exact hn g epoch _ he
  · refine hk hlog fun entry he => ?_
    rw [mem_singleton.1 he, eq_none_iff_forall_not_mem]
    intro event hev
    obtain ⟨_, heq⟩ := event?_eq_some.1 hev
    cases heq
    exact hep (leaseActive_epoch (performs.emit_active hl)).symm

theorem World.Moves.epoch {w' : World} (h : w.Moves op w') :
    w'.store.run.executionEpoch = w.store.run.executionEpoch ∨
      w'.store.run.executionEpoch = w.store.run.executionEpoch + 1 ∧
        w.store.run.status.rewindable = true ∧ ∀ epoch, w'.events epoch = w.events epoch := by
  cases h with
  | managed _ _ tables | claimed _ _ _ tables | started _ _ _ _ _ _ _ tables
  | finished _ _ _ _ _ _ _ tables => exact .inl tables.executionEpoch
  | worked _ _ _ _ _ _ _ works =>
    exact .inl (congrArg (·.executionEpoch) works.sameRun.1)
  | rewound _ _ _ _ _ rewind =>
    obtain rfl | ⟨_, -, hr, -, hep, -⟩ := rewind_inv rewind
    · exact .inl rfl
    · refine .inr ⟨hep, hr, fun epoch => ?_⟩
      rw [events_record]
      exact append_nil _
  | _ => exact .inl rfl

structure Audit.Consistent (a : Audit) : Prop where
  world : a.world.Settling
  current : a.status a.world.store.run.executionEpoch = some a.world.store.run.status
  past : ∀ epoch status, epoch < a.world.store.run.executionEpoch → a.status epoch = some status →
    ∀ outcome : RunStatus, outcome.Announced → (a.world.HasOutcome epoch outcome ↔ status = outcome)
  future : ∀ epoch, a.world.store.run.executionEpoch < epoch → a.status epoch = none

theorem Audit.Consistent.apply {a : Audit} (h : a.Consistent) (hop : ReportsAnnounced a.world op)
    : (a.apply op).Consistent := by
  have hmv := a.world.apply_moves op
  have hw := h.world.apply hop
  unfold Audit.apply
  generalize a.world.apply op = w' at hmv hw
  -- the log of an epoch that was over before has not changed
  have hold : ∀ epoch status, epoch < a.world.store.run.executionEpoch →
      a.status epoch = some status → ∀ outcome : RunStatus, outcome.Announced →
        (w'.HasOutcome epoch outcome ↔ status = outcome) := by
    intro epoch status hlt hs outcome ho
    unfold World.HasOutcome
    rw [hmv.events hlt.ne]
    exact h.past epoch status hlt hs outcome ho
  refine ⟨hw, if_pos rfl, ?_, ?_⟩
  · intro epoch status hlt hs outcome ho
    change epoch < w'.store.run.executionEpoch at hlt
    change (if epoch = w'.store.run.executionEpoch then some w'.store.run.status
      else a.status epoch) = some status at hs
    rw [if_neg hlt.ne] at hs
    rcases hmv.epoch with hsa | ⟨hn, hr, he⟩
    · exact hold epoch status (hsa ▸ hlt) hs outcome ho
    rcases Nat.lt_succ_iff_lt_or_eq.1 (hn ▸ hlt) with hb | rfl
    · exact hold epoch status hb hs outcome ho
    rw [h.current] at hs
    cases hs
    change w'.HasOutcome _ outcome ↔ _
    unfold World.HasOutcome
    rw [he]
    refine h.world.agrees (fun hrun => ?_) ho
    rw [hrun] at hr
    cases hr
  · intro epoch hlt
    change w'.store.run.executionEpoch < epoch at hlt
    have hle : a.world.store.run.executionEpoch ≤ w'.store.run.executionEpoch := by
      rcases hmv.epoch with hsa | ⟨hn, -⟩ <;> omega
    exact (if_neg hlt.ne').trans (h.future epoch (by omega))

theorem countP_le_one {α : Type} {p : α → Bool} {xs : List α}
    (h : ∀ before x after, xs = before ++ x :: after → p x → after = []) :
    xs.countP p ≤ 1 := by
  by_cases hany : ∃ x ∈ xs, p x = true
  · obtain ⟨x, hx, hp⟩ := hany
    obtain ⟨before, after, hxs⟩ := append_of_mem hx
    obtain rfl := h before x after hxs hp
    have hb : before.countP p = 0 := by
      rw [countP_eq_zero]
      intro z hz hpz
      obtain ⟨first, second, rfl⟩ := append_of_mem hz
      have hnil := h first z (second ++ [x]) (by rw [hxs]; simp) hpz
      simp at hnil
    rw [hxs, countP_append, hb]
    simp [hp]
  · rw [countP_eq_zero.2 fun x hx hp => hany ⟨x, hx, hp⟩]
    exact Nat.zero_le 1

theorem Audit.Consistent.statusAgrees {a : Audit} (h : a.Consistent) : a.StatusAgrees := by
  have ha : ∀ epoch status, a.status epoch = some status →
      allowedRunTransitions status = [] ∨ epoch < a.world.store.run.executionEpoch →
      ∀ outcome : RunStatus, outcome.Announced →
        (a.world.HasOutcome epoch outcome ↔ status = outcome) := by
    intro epoch status hs hov outcome ho
    rcases lt_trichotomy epoch a.world.store.run.executionEpoch with hlt | rfl | hgt
    · exact h.past epoch status hlt hs outcome ho
    · rw [h.current] at hs
      cases hs
      refine h.world.agrees (fun hrun => ?_) ho
      rcases hov with ht | hlt
      · rw [hrun] at ht
        cases ht
      · exact lt_irrefl _ hlt
    · rw [h.future epoch hgt] at hs
      cases hs
  exact
    { completed := fun epoch status hs hov => ha epoch status hs hov _ (.inl rfl)
      failed := fun epoch status hs hov => ha epoch status hs hov _ (.inr rfl)
      single := fun epoch => countP_le_one fun before event after =>
        h.world.last epoch before event after
      last := h.world.last }

theorem World.Settling.submitted (x : Submission) : (submitted x).Settling where
  wellFormed := .submit x
  valid := rfl
  leased := fun _ _ ha => nomatch ha
  unbegun := fun _ _ ha => nomatch ha
  recorded := fun _ _ _ he => nomatch he
  deferred := fun _ _ _ _ ha => nomatch ha
  reported := fun _ _ _ ha => nomatch ha
  settled := by
    rintro (hq | hq) <;> cases hq
  outcomes := fun _ _ _ _ he => nomatch he
  last := by
    intro epoch before event after hev
    cases before <;> cases hev

theorem Audit.Consistent.audited (x : Submission) : (audited x).Consistent where
  world := .submitted x
  current := rfl
  past := by
    intro epoch status hlt hs
    change epoch < (submitted x).store.run.executionEpoch at hlt
    change (if epoch = (submitted x).store.run.executionEpoch then _ else none) = some status
      at hs
    rw [if_neg hlt.ne] at hs
    cases hs
  future := fun epoch hlt => if_neg hlt.ne'

/-- **Status and event log agree**. -/
theorem status_agrees_with_events (x : Submission) (ops : List SystemOp)
    (hops : Admissible Audit.apply (fun a op => ReportsAnnounced a.world op) (audited x) ops) :
    (ops.foldl Audit.apply (audited x)).StatusAgrees :=
  (Admissible.invariant Audit.Consistent (fun _ _ h hop => h.apply hop) (.audited x)
    hops).statusAgrees

/-! ### Reports that follow their event and reports that do not -/

def answeringEnv : LoopEnv :=
  scriptedEnv 10 (fun _ => none)
    [{ events := [.textDelta "done", .responseCompleted .stop] }] (fun _ => { items := [] })

def completedThen (ops : List SystemOp) : List SystemOp :=
  attemptOps 1 answeringEnv 5 100 ++ workOps 1 8 6 ++ ops

theorem status_agrees_with_events_reported :
    Admissible Audit.apply (fun a op => ReportsAnnounced a.world op)
        (audited (scriptedSubmission .autoApprove))
        (completedThen [.heartbeat 1 7 110, .finish 1 8]) ∧
      ((completedThen [.heartbeat 1 7 110, .finish 1 8]).foldl Audit.apply
        (audited (scriptedSubmission .autoApprove))).StatusAgrees :=
  have hops : Admissible Audit.apply (fun a op => ReportsAnnounced a.world op)
      (audited (scriptedSubmission .autoApprove))
      (completedThen [.heartbeat 1 7 110, .finish 1 8]) := by decide
  ⟨hops, status_agrees_with_events _ _ hops⟩

theorem status_disagrees_with_events : ¬ ∀ (x : Submission) (ops : List SystemOp),
      (ops.foldl Audit.apply (audited x)).StatusAgrees := by
  intro h
  have hagrees := h (scriptedSubmission .autoApprove)
    (completedThen
      ([.recoverExpired 101] ++ attemptOps 2 answeringEnv 102 200 ++ workOps 2 8 103))
  have hsingle := hagrees.single 1
  revert hsingle
  decide

end AgentPlatform
