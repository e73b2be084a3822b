/-
**An attempt and the release of its run.**
-/

import AgentPlatform.Histories
import AgentPlatform.WorkerService

namespace AgentPlatform

inductive ProcessStage where
  | entering | working | finishing | leaving
  deriving DecidableEq

def ProcessPoint.stage : ProcessPoint → ProcessStage
  | .starting | .acquiring => .entering
  | .waiting | .reaping _ => .working
  | .finishing _ => .finishing
  | .stoppingHeartbeat | .releasingWorkspace | .ended => .leaving

def WorkerAttempt.stage (a : WorkerAttempt) : ProcessStage := a.point.stage

namespace WorkerAttempt

@[simp] theorem cancelExecutor_log (a : WorkerAttempt) :
    a.cancelExecutor.log = a.log := rfl

@[simp] theorem cancelExecutor_stage (a : WorkerAttempt) :
    a.cancelExecutor.stage = a.stage := rfl

@[simp] theorem cancelExecutor_executing (a : WorkerAttempt) :
    a.cancelExecutor.executing = a.executing := by
  unfold cancelExecutor executing
  cases a.operation with
  | none => rfl
  | some =>
    simp only [map_some, any_some]
    split <;> rfl

@[simp] theorem releaseWorkspace_stage (a : WorkerAttempt) :
    a.releaseWorkspace.stage = .leaving := by
  unfold releaseWorkspace stage
  dsimp only
  split <;> rfl

@[simp] theorem leave_log (a : WorkerAttempt) : a.leave.log = a.log := by
  unfold leave
  dsimp only
  split <;> rfl

@[simp] theorem leave_executing (a : WorkerAttempt) :
    a.leave.executing = a.executing := by
  unfold leave
  dsimp only
  split <;> rfl

@[simp] theorem leave_stage (a : WorkerAttempt) : a.leave.stage = .leaving := by
  unfold leave
  dsimp only
  split
  · exact releaseWorkspace_stage _
  · rfl

end WorkerAttempt

inductive WorkerAttempt.Moves (step : WorkerStep) (a a' : WorkerAttempt) : Prop
  | quiet (hlog : a'.log = a.log) (hexec : a'.executing = a.executing)
      (hstage : a'.stage = a.stage ∨ a'.stage = .leaving)
  | proceeds (hlog : a'.log = a.log) (hexec : a'.executing = false)
      (hover : a.stage = .working → a.executing = false)
      (hstage : a.stage = .entering ∨ a.stage = .working) (hstage' : a'.stage = .working)
  | begins (hlog : a'.log = a.log ++ [.executionStarted]) (hexec : a'.executing = true)
      (hstage : a.stage = .working) (hstage' : a'.stage = .working)
  | acts (hlog : a'.log = a.log ++ [.effect]) (hexec : a.executing = true)
      (hexec' : a'.executing = true) (hstage : a'.stage = a.stage)
  | ends (hlog : a'.log = a.log ++ [.executionEnded]) (hexec : a.executing = true)
      (hexec' : a'.executing = false) (hstage : a'.stage = a.stage)
  | finishes (result : RunExecutionResult) (hlog : a'.log = a.log ++ [.finishCalled result])
      (hexec : a'.executing = a.executing) (hstage : a.stage ≠ .leaving)
      (hstage' : a'.stage = .finishing)
      (htimer : a.stage = .working → a.executing = true → step = .timerFires)

section Moves

variable {step : WorkerStep} {a b a' : WorkerAttempt}

theorem WorkerAttempt.Moves.of_same (h : Moves step b a') (hlog : b.log = a.log)
    (hexec : b.executing = a.executing) (hstage : b.stage = a.stage) : Moves step a a' := by
  cases h with
  | quiet h₁ h₂ h₃ => exact .quiet (hlog ▸ h₁) (hexec ▸ h₂) (hstage ▸ h₃)
  | proceeds h₁ h₂ h₃ h₄ h₅ => exact .proceeds (hlog ▸ h₁) h₂ (hstage ▸ hexec ▸ h₃) (hstage ▸ h₄) h₅
  | begins h₁ h₂ h₃ h₄ => exact .begins (hlog ▸ h₁) h₂ (hstage ▸ h₃) h₄
  | acts h₁ h₂ h₃ h₄ => exact .acts (hlog ▸ h₁) (hexec ▸ h₂) h₃ (hstage ▸ h₄)
  | ends h₁ h₂ h₃ h₄ => exact .ends (hlog ▸ h₁) (hexec ▸ h₂) h₃ (hstage ▸ h₄)
  | finishes r h₁ h₂ h₃ h₄ h₅ =>
    exact .finishes r (hlog ▸ h₁) (hexec ▸ h₂) (hstage ▸ h₃) h₄ (hstage ▸ hexec ▸ h₅)

namespace WorkerAttempt

theorem moves_self : Moves step a a := .quiet rfl rfl (.inl rfl)

theorem leave_moves : Moves step a a.leave :=
  .quiet a.leave_log a.leave_executing (.inr a.leave_stage)

theorem handle_cancelled_moves : Moves step a (a.handle .cancelled) :=
  .quiet (by simp [handle]) (by simp [handle]) (.inr (by simp [handle]))

theorem handle_moves (raised : Raised) (hstage : a.stage ≠ .leaving)
    (htimer : a.stage = .working → a.executing → step = .timerFires) :
    Moves step a (a.handle raised) := by
  cases raised with
  | cancelled => exact handle_cancelled_moves
  | timeout =>
    exact .finishes (failedResult runTimeout) rfl a.cancelExecutor_executing hstage rfl htimer
  | domain =>
    unfold handle
    dsimp only
    split
    · exact handle_cancelled_moves
    · split
      · exact .finishes _ rfl a.cancelExecutor_executing hstage rfl htimer
      · exact .finishes _ rfl rfl hstage rfl htimer
  | other => exact .finishes _ rfl rfl hstage rfl htimer

theorem await_moves {phase : Phase} (hph : phase ≠ .execute)
    (hover : a.stage = .working → a.executing = false)
    (hstage : a.stage = .entering ∨ a.stage = .working) : Moves step a (a.await phase) :=
  .proceeds (by simp [await, hph]) (by simp [await, executing, hph]) hover hstage rfl

theorem await_execute_moves (hstage : a.stage = .working) :
    Moves step a (a.await .execute) :=
  .begins rfl rfl hstage rfl

theorem afterSlot_moves (hstage : a.stage = .working) (hover : a.executing = false) :
    Moves step a a.afterSlot := by
  unfold afterSlot
  split
  · exact await_execute_moves hstage
  · split
    · exact await_execute_moves hstage
    · exact await_moves (by decide) (fun _ => hover) (.inr hstage)
    · exact handle_moves _ (by simp [hstage]) fun _ h => absurd h (by simp [hover])

theorem advance_moves (result : PhaseResult) (hstage : a.stage = .working)
    (hover : a.executing = false) : Moves step a (a.advance result) := by
  cases result with
  | recovered recovery =>
    have h : Moves step { a with recovery := some recovery } _ :=
      await_moves (show Phase.slot ≠ .execute by decide) (fun _ => hover) (.inr hstage)
    exact h.of_same rfl rfl rfl
  | acquired =>
    have h : Moves step { a with sandboxSlot := true } _ := afterSlot_moves hstage hover
    exact h.of_same rfl rfl rfl
  | restored => exact await_execute_moves hstage
  | executed result =>
    exact .finishes result rfl rfl (by simp [hstage]) rfl fun _ h => absurd h (by simp [hover])

theorem not_executing_of_outcome {op : Operation}
    {outcome : Except Raised PhaseResult} (hop : a.operation = some op)
    (hout : op.outcome = some outcome) : a.executing = false := by
  simp [executing, hop, hout]

theorem resume_moves : Moves step a a.resume := by
  unfold resume
  split
  next op hp hop =>
    have hstage : a.stage = .working := by simp [stage, hp, ProcessPoint.stage]
    split
    · exact handle_cancelled_moves
    · exact .quiet rfl rfl (.inl (by rw [hstage]; rfl))
    next result hout _ _ => exact advance_moves _ hstage (not_executing_of_outcome hop hout)
    next raised hout _ _ =>
      have hover := not_executing_of_outcome hop hout
      exact handle_moves _ (by simp [hstage]) fun _ h => absurd h (by simp [hover])
    · exact moves_self
  next error op hp hop =>
    have hstage : a.stage = .working := by simp [stage, hp, ProcessPoint.stage]
    -- the awaited operation has ended, with whatever outcome
    have hr : ∀ raised outcome, op.outcome = some outcome → Moves step a (a.handle raised) := by
      intro raised outcome hout
      have hover := not_executing_of_outcome hop hout
      exact handle_moves raised (by simp [hstage]) fun _ h => absurd h (by simp [hover])
    split
    · exact moves_self
    · exact hr _ _ ‹_›
    · exact hr _ _ ‹_›
    · exact hr _ _ ‹_›
  · exact moves_self

theorem started_moves (answer : Except Raised RunLease)
    (hp : a.point = .starting) : Moves step a (a.started answer) := by
  have hstage : a.stage = .entering := by simp [stage, hp, ProcessPoint.stage]
  cases answer with
  | error raised => exact handle_moves raised (by simp [hstage]) (by simp [hstage])
  | ok =>
    unfold started
    dsimp only
    split
    · exact .finishes _ rfl rfl (by simp [hstage]) rfl (by simp [hstage])
    · exact .quiet rfl rfl (.inl (by rw [hstage]; rfl))

theorem acquired_moves (answer : Except Raised (Option WorkspaceWriterLease))
    (hp : a.point = .acquiring) : Moves step a (a.acquired answer) := by
  have hstage : a.stage = .entering := by simp [stage, hp, ProcessPoint.stage]
  unfold acquired
  split
  · exact handle_moves _ (by simp [hstage]) (by simp [hstage])
  have hba : ∀ b : WorkerAttempt, b.stage = a.stage → b.log = a.log →
      b.executing = a.executing → Moves step a (b.await .load) := by
    intro b hb hlog hexec
    have hb' : b.stage = .entering := hb.trans hstage
    exact (await_moves (by decide) (by simp [hb']) (.inl hb')).of_same hlog hexec hb
  exact hba _ rfl rfl rfl

theorem finished_moves {site : FinishSite} (answer : Except Raised Unit)
    (hp : a.point = .finishing site) : Moves step a (a.finished site answer) := by
  have hstage : a.stage = .finishing := by simp [stage, hp, ProcessPoint.stage]
  cases answer with
  | ok => exact leave_moves
  | error raised =>
    cases site with
    | body => exact handle_moves raised (by simp [hstage]) (by simp [hstage])
    | handler => exact leave_moves

theorem cancelled_moves : Moves step a a.cancelled := by
  unfold cancelled
  split
  · exact handle_cancelled_moves
  · exact handle_cancelled_moves
  · exact handle_cancelled_moves
  · exact handle_cancelled_moves
  · exact moves_self
  · exact moves_self
  · exact leave_moves
  · exact .quiet rfl rfl (.inr rfl)
  · exact .quiet rfl rfl (.inr rfl)

theorem executing_of_operation {op : Operation} (hop : a.operation = some op)
    (hph : op.phase = .execute) (hout : op.outcome = none) : a.executing := by
  simp [executing, hop, hph, hout]

theorem endExecution_moves {op : Operation}
    (outcome : Except Raised RunExecutionResult) (hop : a.operation = some op)
    (hph : op.phase = .execute) (hout : op.outcome = none) :
    Moves step a (a.endExecution op outcome) :=
  .ends rfl (executing_of_operation hop hph hout)
    (not_executing_of_outcome rfl rfl) rfl

theorem ite_rule {P : WorkerAttempt → Prop} {p : Prop} [Decidable p] (h : P a)
    (hb : p → P b) : P (if p then b else a) := by
  split
  · exact hb ‹p›
  · exact h

theorem task_rule {P : WorkerAttempt → Prop} {p : Operation → Prop} [DecidablePred p]
    {f : Operation → WorkerAttempt} (h : P a)
    (hf : ∀ op, a.operation = some op → p op → P (f op)) :
    P (match a.operation with | some op => if p op then f op else a | none => a) := by
  split
  · exact ite_rule h (hf _ ‹_›)
  · exact h

theorem apply_moves (a : WorkerAttempt) (step : WorkerStep) :
    Moves step a (a.apply step) := by
  cases step with
  | startReturns answer => exact ite_rule (P := Moves _ a) moves_self (started_moves answer)
  | acquireReturns answer => exact ite_rule (P := Moves _ a) moves_self (acquired_moves answer)
  | phaseEnds =>
    exact task_rule (P := Moves _ a) moves_self fun op hop hop' =>
      .quiet rfl (by simp [executing, hop, Operation.settle, hop'.1]) (.inl rfl)
  | executionRegisters =>
    exact task_rule (P := Moves _ a) moves_self fun op hop _ =>
      .quiet rfl (by simp [executing, hop]) (.inl rfl)
  | executionActs =>
    refine task_rule (P := Moves _ a) moves_self fun op hop hop' => ?_
    have hexec := executing_of_operation hop hop'.1 hop'.2.1
    exact .acts rfl hexec hexec rfl
  | executionEnds | executionRefused =>
    exact task_rule (P := Moves _ a) moves_self fun op hop hop' =>
      endExecution_moves _ hop hop'.1 hop'.2.1
  | heartbeatCancels =>
    exact ite_rule (P := Moves _ a) moves_self fun _ =>
      .quiet rfl a.cancelExecutor_executing (.inl rfl)
  | heartbeatStops =>
    exact ite_rule (P := Moves _ a) moves_self fun _ => .quiet rfl rfl (.inl rfl)
  | resumes => exact resume_moves
  | timerFires =>
    exact ite_rule (P := Moves _ a) moves_self fun h =>
      handle_moves _ (by simp [stage, h.1, ProcessPoint.stage]) fun _ _ => rfl
  | shutdown => exact cancelled_moves
  | finishReturns answer =>
    rw [apply]
    split
    · exact finished_moves answer ‹_›
    · exact moves_self
  | heartbeatReaped =>
    rw [apply]
    split
    · exact .quiet rfl rfl (.inr rfl)
    · exact .quiet rfl rfl (.inr rfl)
    · exact .quiet rfl rfl (.inr a.releaseWorkspace_stage)
    · exact moves_self
  | workspaceReleased =>
    exact ite_rule (P := Moves _ a) moves_self fun _ => .quiet rfl rfl (.inr rfl)

end WorkerAttempt

end Moves

/-- At every call of `queue.finish` the execution task of the attempt has ended, if there was one,
and no execution starts and no effect of one happens afterwards. -/
def AttemptOver (log : List AttemptEvent) : Prop :=
  ∀ past result later, log = past ++ .finishCalled result :: later →
    (.executionStarted ∈ past → .executionEnded ∈ past) ∧
      .executionStarted ∉ later ∧ .effect ∉ later

def WorkerAttempt.TimerIdle (a : WorkerAttempt) (step : WorkerStep) : Prop :=
  step = .timerFires → a.point = .waiting → a.executing = false

instance (a : WorkerAttempt) (step : WorkerStep) : Decidable (a.TimerIdle step) :=
  inferInstanceAs (Decidable (_ → _ → _))

structure WorkerAttempt.Ordered (a : WorkerAttempt) : Prop where
  entering : a.stage = .entering → a.executing = false
  logged : .executionStarted ∈ a.log → a.executing = true ∨ .executionEnded ∈ a.log
  finishing : a.stage = .finishing → a.executing = false
  released : ∀ result, .finishCalled result ∈ a.log →
    a.executing = false ∧ (a.stage = .finishing ∨ a.stage = .leaving)
  ended : AttemptOver a.log

section Order

variable {step : WorkerStep} {a a' : WorkerAttempt}

theorem AttemptOver.concat {log : List AttemptEvent} {event : AttemptEvent} (h : AttemptOver log)
    (hev : (∃ result, .finishCalled result ∈ log) → event ≠ .executionStarted ∧ event ≠ .effect)
    (hf : ∀ result, event = .finishCalled result →
      .executionStarted ∈ log → .executionEnded ∈ log) : AttemptOver (log ++ [event]) := by
  intro past result later hs
  obtain ⟨later', hl, hold⟩ | ⟨hlog, hnew, hl⟩ :
      (∃ later', later = later' ++ [event] ∧ log = past ++ .finishCalled result :: later') ∨
        past = log ∧ .finishCalled result = event ∧ later = [] := by
    rcases List.eq_nil_or_concat later with rfl | ⟨later', e, rfl⟩
    · obtain ⟨hp, he⟩ := List.append_inj' hs rfl
      exact .inr ⟨hp.symm, (List.cons.inj he).1.symm, rfl⟩
    · rw [List.concat_eq_append, ← cons_append, ← append_assoc] at hs
      obtain ⟨hp, he⟩ := List.append_inj' hs rfl
      obtain ⟨rfl, -⟩ := List.cons.inj he
      exact .inl ⟨later', by simp, hp⟩
  · obtain ⟨hend, hst, hef⟩ := h past result later' hold
    obtain ⟨hne, hne'⟩ := hev ⟨result, by simp [hold]⟩
    subst hl
    refine ⟨hend, ?_, ?_⟩
    · simp [hst, hne.symm]
    · simp [hef, hne'.symm]
  · subst hlog hl
    exact ⟨hf result hnew.symm, by simp, by simp⟩

theorem WorkerAttempt.Ordered.unreleased (h : a.Ordered)
    (hrun : a.executing ∨ a.stage = .working) (result : RunExecutionResult) :
    .finishCalled result ∉ a.log := by
  intro hr
  obtain ⟨hi, hstage⟩ := h.released result hr
  rcases hrun with hrun | hrun
  · simp [hrun] at hi
  · simp [hrun] at hstage

theorem WorkerAttempt.Ordered.of_moves (h : a.Ordered) (hm : a.Moves step a')
    (htimer : a.stage = .working → step = .timerFires → a.executing = false) : a'.Ordered := by
  cases hm with
  | quiet hlog hexec hstage =>
    refine ⟨fun hs => ?_, by rw [hlog, hexec]; exact h.logged, fun hs => ?_, ?_, hlog ▸ h.ended⟩
    · rcases hstage with hstage | hstage
      · exact hexec.trans (h.entering (hstage.symm.trans hs))
      · simp [hs] at hstage
    · rcases hstage with hstage | hstage
      · exact hexec.trans (h.finishing (hstage.symm.trans hs))
      · simp [hs] at hstage
    · intro result hr
      obtain ⟨hi, hst⟩ := h.released result (hlog ▸ hr)
      refine ⟨hexec.trans hi, ?_⟩
      rcases hstage with hstage | hstage
      · exact hstage ▸ hst
      · exact .inr hstage
  | proceeds hlog hexec hover hstage =>
    have hi : a.executing = false := hstage.elim h.entering hover
    refine ⟨fun _ => hexec, ?_, fun _ => hexec, ?_, hlog ▸ h.ended⟩
    · intro hs
      exact .inr (hlog ▸ (h.logged (hlog ▸ hs)).resolve_left (by simp [hi]))
    · intro result hr
      have hst := (h.released result (hlog ▸ hr)).2
      rcases hstage with hs | hs <;> simp [hs] at hst
  | begins hlog hexec hstage hstage' =>
    have hn := h.unreleased (.inr hstage)
    refine ⟨by simp [hstage'], fun _ => .inl hexec, by simp [hstage'], ?_, ?_⟩
    · intro result hr
      exact absurd (by simpa [hlog] using hr) (hn result)
    · rw [hlog]
      exact h.ended.concat (fun ⟨result, hr⟩ => absurd hr (hn result)) (by simp)
  | acts hlog hexec hexec' hstage =>
    have hn := h.unreleased (.inl hexec)
    refine ⟨?_, fun _ => .inl hexec', ?_, ?_, ?_⟩
    · intro hs
      have := h.entering (hstage.symm.trans hs)
      simp [hexec] at this
    · intro hs
      have := h.finishing (hstage.symm.trans hs)
      simp [hexec] at this
    · intro result hr
      exact absurd (by simpa [hlog] using hr) (hn result)
    · rw [hlog]
      exact h.ended.concat (fun ⟨result, hr⟩ => absurd hr (hn result)) (by simp)
  | ends hlog hexec hexec' =>
    have hn := h.unreleased (.inl hexec)
    refine ⟨fun _ => hexec', fun _ => .inr (by simp [hlog]), fun _ => hexec', ?_, ?_⟩
    · intro result hr
      exact absurd (by simpa [hlog] using hr) (hn result)
    · rw [hlog]
      exact h.ended.concat (fun ⟨result, hr⟩ => absurd hr (hn result)) (by simp)
  | finishes _ hlog hexec hstage hstage' hw =>
    have hi : a.executing = false := by
      cases hs : a.stage with
      | entering => exact h.entering hs
      | finishing => exact h.finishing hs
      | leaving => exact absurd hs hstage
      | working =>
        by_contra hrun
        have hrun' : a.executing := by simpa using hrun
        exact hrun (htimer hs (hw hs hrun'))
    have hend : .executionStarted ∈ a.log → .executionEnded ∈ a.log :=
      fun hs => (h.logged hs).resolve_left (by simp [hi])
    refine ⟨by simp [hstage'], ?_, fun _ => hexec.trans hi,
      fun _ _ => ⟨hexec.trans hi, .inl hstage'⟩, ?_⟩
    · intro hs
      exact .inr (by simpa [hlog] using hend (by simpa [hlog] using hs))
    · rw [hlog]
      exact h.ended.concat (by simp) fun _ _ => hend

theorem claimedAttempt_ordered (lease : RunLease) : (claimedAttempt lease).Ordered where
  entering _ := rfl
  logged := by simp [claimedAttempt]
  finishing _ := rfl
  released := by simp [claimedAttempt]
  ended := by simp [AttemptOver, claimedAttempt]

theorem WorkerAttempt.Ordered.apply (h : a.Ordered) (hi : a.TimerIdle step) :
    (a.apply step).Ordered := by
  by_cases hf : step = .timerFires ∧ a.point ≠ .waiting
  · obtain ⟨rfl, hp⟩ := hf
    have hs : a.apply .timerFires = a := if_neg fun hw => hp hw.1
    rw [hs]
    exact h
  · refine h.of_moves (a.apply_moves step) fun _ hst => hi hst ?_
    exact not_not.1 fun hp => hf ⟨hst, hp⟩

end Order

/-- **An attempt is over before its run is released**. -/
theorem attempt_over_before_release (lease : RunLease) (steps : List WorkerStep)
    (h : History.Admissible WorkerAttempt.apply WorkerAttempt.TimerIdle (claimedAttempt lease)
      steps) :
    AttemptOver (steps.foldl WorkerAttempt.apply (claimedAttempt lease)).log :=
  (h.invariant WorkerAttempt.Ordered (fun _ _ hs hidle => hs.apply hidle)
    (claimedAttempt_ordered lease)).ended

def timedLease : RunLease :=
  { tenantId := 1, runId := 2, sessionId := 3, workspaceId := 4, workerId := "worker-a",
    routeName := "default", leaseToken := 5, generation := 1, attempt := 1, executionEpoch := 1,
    acquiredAt := 0, expiresAt := 60, checkpointId := none, cancellationRequested := false }

def timedWorkspaceLease : WorkspaceWriterLease :=
  { tenantId := 1, workspaceId := 4, runId := 2, workerId := "worker-a", runLeaseToken := 5,
    leaseToken := 6, generation := 1, acquiredAt := 0, expiresAt := 60 }

def stepsToExecution : List WorkerStep :=
  [.startReturns (.ok timedLease), .acquireReturns (.ok (some timedWorkspaceLease)),
    .phaseEnds (.ok (.recovered { messages := [] })), .resumes, .phaseEnds (.ok .acquired),
    .resumes, .executionRegisters]

def lateTimeout : List WorkerStep :=
  stepsToExecution ++ [.executionActs, .executionEnds (.ok { status := .completed }) (.ok ()),
    .timerFires, .finishReturns (.ok ())]

theorem attempt_over_before_release_late_timeout :
    (lateTimeout.foldl WorkerAttempt.apply (claimedAttempt timedLease)).log =
        [.executionStarted, .effect, .executionEnded, .finishCalled (failedResult runTimeout)] ∧
      AttemptOver (lateTimeout.foldl WorkerAttempt.apply (claimedAttempt timedLease)).log :=
  ⟨by decide, attempt_over_before_release timedLease lateTimeout (by decide)⟩

theorem timeout_releases_running_attempt : ¬ ∀ (lease : RunLease) (steps : List WorkerStep),
      AttemptOver (steps.foldl WorkerAttempt.apply (claimedAttempt lease)).log := by
  intro h
  have hlog : ((stepsToExecution ++ [WorkerStep.timerFires, .executionActs]).foldl WorkerAttempt.apply
      (claimedAttempt timedLease)).log =
      [.executionStarted] ++ .finishCalled (failedResult runTimeout) :: [.effect] := by decide
  have hover := h timedLease _ [.executionStarted] (failedResult runTimeout) [.effect] hlog
  simp at hover

end AgentPlatform
