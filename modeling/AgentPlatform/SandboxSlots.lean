/-
**Sandbox slots of a worker.**
-/

import AgentPlatform.AttemptRelease

namespace AgentPlatform

open WorkerAttempt WorkerStep List

def WorkerAttempt.task (a : WorkerAttempt) : Option (Phase × Option (Except Raised PhaseResult)) :=
  a.operation.map fun op => (op.phase, op.outcome)

def WorkerAttempt.slotPending (a : WorkerAttempt) : Bool := a.task = some (.slot, none)

def WorkerStep.acquires : WorkerStep → Bool
  | .phaseEnds (.ok .acquired) => true
  | _ => false

structure SlotWorker where
  permits : ℕ
  attempts : List WorkerAttempt := []

inductive SlotOp where
  | claim (lease : RunLease)
  | step (i : ℕ) (step : WorkerStep)

def SlotWorker.apply (w : SlotWorker) : SlotOp → SlotWorker
  | .claim lease => { w with attempts := w.attempts ++ [claimedAttempt lease] }
  | .step i step =>
    match w.attempts[i]? with
    | none => w
    | some a =>
      let a' := a.apply step
      if a.slotPending && step.acquires then
        match a.point with
        | .reaping _ => w
        | _ =>
          if w.permits = 0 then w
          else { permits := w.permits - 1, attempts := w.attempts.set i a' }
      else
        { permits := w.permits + (a.sandboxSlot && !a'.sandboxSlot).toNat
          attempts := w.attempts.set i a' }

namespace WorkerAttempt

def awaitsSlot (a : WorkerAttempt) : Bool := a.point = .waiting && a.task.any (·.1 = .slot)

def holdsSlot (a : WorkerAttempt) : Bool :=
  a.sandboxSlot || a.point = .waiting && a.task = some (.slot, some (.ok .acquired))

def KeepsSlot (a : WorkerAttempt) : WorkerStep → Prop
  | .shutdown => a.awaitsSlot = false
  | .resumes => a.awaitsSlot = true →
      a.heartbeat = .absent ∨ a.heartbeat = .beating ∨
        a.slotPending = true ∧ a.heartbeat ≠ .stopped (some .cancelled)
  | _ => True

instance (a : WorkerAttempt) (step : WorkerStep) : Decidable (a.KeepsSlot step) := by
  unfold KeepsSlot
  split <;> infer_instance

structure SlotSafe (a : WorkerAttempt) : Prop where
  entering : a.stage = .entering → a.sandboxSlot = false
  early : a.stage = .working → ∀ x ∈ a.task, x.1 = .load ∨ x.1 = .slot → a.sandboxSlot = false
  left : a.stage = .leaving → a.sandboxSlot = false
  pending : a.slotPending = true → a.stage = .working
  fits : ∀ phase r, a.task = some (phase, some (.ok r)) → r.phase = phase

structure Outside (a : WorkerAttempt) : Prop where
  idle : a.slotPending = false
  noted : a.holdsSlot = a.sandboxSlot
  fits : ∀ phase r, a.task = some (phase, some (.ok r)) → r.phase = phase

structure Keeps (a a' : WorkerAttempt) : Prop where
  safe : a'.SlotSafe
  slots : a'.holdsSlot.toNat + (a.sandboxSlot && !a'.sandboxSlot).toNat = a.holdsSlot.toNat

variable {a b a' : WorkerAttempt} {step : WorkerStep}

theorem holdsSlot_of_not_awaits (h : a.awaitsSlot = false) : a.holdsSlot = a.sandboxSlot := by
  unfold awaitsSlot at h
  unfold holdsSlot
  by_cases ht : a.task = some (.slot, some (.ok .acquired))
  · rw [ht] at h ⊢
    simp_all
  · simp [ht]

theorem SlotSafe.outside (h : a.SlotSafe) (hst : a.stage ≠ .working) : a.Outside := by
  have hw : a.point ≠ .waiting := fun hw => hst (by rw [stage, hw]; rfl)
  exact ⟨Bool.eq_false_iff.2 fun hp => hst (h.pending hp),
    holdsSlot_of_not_awaits (by simp [awaitsSlot, hw]), h.fits⟩

theorem SlotSafe.outside_of_phase (h : a.SlotSafe) {op : Operation} (hop : a.operation = some op)
    (hph : op.phase ≠ .slot) : a.Outside :=
  ⟨by simp [slotPending, task, hop, hph],
    holdsSlot_of_not_awaits (by simp [awaitsSlot, task, hop, hph]), h.fits⟩

theorem SlotSafe.keeps_frame (h : a.SlotSafe) (hs : a'.sandboxSlot = a.sandboxSlot)
    (ht : a'.task = a.task) (hp : a'.point = a.point) : Keeps a a' := by
  have hst : a'.stage = a.stage := congrArg ProcessPoint.stage hp
  refine ⟨⟨hst ▸ hs ▸ h.entering, ?_, hst ▸ hs ▸ h.left, ?_, ht ▸ h.fits⟩, ?_⟩
  · rw [hst, hs, ht]
    exact h.early
  · rw [hst, slotPending, ht]
    exact h.pending
  · simp [holdsSlot, hs, ht, hp]

theorem SlotSafe.keeps_self (h : a.SlotSafe) : Keeps a a := h.keeps_frame rfl rfl rfl

theorem Outside.exit (h : a.Outside) (ht : a'.task = a.task)
    (hs : a'.stage = .finishing ∧ a'.sandboxSlot = a.sandboxSlot ∨
      a'.stage = .leaving ∧ a'.sandboxSlot = false) : Keeps a a' := by
  have hst : a'.stage ≠ .entering ∧ a'.stage ≠ .working := by
    rcases hs with ⟨hs, -⟩ | ⟨hs, -⟩ <;> simp [hs]
  have hw : a'.point ≠ .waiting := fun hw => hst.2 (by rw [stage, hw]; rfl)
  have hh' : a'.holdsSlot = a'.sandboxSlot := by simp [holdsSlot, hw]
  refine ⟨⟨fun he => absurd he hst.1, fun hw => absurd hw hst.2, fun hl => ?_, fun hp => ?_,
    ht ▸ h.fits⟩, ?_⟩
  · rcases hs with ⟨hs, -⟩ | ⟨-, hs⟩
    · rw [hs] at hl
      cases hl
    · exact hs
  · rw [slotPending, ht] at hp
    exact absurd hp (Bool.eq_false_iff.1 h.idle)
  · rw [h.noted, hh']
    rcases hs with ⟨-, hs⟩ | ⟨-, hs⟩ <;> rw [hs] <;> cases a.sandboxSlot <;> rfl

theorem cancelExecutor_task (a : WorkerAttempt) : a.cancelExecutor.task = a.task := by
  unfold task cancelExecutor
  cases a.operation with
  | none => rfl
  | some =>
    dsimp only [map_some]
    split <;> rfl

theorem leave_fields (a : WorkerAttempt) : a.leave.task = a.task ∧ a.leave.sandboxSlot = false := by
  unfold leave
  dsimp only
  split <;> exact ⟨rfl, rfl⟩

theorem Outside.leave (h : a.Outside) : Keeps a a.leave :=
  h.exit a.leave_fields.1 (.inr ⟨a.leave_stage, a.leave_fields.2⟩)

theorem Outside.handle (h : a.Outside) (raised : Raised) : Keeps a (a.handle raised) := by
  have hleave : Keeps a a.cancelExecutor.leave :=
    h.exit ((leave_fields _).1.trans a.cancelExecutor_task)
      (.inr ⟨leave_stage _, (leave_fields _).2⟩)
  have hfinish : ∀ result, Keeps a (a.cancelExecutor.finish .handler result) := fun _ =>
    h.exit a.cancelExecutor_task (.inl ⟨rfl, rfl⟩)
  cases raised with
  | cancelled => exact hleave
  | timeout => exact hfinish _
  | other => exact h.exit rfl (.inl ⟨rfl, rfl⟩)
  | domain =>
    unfold WorkerAttempt.handle
    dsimp only
    split
    · exact hleave
    · split
      · exact hfinish _
      · exact h.exit rfl (.inl ⟨rfl, rfl⟩)

theorem await_keeps {phase : Phase} (hh : a.holdsSlot = a.sandboxSlot)
    (hs : phase = .load ∨ phase = .slot → a.sandboxSlot = false) : Keeps a (a.await phase) := by
  refine ⟨⟨nofun, fun _ x hx => ?_, nofun, fun _ => rfl, fun _ r hr => ?_⟩, ?_⟩
  · cases hx
    exact hs
  · cases hr
  · rw [hh]
    simp [holdsSlot, await, task]

theorem SlotSafe.keeps_end (h : a.SlotSafe) {op : Operation} {outcome : Except Raised PhaseResult}
    (hop : a.operation = some op) (ht : a'.task = some (op.phase, some outcome))
    (hfit : ∀ r, outcome = .ok r → r.phase = op.phase)
    (hslot : op.phase = .slot → op.outcome = none ∧ ∃ e, outcome = .error e)
    (hs : a'.sandboxSlot = a.sandboxSlot) (hp : a'.point = a.point) : Keeps a a' := by
  have hst : a'.stage = a.stage := congrArg ProcessPoint.stage hp
  have ht₀ : a.task = some (op.phase, op.outcome) := by simp [task, hop]
  refine ⟨⟨hst ▸ hs ▸ h.entering, fun hw x hx hph => ?_, hst ▸ hs ▸ h.left, fun hpend => ?_,
    fun _ r hr => ?_⟩, ?_⟩
  · rw [ht] at hx
    cases hx
    exact hs.trans (h.early (hst ▸ hw) _ ht₀ hph)
  · simp [slotPending, ht] at hpend
  · rw [ht] at hr
    cases hr
    exact hfit r rfl
  · by_cases hps : op.phase = .slot
    · obtain ⟨hn, e, he⟩ := hslot hps
      simp [holdsSlot, hs, hp, ht, ht₀, hn, he]
    · simp [holdsSlot, hs, hp, ht, ht₀, hps]

theorem afterSlot_noted (hs : a.sandboxSlot) (h : a.Outside) :
    a.afterSlot.SlotSafe ∧ a.afterSlot.sandboxSlot := by
  have hexec : (a.await .execute).SlotSafe := (await_keeps h.noted (by simp)).safe
  unfold afterSlot
  split
  · exact ⟨hexec, hs⟩
  · split
    · exact ⟨hexec, hs⟩
    · exact ⟨(await_keeps h.noted (by simp)).safe, hs⟩
    · exact ⟨(h.handle _).safe, hs⟩

theorem SlotSafe.resume (h : a.SlotSafe) (hk : a.KeepsSlot .resumes) : Keeps a a.resume := by
  unfold WorkerAttempt.resume
  split
  next op hw hop =>
    have hwork : a.stage = .working := by rw [stage, hw]; rfl
    have hslot : op.phase = .slot → a.heartbeat = .absent ∨ a.heartbeat = .beating ∨
        op.outcome = none ∧ a.heartbeat ≠ .stopped (some .cancelled) := fun hps => by
      simpa [slotPending, task, hop, hps] using hk (by simp [awaitsSlot, task, hw, hop, hps])
    have ht : a.task = some (op.phase, op.outcome) := by simp [task, hop]
    split
    next hb =>
      refine (h.outside_of_phase hop fun hps => ?_).handle _
      simpa [hb] using hslot hps
    next hb =>
      refine ⟨⟨by simp [stage, ProcessPoint.stage], fun _ => h.early hwork,
        by simp [stage, ProcessPoint.stage], fun _ => rfl, h.fits⟩, ?_⟩
      have hh : a.holdsSlot = a.sandboxSlot := by
        by_cases hps : op.phase = .slot
        · have hn := hslot hps
          simp only [hb, reduceCtorEq, false_or] at hn
          simp [holdsSlot, ht, hn.1]
        · exact (h.outside_of_phase hop hps).noted
      rw [hh]
      simp [holdsSlot]
    next result hou _ _ =>
      rw [hou] at ht
      have hfit := h.fits _ result ht
      cases result with
      | recovered recovery =>
        have hph : op.phase = .load := hfit.symm
        have hkeep : Keeps { a with recovery := some recovery } (await _ .slot) :=
          await_keeps (h.outside_of_phase hop (by simp [hph])).noted
            fun _ => h.early hwork _ ht (.inl hph)
        exact ⟨hkeep.safe, hkeep.slots⟩
      | acquired =>
        have hph : op.phase = .slot := hfit.symm
        have hs := h.early hwork _ ht (.inr hph)
        have hout : Outside { a with sandboxSlot := true } :=
          ⟨by simp [slotPending, task, hop, hou], by simp [holdsSlot], h.fits⟩
        obtain ⟨hsafe, hnoted⟩ := afterSlot_noted rfl hout
        have hheld : a.holdsSlot := by simp [holdsSlot, hw, ht, hph]
        refine ⟨hsafe, ?_⟩
        rw [hheld, hs, advance, holdsSlot, hnoted]
        rfl
      | restored =>
        have hph : op.phase = .restore := hfit.symm
        exact await_keeps (h.outside_of_phase hop (by simp [hph])).noted (by simp)
      | executed =>
        have hph : op.phase = .execute := hfit.symm
        exact (h.outside_of_phase hop (by simp [hph])).exit rfl (.inl ⟨rfl, rfl⟩)
    next hou _ _ =>
      exact Outside.handle ⟨by simp [slotPending, ht, hou], by simp [holdsSlot, ht, hou], h.fits⟩ _
    · exact h.keeps_self
  next hr hop =>
    have hh : a.holdsSlot = a.sandboxSlot := holdsSlot_of_not_awaits (by simp [awaitsSlot, hr])
    split
    · exact h.keeps_self
    all_goals
      rename_i hou
      exact Outside.handle ⟨by simp [slotPending, task, hop, hou], hh, h.fits⟩ _
  · exact h.keeps_self

theorem SlotSafe.endExecution (h : a.SlotSafe) {op : Operation}
    {outcome : Except Raised RunExecutionResult} (hop : a.operation = some op)
    (hph : op.phase = .execute) : Keeps a (a.endExecution op outcome) := by
  refine h.keeps_end hop rfl (fun r hr => ?_) (by simp [hph]) rfl rfl
  cases outcome with
  | error => cases hr
  | ok =>
    cases hr
    exact hph.symm

theorem SlotSafe.ends (h : a.SlotSafe) (hst : a.stage = .leaving) (hst' : a'.stage = .leaving)
    (hs : a'.sandboxSlot = a.sandboxSlot) (ht : a'.task = a.task) : Keeps a a' :=
  (h.outside (by simp [hst])).exit ht (.inr ⟨hst', hs.trans (h.left hst)⟩)

theorem SlotSafe.apply (h : a.SlotSafe) (hk : a.KeepsSlot step)
    (hn : (a.slotPending && step.acquires) = false) : Keeps a (a.apply step) := by
  have self := h.keeps_self
  cases step with
  | startReturns answer =>
    refine ite_rule (P := Keeps a) self fun hpt => ?_
    have hst : a.stage = .entering := by rw [stage, hpt]; rfl
    have hout := h.outside (by simp [hst])
    unfold started
    split
    · exact hout.handle _
    dsimp only
    split
    · exact hout.exit rfl (.inl ⟨rfl, rfl⟩)
    · refine ⟨⟨fun _ => h.entering hst, by simp [stage, ProcessPoint.stage],
        by simp [stage, ProcessPoint.stage], fun hp => ?_, h.fits⟩, ?_⟩
      · exact absurd hp (Bool.eq_false_iff.1 hout.idle)
      · rw [hout.noted]
        simp [holdsSlot]
  | acquireReturns answer =>
    refine ite_rule (P := Keeps a) self fun hpt => ?_
    have hst : a.stage = .entering := by rw [stage, hpt]; rfl
    have hout := h.outside (by simp [hst])
    unfold acquired
    split
    · exact hout.handle _
    next w _ =>
      have hkeep : Keeps { a with workspaceLease := some w, heartbeat := .beating }
          (await _ .load) := await_keeps hout.noted fun _ => h.entering hst
      exact ⟨hkeep.safe, hkeep.slots⟩
  | phaseEnds outcome =>
    refine task_rule (P := Keeps a) self fun op hop hc => ?_
    refine h.keeps_end hop rfl (fun r hr => ?_) (fun hps => ⟨hc.2.1, ?_⟩) rfl rfl
    · cases hr
      exact of_decide_eq_true hc.2.2
    · cases outcome with
      | error e => exact ⟨e, rfl⟩
      | ok r =>
        have hr : r.phase = .slot := (of_decide_eq_true hc.2.2).trans hps
        cases r with
        | acquired => simp [slotPending, task, hop, hps, hc.2.1, acquires] at hn
        | recovered | restored | executed => cases hr
  | executionRegisters =>
    exact task_rule (P := Keeps a) self fun op hop _ =>
      h.keeps_frame rfl (by simp [task, hop]) rfl
  | executionActs => exact task_rule (P := Keeps a) self fun _ _ _ => h.keeps_frame rfl rfl rfl
  | executionEnds | executionRefused =>
    exact task_rule (P := Keeps a) self fun _ hop hc => h.endExecution hop hc.1
  | heartbeatCancels =>
    exact ite_rule (P := Keeps a) self fun _ => h.keeps_frame rfl a.cancelExecutor_task rfl
  | heartbeatStops => exact ite_rule (P := Keeps a) self fun _ => h.keeps_frame rfl rfl rfl
  | resumes => exact h.resume hk
  | timerFires =>
    refine ite_rule (P := Keeps a) self fun hc => ?_
    obtain ⟨op, hop, hph⟩ := (Option.any_eq_true _ _).1 hc.2
    exact (h.outside_of_phase hop (by simp [of_decide_eq_true hph])).handle _
  | shutdown =>
    rw [WorkerAttempt.apply, cancelled]
    split
    case h_3 hpt =>
      refine Outside.handle ⟨Bool.eq_false_iff.2 fun hp => ?_, holdsSlot_of_not_awaits hk, h.fits⟩ _
      rw [KeepsSlot, awaitsSlot, hpt, of_decide_eq_true hp] at hk
      cases hk
    case h_1 hpt | h_2 hpt | h_4 hpt =>
      exact (h.outside (by simp [stage, hpt, ProcessPoint.stage])).handle _
    case h_5 | h_6 => exact self
    case h_7 hpt => exact (h.outside (by simp [stage, hpt, ProcessPoint.stage])).leave
    case h_8 hpt | h_9 hpt => exact h.ends (by rw [stage, hpt]; rfl) rfl rfl rfl
  | finishReturns answer =>
    rw [WorkerAttempt.apply]
    split
    next hpt =>
      have hout := h.outside (by simp [stage, hpt, ProcessPoint.stage])
      unfold finished
      split
      · exact hout.leave
      · split
        · exact hout.handle _
        · exact hout.leave
    · exact self
  | heartbeatReaped =>
    rw [WorkerAttempt.apply]
    split
    case h_1 hpt _ | h_2 hpt _ => exact h.ends (by rw [stage, hpt]; rfl) rfl rfl rfl
    case h_3 =>
      exact h.ends (by rw [stage, ‹a.point = _›]; rfl) (releaseWorkspace_stage _) rfl rfl
    case h_4 => exact self
  | workspaceReleased =>
    exact ite_rule (P := Keeps a) self fun hpt => h.ends (by rw [stage, hpt]; rfl) rfl rfl rfl

theorem SlotSafe.acquire (h : a.SlotSafe) (hn : (a.slotPending && step.acquires) = true)
    (hw : a.point = .waiting) : (a.apply step).SlotSafe ∧ a.holdsSlot = false ∧
      (a.apply step).holdsSlot = true := by
  obtain ⟨hp, hs⟩ := Bool.and_eq_true_iff.1 hn
  obtain rfl : step = .phaseEnds (.ok .acquired) := by
    unfold acquires at hs
    split at hs
    · rfl
    · cases hs
  have ht : a.task = some (.slot, none) := of_decide_eq_true hp
  obtain ⟨op, hop, hou⟩ := Option.map_eq_some_iff.1 ht
  obtain ⟨hph, hou⟩ := Prod.ext_iff.1 hou
  have hslot := h.early (h.pending hp) _ ht (.inr rfl)
  have ha : a.apply (.phaseEnds (.ok .acquired)) =
      { a with operation := some (op.settle (.ok .acquired)) } := by
    simp only at hph hou
    simp [WorkerAttempt.apply, hop, hph, hou, Except.toOption, PhaseResult.phase]
  have ht' : (a.apply (.phaseEnds (.ok .acquired))).task = some (.slot, some (.ok .acquired)) := by
    rw [ha]
    simpa [task, Operation.settle] using hph
  have hst : (a.apply (.phaseEnds (.ok .acquired))).sandboxSlot = false := by rwa [ha]
  refine ⟨⟨fun _ => hst, fun _ _ _ _ => hst, fun _ => hst, ?_, fun _ r hr => ?_⟩, ?_, ?_⟩
  · simp [slotPending, ht']
  · rw [ht'] at hr
    cases hr
    rfl
  · simp [holdsSlot, hslot, ht]
  · have hpt : (a.apply (.phaseEnds (.ok .acquired))).point = .waiting := by rwa [ha]
    simp [holdsSlot, hpt, ht']

end WorkerAttempt

def SlotWorker.KeepsSlots (w : SlotWorker) : SlotOp → Prop
  | .claim _ => True
  | .step i step => ∀ a ∈ w.attempts[i]?, a.KeepsSlot step

instance (w : SlotWorker) (op : SlotOp) : Decidable (w.KeepsSlots op) := by
  unfold SlotWorker.KeepsSlots
  split <;> infer_instance

structure SlotWorker.Conserves (n : ℕ) (w : SlotWorker) : Prop where
  safe : ∀ a ∈ w.attempts, a.SlotSafe
  slots : w.permits + w.attempts.countP (·.holdsSlot) = n

theorem SlotWorker.Conserves.set {n i permits : ℕ} {w : SlotWorker} {a a' : WorkerAttempt}
    (h : w.Conserves n) (ha : w.attempts[i]? = some a) (hs : a'.SlotSafe)
    (hp : permits + a'.holdsSlot.toNat = w.permits + a.holdsSlot.toNat) :
    Conserves n { permits := permits, attempts := w.attempts.set i a' } := by
  obtain ⟨hi, rfl⟩ := List.getElem?_eq_some_iff.1 ha
  refine ⟨fun b hb => ?_, ?_⟩
  · rcases mem_or_eq_of_mem_set hb with hb | rfl
    · exact h.safe b hb
    · exact hs
  · have hset : (w.attempts.set i a').countP (·.holdsSlot) =
        w.attempts.countP (·.holdsSlot) - w.attempts[i].holdsSlot.toNat + a'.holdsSlot.toNat := by
      rw [countP_set hi]
      simp [Bool.toNat, cond_eq_ite]
    have hle : w.attempts[i].holdsSlot.toNat ≤ w.attempts.countP (·.holdsSlot) := by
      simpa [Bool.toNat, cond_eq_ite] using boole_getElem_le_countP hi
    have hslots := h.slots
    change permits + (w.attempts.set i a').countP (·.holdsSlot) = n
    omega

theorem SlotWorker.Conserves.apply {n : ℕ} {w : SlotWorker} {op : SlotOp} (h : w.Conserves n)
    (hop : w.KeepsSlots op) : (w.apply op).Conserves n := by
  cases op with
  | claim lease =>
    refine ⟨fun a ha => ?_, ?_⟩
    · rcases mem_append.1 ha with ha | ha
      · exact h.safe a ha
      · rw [mem_singleton.1 ha]
        exact ⟨fun _ => rfl, nofun, fun _ => rfl, nofun, nofun⟩
    · have hnew : (claimedAttempt lease).holdsSlot = false := rfl
      simpa [SlotWorker.apply, countP_append, hnew] using h.slots
  | step i step =>
    rw [SlotWorker.apply]
    split
    · exact h
    rename_i a ha
    have hs := h.safe a (mem_of_getElem? ha)
    dsimp only
    split
    next hn =>
      split
      · exact h
      rename_i hpt
      split
      · exact h
      have hw : a.point = .waiting := by
        have := hs.pending (Bool.and_eq_true_iff.1 hn).1
        unfold WorkerAttempt.stage ProcessPoint.stage at this
        split at this <;> simp_all
      obtain ⟨hs', h₀, h₁⟩ := hs.acquire hn hw
      refine h.set ha hs' ?_
      rw [h₀, h₁]
      simp
      omega
    next hn =>
      have hk := hs.apply (hop a ha) (by simpa using hn)
      refine h.set ha hk.safe ?_
      have := hk.slots
      omega

/-- **Sandbox slots are conserved**. -/
theorem sandbox_slots_conserved (n : ℕ) (ops : List SlotOp)
    (h : History.Admissible SlotWorker.apply SlotWorker.KeepsSlots { permits := n } ops) :
    let w := ops.foldl SlotWorker.apply { permits := n }
    w.permits ≤ n ∧ ((∀ a ∈ w.attempts, a.point = .ended) → w.permits = n) := by
  intro w
  have hc : w.Conserves n := h.invariant (SlotWorker.Conserves n) (fun _ _ hw hop => hw.apply hop)
    ⟨List.forall_mem_nil _, by simp⟩
  refine ⟨by have := hc.slots; omega, fun hend => ?_⟩
  have hz : w.attempts.countP (·.holdsSlot) = 0 := by
    refine List.countP_eq_zero.2 fun a ha => ?_
    have hleft := (hc.safe a ha).left (by rw [WorkerAttempt.stage, hend a ha]; rfl)
    simp [WorkerAttempt.holdsSlot, hleft, hend a ha]
  have := hc.slots
  omega

theorem sandbox_slots_conserved_finished :
    ((SlotOp.claim timedLease :: (lateTimeout ++ [WorkerStep.heartbeatStops none, .heartbeatReaped,
      .workspaceReleased]).map (.step 0)).foldl SlotWorker.apply { permits := 1 }).permits = 1 :=
  (sandbox_slots_conserved 1 _ (by decide)).2 (by decide)

theorem sandbox_slot_lost :
    let w := (SlotOp.claim timedLease :: (stepsToExecution.take 4 ++ [WorkerStep.shutdown,
      .phaseEnds (.ok .acquired), .heartbeatStops none, .heartbeatReaped,
      .workspaceReleased]).map (.step 0)).foldl SlotWorker.apply { permits := 1 }
    (∀ a ∈ w.attempts, a.point = .ended) ∧ w.permits = 0 := by
  decide

end AgentPlatform
