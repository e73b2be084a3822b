/-
**Suspensions: when a load fails because of the calls that were left open.**

A suspension is written in several transactions: the waiting calls, their approvals, the release of
the run. Whatever part of it is there when the run is leased again, `PostgresRecoveryStore.load`
reads the calls that are still open. What else it reads does not depend on them, so that a load is
compared with the load of the same tables without these calls.

Main definitions:
- `RunStore.withoutOpenCalls`: the tables without the calls that are still open.
- `RunStore.Resumable`: what the open calls and their approvals have to be like.

Main results:
- `load_isOk_iff`: a load succeeds exactly when the open calls are resumable.
- `no_failed_suspension`: along a history, only a worker that has lost its lease fails to load.
-/

import AgentPlatform.SystemSteps

namespace AgentPlatform

open History (Admissible)
open scoped List

/-! ### The tables without the open calls -/

def ToolCall.isOpen (c : ToolCall) : Bool := c.status = .received || c.status = .waitingApproval

def RunStore.withoutOpenCalls (s : RunStore) : RunStore :=
  { s with toolCalls := s.toolCalls.filter (!·.isOpen) }

variable {codec : RecoveryCodec} {s : RunStore} {lease : RunLease} {now : Timestamp} {c : ToolCall}
variable {row? : Option CheckpointRecord}

theorem openCalls_withoutOpenCalls (s : RunStore) (epoch : ℕ) :
    openCalls s.withoutOpenCalls epoch = [] := by
  refine List.eq_nil_iff_forall_not_mem.2 fun c hc => ?_
  obtain ⟨hmem, -, hst⟩ := mem_openCalls.1 hc
  have hopen := (mem_filter.1 hmem).2
  rcases hst with hst | hst <;> simp [ToolCall.isOpen, hst] at hopen

theorem terminalCalls_withoutOpenCalls (since : Option Timestamp) :
    terminalCalls s.withoutOpenCalls lease since = terminalCalls s lease since := by
  unfold terminalCalls RunStore.withoutOpenCalls
  rw [List.filter_filter]
  refine List.filter_congr fun c _ => ?_
  cases hst : c.status <;> simp [ToolCall.isOpen, hst, ToolCallStatus.terminal]

theorem loadOutcomes_withoutOpenCalls :
    loadOutcomes codec s.withoutOpenCalls lease row? = loadOutcomes codec s lease row? := by
  unfold loadOutcomes toolOutcomes
  simp only [terminalCalls_withoutOpenCalls]

/-! ### The open calls -/

def RunStore.Decided (s : RunStore) (c : ToolCall) : Prop :=
  c.status = .waitingApproval → ∃ a ∈ approvalOf s c, a.status ≠ .pending

instance (s : RunStore) (c : ToolCall) : Decidable (s.Decided c) :=
  inferInstanceAs (Decidable (_ → ∃ a ∈ approvalOf s c, _))

theorem approvalOf_received (hs : s.WellFormed) (hc : c ∈ s.toolCalls)
    (hst : c.status = .received) : approvalOf s c = none := by
  cases ha : approvalOf s c with
  | none => rfl
  | some a =>
    have hkey := List.find?_some ha
    simp only [and_eq_true, decide_eq_true_eq] at hkey
    obtain ⟨c', hc', hst'⟩ := hs.approvalCalls a (mem_of_find?_eq_some ha)
    obtain ⟨hmem, hk⟩ := hs.callKeys.lookup_eq_some_iff.1 hc'
    have heq : c' = c := by
      refine inj_on_of_nodup_map hs.callKeys hmem hc (hk.trans ?_)
      rw [hkey.1, hkey.2]
      rfl
    rw [heq] at hst'
    exact absurd hst hst'

theorem pendingToolCall_isOk_iff (codec : RecoveryCodec) (hs : s.WellFormed) {epoch : ℕ}
    (hc : c ∈ openCalls s epoch) : (∃ p, pendingToolCall codec s c = .ok p) ↔
      s.Decided c ∧ (resumedCall s c).invalidity codec.argumentHash = none := by
  have hvalidate : ∀ p : DurablePendingToolCall,
      (∃ p', p.validate codec.argumentHash = .ok p') ↔ p.invalidity codec.argumentHash = none := by
    intro p
    unfold DurablePendingToolCall.validate
    split <;> simp_all
  obtain ⟨hmem, -, hst | hst⟩ := mem_openCalls.1 hc
  · have hnone := approvalOf_received hs hmem hst
    rw [pendingToolCall_of_not_waiting (by simp [hst]), resumedCall, hnone, hvalidate]
    simp [RunStore.Decided, hst]
  · unfold pendingToolCall resumedCall RunStore.Decided
    rw [hst]
    cases approvalOf s c with
    | none => simp
    | some a =>
      dsimp only
      split
      next hp => simp [hp]
      next hp => simp [hp, hvalidate]

/-- The open calls of the epoch can be resumed: there are not too many, each waiting one is decided,
each row is valid, and they are calls of one turn. -/
structure RunStore.Resumable (codec : RecoveryCodec) (s : RunStore) (epoch : ℕ) : Prop where
  few : (openCalls s epoch).length ≤ maxRecoveryToolOutcomes
  decided : ∀ c ∈ openCalls s epoch, s.Decided c
  valid : ∀ c ∈ openCalls s epoch, (resumedCall s c).invalidity codec.argumentHash = none
  oneTurn : ∀ c ∈ openCalls s epoch, ∀ c' ∈ openCalls s epoch, c.turnNumber = c'.turnNumber

instance (codec : RecoveryCodec) (s : RunStore) (epoch : ℕ) : Decidable (s.Resumable codec epoch) :=
  decidable_of_iff
    ((openCalls s epoch).length ≤ maxRecoveryToolOutcomes ∧
      (∀ c ∈ openCalls s epoch, s.Decided c) ∧
      (∀ c ∈ openCalls s epoch, (resumedCall s c).invalidity codec.argumentHash = none) ∧
      ∀ c ∈ openCalls s epoch, ∀ c' ∈ openCalls s epoch, c.turnNumber = c'.turnNumber)
    ⟨fun ⟨h₁, h₂, h₃, h₄⟩ => ⟨h₁, h₂, h₃, h₄⟩, fun ⟨h₁, h₂, h₃, h₄⟩ => ⟨h₁, h₂, h₃, h₄⟩⟩

theorem resumedCall_fields (s : RunStore) (c : ToolCall) :
    (resumedCall s c).toolCallId = c.id ∧ (resumedCall s c).turnNumber = c.turnNumber := by
  unfold resumedCall
  split <;> exact ⟨rfl, rfl⟩

theorem loadPending_isOk_iff (codec : RecoveryCodec) (lease : RunLease)
    (row? : Option CheckpointRecord) (hs : s.WellFormed) :
    (∃ pending, loadPending codec s lease row? = .ok pending) ↔
      (loadsToolCalls lease row? →
        (openCalls s lease.executionEpoch).length ≤ maxRecoveryToolOutcomes ∧
        ∀ c ∈ openCalls s lease.executionEpoch,
          s.Decided c ∧ (resumedCall s c).invalidity codec.argumentHash = none) := by
  unfold loadPending pendingToolCalls
  by_cases hloads : loadsToolCalls lease row? = true
  · simp only [hloads, if_true, forall_const]
    split
    next hmany => simp [domainError, not_le.2 hmany]
    next hfew =>
      rw [and_iff_right (not_lt.1 hfew)]
      constructor
      · rintro ⟨pending, hp⟩ c hc
        have hall := except_mapM_ok hp
        obtain ⟨p, -, hpc⟩ := mem_map.1 (hall ▸ mem_map_of_mem hc)
        exact (pendingToolCall_isOk_iff codec hs hc).1 ⟨p, hpc.symm⟩
      · intro hall
        cases hm : (openCalls s lease.executionEpoch).mapM (pendingToolCall codec s) with
        | ok pending => exact ⟨pending, rfl⟩
        | error f =>
          obtain ⟨c, hc, hf⟩ := except_mapM_error hm
          obtain ⟨p, hp⟩ := (pendingToolCall_isOk_iff codec hs hc).2 (hall c hc)
          rw [hp] at hf
          cases hf
  · simp [hloads]

/-! ### A load with and without them -/

/-- The calls a load resumes. -/
def resumedPending (s : RunStore) (lease : RunLease) : List DurablePendingToolCall :=
  if loadsToolCalls lease (selectCheckpoint s lease) then
    (openCalls s lease.executionEpoch).map (resumedCall s) else []

theorem nodup_resumedPending (hs : s.WellFormed) :
    ((resumedPending s lease).map (·.toolCallId)).Nodup := by
  unfold resumedPending
  split
  · have hperm : openCalls s lease.executionEpoch ~ _ := List.perm_insertionSort _ _
    have hrows : (openCalls s lease.executionEpoch).Pairwise fun a b => a.id ≠ b.id := by
      have hkeys : ((openCalls s lease.executionEpoch).map ToolCall.key).Nodup :=
        (hperm.map _).nodup_iff.2 (hs.callKeys.sublist (List.filter_sublist.map _))
      rw [List.Nodup, List.pairwise_map] at hkeys
      refine hkeys.imp_of_mem fun ha hb hne hid => hne (Prod.ext ?_ hid)
      exact (mem_openCalls.1 ha).2.1.trans (mem_openCalls.1 hb).2.1.symm
    rw [map_map, List.Nodup, List.pairwise_map]
    exact hrows.imp fun hne => by
      rw [comp_apply, comp_apply, (resumedCall_fields s _).1, (resumedCall_fields s _).1]
      exact hne
  · exact List.nodup_nil

theorem outcomes_disjoint (hs : s.WellFormed) {outcomes : List DurableToolOutcome}
    (h : loadOutcomes codec s lease row? = .ok outcomes) {o : DurableToolOutcome}
    (ho : o ∈ outcomes) : o.toolCallId ∉ (resumedPending s lease).map (·.toolCallId) := by
  unfold loadOutcomes at h
  split at h
  · rw [toolOutcomes_ok h] at ho
    obtain ⟨c, hc, rfl⟩ := mem_map.1 ho
    have hrow := mem_filter.1 (mem_insertionSort _ |>.1 hc)
    simp only [and_eq_true, decide_eq_true_eq] at hrow
    intro hmem
    unfold resumedPending at hmem
    split at hmem
    · rw [map_map] at hmem
      obtain ⟨c', hc', hid⟩ := mem_map.1 hmem
      obtain ⟨hmem', hep', hst⟩ := mem_openCalls.1 hc'
      rw [comp_apply, (resumedCall_fields s c').1] at hid
      have heq : c' = c := inj_on_of_nodup_map hs.callKeys hmem' hrow.1
        (Prod.ext (hep'.trans hrow.2.1.1.symm) hid)
      subst heq
      rcases hst with hst | hst <;> simp [hst, ToolCallStatus.terminal] at hrow
    · cases hmem
  · cases h
    cases ho

theorem RunRecoveryState.validate_eq_ok {r : RunRecoveryState} (h : r.invalidity codec = none) :
    r.validate codec = .ok r := by
  rw [validate, h]

theorem RunRecoveryState.invalidity_with_pending {r : RunRecoveryState}
    (h : r.invalidity codec = none) {pending : List DurablePendingToolCall} (hnodup : (pending.map (·.toolCallId)).Nodup)
    (hdisjoint : ∀ o ∈ r.priorToolOutcomes, o.toolCallId ∉ pending.map (·.toolCallId)) :
    ({ r with pendingToolCalls := pending } : RunRecoveryState).invalidity codec = none ↔
      (∀ p ∈ pending, ∀ p' ∈ pending, p.turnNumber = p'.turnNumber) ∧
        codec.stateBytes { r with pendingToolCalls := pending } ≤ maxRecoveryStateBytes := by
  unfold RunRecoveryState.invalidity at h ⊢
  simp only [ite_some_eq_none] at h ⊢
  obtain ⟨hm, hc, ho, -, -, -, -⟩ := h
  have hd : ¬ ∃ o ∈ r.priorToolOutcomes, o.toolCallId ∈ pending.map (·.toolCallId) :=
    fun ⟨o, ho, hmem⟩ => hdisjoint o ho hmem
  simp only [hm, hc, ho, hnodup, hd, not_true_eq_false, not_false_eq_true, true_and, and_true,
    not_exists, not_and, not_not, not_lt]

/-- What the open calls add to a state that was loaded without them is accepted. -/
def RunStore.ResumesInto (codec : RecoveryCodec) (s : RunStore) (lease : RunLease)
    (r : RunRecoveryState) : Prop :=
  (loadsToolCalls lease (selectCheckpoint s lease) = true →
    s.Resumable codec lease.executionEpoch) ∧
  codec.stateBytes { r with pendingToolCalls := resumedPending s lease } ≤ maxRecoveryStateBytes

instance (codec : RecoveryCodec) (s : RunStore) (lease : RunLease) (r : RunRecoveryState) :
    Decidable (s.ResumesInto codec lease r) := inferInstanceAs (Decidable ((_ → _) ∧ _))

/-- **A run that can be loaded without its open calls can be loaded with them exactly when they are
resumable** and the state stays within its limit. -/
theorem load_isOk_iff (hs : s.WellFormed) {r : RunRecoveryState}
    (hrest : load codec s.withoutOpenCalls lease now = .ok r) :
    (∃ r', load codec s lease now = .ok r') ↔ s.ResumesInto codec lease r := by
  unfold load at hrest
  obtain ⟨_, hactive, h⟩ := except_bind_ok hrest
  obtain ⟨row?, hrow, h⟩ := except_bind_ok h
  obtain ⟨messages, hmessages, h⟩ := except_bind_ok h
  obtain ⟨outcomes, houtcomes, h⟩ := except_bind_ok h
  obtain ⟨pending, hpending, h⟩ := except_bind_ok h
  obtain ⟨rfl, hval⟩ := RunRecoveryState.validate_ok h
  have hnone : pending = [] := by
    rw [(loadPending_ok hpending).1, openCalls_withoutOpenCalls]
    split <;> rfl
  subst hnone
  obtain ⟨rfl, -⟩ := requiredCheckpoint_ok hrow
  rw [loadOutcomes_withoutOpenCalls] at houtcomes
  replace houtcomes : loadOutcomes codec s lease (selectCheckpoint s lease) = .ok outcomes := houtcomes
  -- the other parts of the state do not look at the open calls
  have hload : load codec s lease now = loadPending codec s lease (selectCheckpoint s lease) >>=
      fun p => ({ recoveryState s.withoutOpenCalls lease (selectCheckpoint s lease) messages outcomes []
        with pendingToolCalls := p } : RunRecoveryState).validate codec := by
    have hactive' : assertActiveRunLease s lease now = .ok _ := hactive
    have hrow' : requiredCheckpoint s lease = .ok (selectCheckpoint s lease) := hrow
    have hmessages' : requiredMessages codec s lease (selectCheckpoint s lease) = .ok messages :=
      hmessages
    simp only [load, hactive', hrow', hmessages', houtcomes, bind, Except.bind]
    rfl
  have hstate := RunRecoveryState.invalidity_with_pending hval (nodup_resumedPending hs)
    (fun o ho => outcomes_disjoint hs houtcomes ho)
  have hturn : (∀ p ∈ resumedPending s lease, ∀ p' ∈ resumedPending s lease,
      p.turnNumber = p'.turnNumber) ↔ (loadsToolCalls lease (selectCheckpoint s lease) = true →
        ∀ c ∈ openCalls s lease.executionEpoch, ∀ c' ∈ openCalls s lease.executionEpoch,
          c.turnNumber = c'.turnNumber) := by
    unfold resumedPending
    split
    next hl => simp [hl, (resumedCall_fields s _).2]
    next hl => simp [hl]
  rw [hload]
  constructor
  · rintro ⟨r', h⟩
    obtain ⟨pending, hpending, h⟩ := except_bind_ok h
    obtain ⟨-, hval'⟩ := RunRecoveryState.validate_ok h
    obtain rfl : pending = resumedPending s lease := (loadPending_ok hpending).1
    obtain ⟨hone, hsize⟩ := hstate.1 hval'
    refine ⟨fun hl => ?_, hsize⟩
    obtain ⟨hfew, hall⟩ := (loadPending_isOk_iff _ _ _ hs).1 ⟨_, hpending⟩ hl
    exact ⟨hfew, fun c hc => (hall c hc).1, fun c hc => (hall c hc).2, hturn.1 hone hl⟩
  · rintro ⟨hres, hsize⟩
    obtain ⟨pending, hpending⟩ :=
      (loadPending_isOk_iff codec lease (selectCheckpoint s lease) hs).2 fun hl =>
        ⟨(hres hl).few, fun c hc => ⟨(hres hl).decided c hc, (hres hl).valid c hc⟩⟩
    obtain rfl : pending = resumedPending s lease := (loadPending_ok hpending).1
    have hval' := hstate.2 ⟨hturn.2 fun hl => (hres hl).oneTurn, hsize⟩
    rw [hpending]
    exact ⟨_, RunRecoveryState.validate_eq_ok hval'⟩

/-! ### Histories -/

/-- A worker that owns the run when it loads it can load the rest of it and resume its open calls. -/
def LoadsResumable (w : World) : SystemOp → Prop
  | .load g _ codec _ now => ∀ a ∈ w.attempts g, w.store.leaseActive a.lease now = true →
      ∃ r ∈ (load codec w.store.withoutOpenCalls a.lease now).toOption,
        w.store.ResumesInto codec a.lease r
  | _ => True

instance (w : World) : ∀ op : SystemOp, Decidable (LoadsResumable w op)
  | .load g _ codec _ now =>
    inferInstanceAs (Decidable (∀ a ∈ w.attempts g, _ → ∃ r ∈ (load codec _ a.lease now).toOption, _))
  | .claim .. | .start .. | .heartbeat .. | .work .. | .interrupt .. | .finish ..
  | .recoverExpired .. | .requestCancel .. | .decide .. | .rewind .. => isTrue trivial

/-- No owner of the run has failed to load it. -/
def World.OwnersRecovered (w : World) : Prop :=
  ∀ g epoch f, .unrecovered g epoch f ∈ w.log → ∃ lease, f = leaseLost lease

theorem load_error_unowned {f : Failure} (h : load codec s lease now = .error f)
    (hlost : ¬ s.leaseActive lease now = true) : f = leaseLost lease := by
  unfold load at h
  obtain h | ⟨_, hactive, _⟩ := except_bind_error h
  · rw [assertActiveRunLease, if_neg hlost] at h
    exact (Except.error.inj h).symm
  · exact absurd (assertActiveRunLease_ok hactive) hlost

theorem World.OwnersRecovered.apply {w : World} {op : SystemOp} (hs : w.store.WellFormed)
    (h : w.OwnersRecovered) (hop : LoadsResumable w op) : (w.apply op).OwnersRecovered := by
  have hmv := w.apply_moves op
  generalize w.apply op = w' at hmv
  intro g epoch f hf
  cases hmv with
  | unrecovered _ a _ codec _ now _ attempt failed =>
    rcases mem_append.1 hf with hf | hf
    · exact h g epoch f hf
    · obtain ⟨-, -, rfl⟩ := LogEntry.unrecovered.inj (mem_singleton.1 hf)
      by_cases hactive : w.store.leaseActive a.lease now = true
      · obtain ⟨r, hr, hres⟩ := hop a attempt hactive
        have hrest : load codec w.store.withoutOpenCalls a.lease now = .ok r := by
          cases hl : load codec w.store.withoutOpenCalls a.lease now with
          | error => simp [hl, Except.toOption] at hr
          | ok => simpa [hl, Except.toOption] using hr
        obtain ⟨r', hok⟩ := (load_isOk_iff hs hrest).2 hres
        rw [hok] at failed
        cases failed
      · exact ⟨_, load_error_unowned failed hactive⟩
  | recovered | rewound =>
    rcases mem_append.1 hf with hf | hf
    · exact h g epoch f hf
    · cases mem_singleton.1 hf
  | worked =>
    rcases mem_append.1 hf with hf | hf
    · exact h g epoch f hf
    · obtain ⟨_, -, hst⟩ := mem_map.1 hf
      cases hst
  | _ => exact h g epoch f hf

/-- **Suspensions whose calls are resumable when they are loaded never make a run fail**, and in
every state that is reached this is what a load depends on. -/
theorem no_failed_suspension (x : Submission) (ops : List SystemOp) :
    (Admissible World.apply LoadsResumable (submitted x) ops →
      (ops.foldl World.apply (submitted x)).OwnersRecovered) ∧
    ∀ codec lease now r,
      load codec (ops.foldl World.apply (submitted x)).store.withoutOpenCalls lease now = .ok r →
      ((∃ r', load codec (ops.foldl World.apply (submitted x)).store lease now = .ok r') ↔
        (ops.foldl World.apply (submitted x)).store.ResumesInto codec lease r) := by
  have hwf : ∀ (os : List SystemOp) (w : World), w.store.WellFormed →
      (os.foldl World.apply w).store.WellFormed := by
    intro os
    induction os with
    | nil => exact fun _ h => h
    | cons op _ ih => exact fun w h => ih _ (h.of_committed (w.apply_committed op))
  have hs := hwf ops (submitted x) (RunStore.WellFormed.submit x)
  refine ⟨fun hops => ?_, fun codec lease now r hrest => load_isOk_iff hs hrest⟩
  have hinv := Admissible.invariant (fun w : World => w.store.WellFormed ∧ w.OwnersRecovered)
    (fun w op h hop => ⟨h.1.of_committed (w.apply_committed op), h.2.apply h.1 hop⟩)
    ⟨RunStore.WellFormed.submit x, by intro g epoch f hf; cases hf⟩ hops
  exact hinv.2

def askingEnv : LoopEnv :=
  scriptedEnv 10 (fun name => if name = "ask_user" then some .interaction else none)
    [proposing [{ id := "call-1", name := "ask_user", arguments := .nil }]]
    (fun _ => { items := [] })

def decidedHistory : List SystemOp :=
  attemptOps 1 askingEnv 5 100 ++ workOps 1 13 6 ++ [.finish 1 7,
   .decide 20 { approved := true, decidedBy := "human", decidedAt := 40, response := some "yes" }] ++
  attemptOps 2 askingEnv 41 200

theorem no_failed_suspension_decided :
    Admissible World.apply LoadsResumable (submitted (scriptedSubmission .autoApprove))
        decidedHistory ∧ (decidedHistory.foldl World.apply
        (submitted (scriptedSubmission .autoApprove))).OwnersRecovered :=
  have hops : Admissible World.apply LoadsResumable (submitted (scriptedSubmission .autoApprove))
      decidedHistory := by decide
  ⟨hops, (no_failed_suspension _ _).1 hops⟩

def halfWrittenHistory : List SystemOp :=
  attemptOps 1 askingEnv 5 100 ++ workOps 1 9 6 ++
  [.recoverExpired 101] ++ attemptOps 2 askingEnv 102 200 ++ [.finish 2 103]

theorem halfWritten_suspension_fails :
    let w := halfWrittenHistory.foldl World.apply (submitted (scriptedSubmission .autoApprove))
    w.store.toolCalls.map (fun c => (c.id, c.status)) = [("call-1", .waitingApproval)] ∧
      w.store.approvals = [] ∧ .unrecovered 2 1 approvalIncomplete ∈ w.log ∧
      w.store.run.status = .failed := by
  decide

end AgentPlatform
