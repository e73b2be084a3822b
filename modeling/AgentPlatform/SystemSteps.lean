/-
**Everything an operation of the system can do.**
-/

import AgentPlatform.RunSystem

namespace AgentPlatform

open AttemptPhase Executor RunStore World

/-! ### One action of the loop -/

def AttemptPhase.Stopped (phase : AttemptPhase) : Prop :=
  ∀ rest x, phase ≠ .running rest x

def AttemptPhase.Halted (phase : AttemptPhase) : Prop :=
  phase = .ended ∨
    ∃ result : RunExecutionResult, phase = .finishing result ∧ result.lastCheckpointId = none ∧
      (result.status = .failed ∨ result.status = .cancelled)

theorem AttemptPhase.Halted.stopped {phase : AttemptPhase} (h : phase.Halted) : phase.Stopped := by
  intro rest x
  rcases h with rfl | ⟨result, rfl, -⟩ <;> simp

theorem AttemptPhase.halted_ended : ended.Halted := .inl rfl

theorem raisedPhase_halted {f : Failure} : (raisedPhase f).Halted := by
  unfold raisedPhase
  split
  · split
    · exact .inl rfl
    · split
      · exact .inr ⟨_, rfl, rfl, .inr rfl⟩
      · exact .inr ⟨_, rfl, rfl, .inl rfl⟩
  all_goals exact .inr ⟨_, rfl, rfl, .inl rfl⟩

theorem Interruption.phase_halted (i : Interruption) : i.phase.Halted := by
  cases i with
  | timeout => exact .inr ⟨_, rfl, rfl, .inl rfl⟩
  | cancellation => exact .inr ⟨_, rfl, rfl, .inr rfl⟩
  | raised => exact raisedPhase_halted

def LoopStep.observation : LoopStep → Bool
  | .request _ | .response _ | .validated _ | .invokeTool _ _ => true
  | _ => false

section Performs

variable (hash : JsonObject → String) (codec : StoreCodec) (lease : RunLease) (now : Timestamp)
  (s : RunStore) (w : Workspace) (x : Executor) (rest : List LoopStep)

inductive Performs : LoopStep → Performed → Prop
  | refused (step : LoopStep) (phase : AttemptPhase) (halted : phase.Halted) :
      Performs step { store := s, workspace := w, phase := phase, logged := false }
  | noted (event : AgentEvent) (active : s.leaseActive lease now = true)
      (nothing : (x.counted event).savedCall hash lease event = .ok none) :
      Performs (.emit event)
        { store := s, workspace := w, phase := (x.counted event).after rest event }
  | saved (event : AgentEvent) (c returned : ToolCall) (s' : RunStore)
      (record : (x.counted event).savedCall hash lease event = .ok (some c))
      (save : saveToolCallFenced s lease now c = .ok (returned, s')) :
      Performs (.emit event)
        { store := s', workspace := w
          phase := ({ (x.counted event).observe returned with
            approvalDue := approvalRequest lease event } : Executor).after rest event }
  | journaled (startIndex : ℕ) (messages : List GatewayMessage) (occurredAt : Timestamp)
      (u : Unit) (s' : RunStore)
      (append : appendTranscriptFenced codec s lease now startIndex messages occurredAt =
        .ok (u, s')) :
      Performs (.journal startIndex messages occurredAt)
        { store := s', workspace := w, phase := .running rest x }
  | observed (step : LoopStep) (observation : step.observation = true) :
      Performs step { store := s, workspace := w, phase := .running rest x }
  | returned (call : GatewayToolCall) (effect : ToolEffect) :
      Performs (.toolReturned call effect)
        { store := s, workspace := if effect.sideEffecting then w ++ [call.id] else w
          phase := .running rest x }
  | created (c : CheckpointRequest) (returned : Checkpoint) (s' : RunStore)
      (create : createCheckpointFenced s lease now (c.toCheckpoint lease w) = .ok (returned, s')) :
      Performs (.createCheckpoint c) { store := s', workspace := w, phase := .running rest x }
  | completed (id : Uuid) (callId : String) (snapshot : WorkspaceSnapshot) (u : Unit)
      (s' : RunStore)
      (complete : completeCheckpointFenced s lease now id
        { uri := snapshot.uri, workspace := w } snapshot.revision = .ok (u, s')) :
      Performs (.completeCheckpoint id callId snapshot)
        { store := s', workspace := w, phase := .running rest x }
  | restored (id : Uuid) (row : CheckpointRecord) (stored : s.checkpoint? id = some row) :
      Performs (.rollback id true)
        { store := s, workspace := row.checkpoint.workspaceSnapshot.workspace
          phase := .running rest x }
  | unrestored (id : Uuid) :
      Performs (.rollback id false) { store := s, workspace := w, phase := .running rest x }

variable {hash codec lease now s w x rest}

theorem performStep_performs (step : LoopStep) : Performs hash codec lease now s w x rest step
      (performStep hash codec lease now s w x rest step) := by
  cases step with
  | emit event =>
    simp only [performStep, emitEvent]
    split
    · exact .refused _ _ raisedPhase_halted
    next hn =>
      split
      · exact .refused _ _ raisedPhase_halted
      next ha => exact .noted event (assertActiveRunLease_ok ha) hn
    next c hc =>
      split
      · exact .refused _ _ raisedPhase_halted
      next returned s' hs => exact .saved event c returned s' hc hs
  | journal startIndex messages occurredAt =>
    simp only [performStep]
    split
    · exact .refused _ _ raisedPhase_halted
    next hap => exact .journaled startIndex messages occurredAt _ _ hap
  | createCheckpoint c =>
    simp only [performStep]
    split
    · exact .refused _ _ halted_ended
    next hcr => exact .created c _ _ hcr
  | completeCheckpoint id callId snapshot =>
    simp only [performStep]
    split
    · exact .refused _ _ halted_ended
    next hco => exact .completed id callId snapshot _ _ hco
  | rollback id restored =>
    cases restored with
    | true =>
      simp only [performStep, if_true]
      split
      · exact .refused _ _ halted_ended
      next row hrow => exact .restored id row hrow
    | false => exact .unrestored id
  | toolReturned call effect => exact .returned call effect
  | request | response | validated | invokeTool => exact .observed _ rfl

end Performs

inductive Works (a : Attempt) (codec : StoreCodec) (now : Timestamp) (s : RunStore) :
    Performed × Option LoopStep → Prop
  | resting (stopped : a.phase.Stopped) :
      Works a codec now s
        ({ store := s, workspace := a.workspace, phase := a.phase, logged := false }, none)
  | refused (phase : AttemptPhase) (halted : phase.Halted)
      (running : ∃ steps x, a.phase = .running steps x) :
      Works a codec now s
        ({ store := s, workspace := a.workspace, phase := phase, logged := false }, none)
  | approval (steps : List LoopStep) (x : Executor) (approval returned : ApprovalRecord)
      (s' : RunStore) (phase : a.phase = .running steps x) (due : x.approvalDue = some approval)
      (create : createApprovalFenced s a.lease now approval = .ok (returned, s')) :
      Works a codec now s
        ({ store := s', workspace := a.workspace
           phase := .running steps { x with approvalDue := none } }, none)
  | exhausted (x : Executor) (phase : a.phase = .running [] x) (due : x.approvalDue = none) :
      Works a codec now s
        ({ store := s, workspace := a.workspace, phase := .finishing x.exhausted }, none)
  | step (x : Executor) (step : LoopStep) (rest : List LoopStep) (p : Performed)
      (phase : a.phase = .running (step :: rest) x) (due : x.approvalDue = none)
      (performs : Performs a.argumentHash codec a.lease now s a.workspace x rest step p) :
      Works a codec now s (p, some step)

theorem Attempt.work_works (a : Attempt) (codec : StoreCodec) (now : Timestamp) (s : RunStore) :
    Works a codec now s (a.work codec now s) := by
  unfold Attempt.work
  split
  next steps x hph =>
    split
    next approval hdue =>
      split
      · exact .refused _ raisedPhase_halted ⟨steps, x, hph⟩
      next returned s' hc => exact .approval steps x approval returned s' hph hdue hc
    next hdue =>
      split
      · exact .exhausted x hph hdue
      · exact .step x _ _ _ hph hdue (performStep_performs _)
  next phase hph => exact .resting hph

/-! ### One operation of the system -/

structure RunStore.Managed (s s' : RunStore) : Prop where
  messages : s'.messages = s.messages
  toolCalls : s'.toolCalls = s.toolCalls
  checkpoints : s'.checkpoints = s.checkpoints
  executionEpoch : s'.run.executionEpoch = s.run.executionEpoch

variable {s : RunStore} {w : World} {rest : List LoopStep}

variable {s' : RunStore} {x x' : Executor} {codec : StoreCodec} {now : Timestamp} {p : Performed}
    {w' : World} {op : SystemOp}

theorem RunStore.SameTables.managed (h : s.SameTables s')
    (hep : s'.run.executionEpoch = s.run.executionEpoch) : s.Managed s' :=
  ⟨h.messages, h.toolCalls, h.checkpoints, hep⟩

inductive World.Moves (w : World) : SystemOp → World → Prop
  | idle (op : SystemOp) : Moves w op w
  | managed (op : SystemOp) (s' : RunStore) (tables : w.store.Managed s')
      (generation : s'.run.leaseGeneration = w.store.run.leaseGeneration)
      (selected : s'.run.lastCheckpointId = w.store.run.lastCheckpointId) :
      Moves w op { w with store := s' }
  | claimed (op : SystemOp) (lease : RunLease) (s' : RunStore) (tables : w.store.Managed s')
      (generation : s'.run.leaseGeneration = w.store.run.leaseGeneration + 1)
      (selected : s'.run.lastCheckpointId = w.store.run.lastCheckpointId)
      (owned : lease.generation = s'.run.leaseGeneration)
      (epoch : lease.executionEpoch = w.store.run.executionEpoch)
      (checkpoint : lease.checkpointId = w.store.run.lastCheckpointId) :
      Moves w op
        (({ w with store := s' }).setAttempt lease.generation { lease := lease, phase := .claimed })
  | started (op : SystemOp) (g : ℕ) (a : Attempt) (lease : RunLease) (s' : RunStore)
      (phase : AttemptPhase) (attempt : w.attempts g = some a) (tables : w.store.Managed s')
      (generation : s'.run.leaseGeneration = w.store.run.leaseGeneration)
      (selected : s'.run.lastCheckpointId = w.store.run.lastCheckpointId)
      (owned : lease.generation = a.lease.generation)
      (epoch : lease.executionEpoch = w.store.run.executionEpoch)
      (checkpoint : lease.checkpointId = w.store.run.lastCheckpointId)
      (next : phase = .started ∨ phase = .finishing { status := .cancelled }) :
      Moves w op
        (({ w with store := s' }).setAttempt g { a with lease := lease, phase := phase })
  | halted (op : SystemOp) (g : ℕ) (a : Attempt) (phase : AttemptPhase)
      (attempt : w.attempts g = some a) (halted : phase.Halted) :
      Moves w op (w.setAttempt g { a with phase := phase })
  | finished (op : SystemOp) (g : ℕ) (a : Attempt) (result : RunExecutionResult) (s' : RunStore)
      (attempt : w.attempts g = some a) (phase : a.phase = .finishing result)
      (tables : w.store.Managed s')
      (generation : s'.run.leaseGeneration = w.store.run.leaseGeneration)
      (epoch : a.lease.executionEpoch = w.store.run.executionEpoch)
      (selected : s'.run.lastCheckpointId =
        (result.lastCheckpointId <|> w.store.run.lastCheckpointId)) :
      Moves w op (({ w with store := s' }).setAttempt g { a with phase := .ended })
  | unrecovered (g : ℕ) (a : Attempt) (env : LoopEnv) (codec : RecoveryCodec)
      (context : Option BuiltContext) (now : Timestamp) (f : Failure)
      (attempt : w.attempts g = some a) (load : load codec w.store a.lease now = .error f) :
      Moves w (.load g env codec context now)
        ((w.setAttempt g { a with phase := raisedPhase f }).record
          (.unrecovered g a.lease.executionEpoch f))
  | recovered (g : ℕ) (a : Attempt) (env : LoopEnv) (codec : RecoveryCodec)
      (context : Option BuiltContext) (now : Timestamp) (r : RunRecoveryState)
      (attempt : w.attempts g = some a) (load : load codec w.store a.lease now = .ok r) :
      Moves w (.load g env codec context now)
        ((w.setAttempt g
          { a with
            workspace := r.checkpoint.elim [] (·.workspaceSnapshot.workspace)
            argumentHash := env.argumentHash
            phase := .running (run env (loopInput a.lease r context))
              { lastCheckpointId := r.checkpoint.map (·.id) } }).record
          (.recovered g a.lease.executionEpoch r))
  | worked (g : ℕ) (a : Attempt) (codec : StoreCodec) (now : Timestamp) (p : Performed)
      (step? : Option LoopStep) (attempt : w.attempts g = some a)
      (works : Works a codec now w.store (p, step?)) :
      Moves w (.work g codec now)
        { (({ w with store := p.store }).setAttempt g
            { a with phase := p.phase, workspace := p.workspace }) with
          log := w.log ++ (if p.logged then step? else none).toList.map
            (.performed g a.lease.executionEpoch) }
  | rewound (id : Uuid) (now : Timestamp) (run : Run) (s' : RunStore) (row : CheckpointRecord)
      (rewind : rewind w.store id now = .ok (some run, s')) (stored : w.store.checkpoint? id = some row) :
      Moves w (.rewind id now)
        (({ w with store := s' }).record
          (.rewound run.executionEpoch row.checkpoint.workspaceSnapshot.workspace))

section Moves

variable {w : World}

theorem World.claimAttempt_moves (worker : String) (token : Uuid) (at' ex : Timestamp) :
    w.Moves (.claim worker token at' ex) (w.claimAttempt worker token at' ex) := by
  unfold claimAttempt
  split
  next lease s' hc =>
    obtain ⟨hn, -⟩ | ⟨_, hl, -, -, ht, hep, hs, hle, hlc, hg, hown⟩ := claim_inv hc
    · cases hn
    · cases hl
      exact .claimed _ lease s' (ht.managed hep) hg hs hown hle hlc
  · exact .idle _
  · exact .idle _

variable {g : ℕ} {a : Attempt}

theorem World.startAttempt_moves (ha : w.attempts g = some a) (at' : Timestamp)
    : w.Moves (.start g at') (w.startAttempt g a at') := by
  unfold startAttempt
  split
  · exact .halted _ g a _ ha raisedPhase_halted
  rename_i lease s' hs
  obtain ⟨-, ht, hid, hep, hcp, hg, -⟩ := start_inv hs
  refine .started _ g a lease s' _ ha (ht.managed hid.executionEpoch) hid.leaseGeneration
    hid.lastCheckpointId hg hep hcp ?_
  split
  · exact .inr rfl
  · exact .inl rfl

theorem World.loadAttempt_moves (ha : w.attempts g = some a) (env : LoopEnv) (codec : RecoveryCodec)
    (context : Option BuiltContext) (now : Timestamp) :
    w.Moves (.load g env codec context now) (w.loadAttempt g a env codec context now) := by
  unfold loadAttempt
  split
  next f hl => exact .unrecovered g a env codec context now f ha hl
  next r hl => exact .recovered g a env codec context now r ha hl

theorem World.workAttempt_moves (ha : w.attempts g = some a) (codec : StoreCodec) (now : Timestamp)
    : w.Moves (.work g codec now) (w.workAttempt g a codec now) := by
  have hw := a.work_works codec now w.store
  cases hwr : a.work codec now w.store with
  | mk p step? =>
    rw [hwr] at hw
    have hmv := World.Moves.worked g a codec now p step? ha hw
    cases step? with
    | none => simpa [workAttempt, hwr, setAttempt] using hmv
    | some =>
      cases hlog : p.logged with
      | true =>
        simpa [workAttempt, hwr, hlog, record, setAttempt] using hmv
      | false =>
        simpa [workAttempt, hwr, hlog, setAttempt] using hmv

theorem World.finishAttempt_moves {result : RunExecutionResult} (ha : w.attempts g = some a)
    (hph : a.phase = .finishing result) (at' : Timestamp) :
    w.Moves (.finish g at') (w.finishAttempt g a result at') := by
  unfold finishAttempt
  obtain he | ⟨_, ho⟩ := w.store.commit_cases (AgentPlatform.finish w.store a.lease result at')
  · rw [he]
    exact .halted _ g a _ ha halted_ended
  · obtain ⟨-, -, -, ht, hep, hs, -, hg, hl⟩ := finish_inv ho
    exact .finished _ g a result _ ha hph (ht.managed hep) hg hl hs

theorem World.rewindRun_moves (id : Uuid) (now : Timestamp) :
    w.Moves (.rewind id now) (w.rewindRun id now) := by
  unfold World.rewindRun
  split
  next run s' row hr hs => exact .rewound id now run s' row hr hs
  · exact .idle _

theorem World.managed_moves (op : SystemOp) {s' : RunStore}
    (h : s' = w.store ∨ w.store.Managed s' ∧ w.store.run.SameIdentity s'.run) :
    w.Moves op { w with store := s' } := by
  rcases h with rfl | ⟨ht, hid⟩
  · exact .idle _
  · exact .managed op s' ht hid.leaseGeneration hid.lastCheckpointId

theorem World.apply_moves (w : World) (op : SystemOp) : w.Moves op (w.apply op) := by
  cases op with
  | claim worker token at' ex => exact claimAttempt_moves worker token at' ex
  | start g at' =>
    simp only [World.apply]
    split
    · split
      next a ha _ _ => exact startAttempt_moves ha at'
      · exact .idle _
    · exact .idle _
  | heartbeat g at' ex =>
    simp only [World.apply]
    split
    next a ha =>
      refine managed_moves _ ?_
      obtain he | ⟨_, ho⟩ := w.store.commit_cases (AgentPlatform.heartbeat w.store a.lease at' ex)
      · exact .inl he
      · obtain ⟨-, ht, hid⟩ := heartbeat_inv ho
        exact .inr ⟨ht.managed hid.executionEpoch, hid⟩
    · exact .idle _
  | load g env codec context now =>
    simp only [World.apply]
    split
    · split
      next a ha _ _ => exact loadAttempt_moves ha env codec context now
      · exact .idle _
    · exact .idle _
  | work g codec now =>
    simp only [World.apply]
    split
    next a ha => exact workAttempt_moves ha codec now
    · exact .idle _
  | interrupt g i =>
    simp only [World.apply]
    split
    next a ha =>
      split
      · exact .halted _ g a _ ha i.phase_halted
      · exact .halted _ g a _ ha i.phase_halted
      · exact .halted _ g a _ ha i.phase_halted
      · exact .idle _
    · exact .idle _
  | finish g at' =>
    simp only [World.apply]
    split
    next a ha =>
      split
      next result hph => exact finishAttempt_moves ha hph at'
      · exact .idle _
    · exact .idle _
  | recoverExpired at' =>
    refine managed_moves _ ?_
    obtain he | ho := w.store.commit_map_cases (AgentPlatform.recoverExpired w.store at')
    · exact .inl he
    · obtain ⟨ht, hid, -⟩ := recoverExpired_inv ho
      exact .inr ⟨ht.managed hid.executionEpoch, hid⟩
  | requestCancel at' =>
    refine managed_moves _ ?_
    obtain he | ho := w.store.commit_map_cases (AgentPlatform.requestCancel w.store at')
    · exact .inl he
    · obtain ⟨ht, hid, -⟩ := requestCancel_inv ho
      exact .inr ⟨ht.managed hid.executionEpoch, hid⟩
  | decide id d =>
    refine managed_moves _ ?_
    obtain he | ⟨_, ho⟩ := w.store.commit_cases (decideApproval w.store id d)
    · exact .inl he
    · obtain he | ⟨-, -, -, -, -, -, hm, ht, hc, hid, -⟩ := decideApproval_inv ho
      · exact .inl he
      · exact .inr ⟨⟨hm, ht, hc, hid.executionEpoch⟩, hid⟩
  | rewind id now => exact rewindRun_moves id now

end Moves

/-! ### How an attempt comes to run, and how an action comes to be recorded -/

theorem World.setAttempt_attempts {g g' : ℕ} {a a' : Attempt} :
    (w.setAttempt g a).attempts g' = some a' ↔
      g' = g ∧ a' = a ∨ g' ≠ g ∧ w.attempts g' = some a' := by
  by_cases h : g' = g
  · simp [setAttempt, h, eq_comm]
  · simp [setAttempt, h]

inductive World.Runs (w : World) (g : ℕ) (a' : Attempt) (rest : List LoopStep) (x' : Executor) :
    SystemOp → World → Prop
  | kept (op : SystemOp) (w' : World) (before : w.attempts g = some a')
      (saved : w'.store.toolCalls = w.store.toolCalls ∨
        ∃ g' codec now, g' ≠ g ∧ op = .work g' codec now) :
      Runs w g a' rest x' op w'
  | loaded (a : Attempt) (env : LoopEnv) (codec : RecoveryCodec) (context : Option BuiltContext)
      (now : Timestamp) (r : RunRecoveryState) (w' : World) (before : w.attempts g = some a)
      (load : load codec w.store a.lease now = .ok r)
      (lease : a'.lease = a.lease) (hash : a'.argumentHash = env.argumentHash)
      (workspace : a'.workspace = r.checkpoint.elim [] (·.workspaceSnapshot.workspace))
      (steps : rest = run env (loopInput a.lease r context))
      (executor : x' = { lastCheckpointId := r.checkpoint.map (·.id) })
      (store : w'.store = w.store)
      (log : w'.log = w.log ++ [.recovered g a.lease.executionEpoch r]) :
      Runs w g a' rest x' (.load g env codec context now) w'
  | approved (a : Attempt) (x : Executor) (codec : StoreCodec) (now : Timestamp)
      (approval returned : ApprovalRecord) (w' : World) (before : w.attempts g = some a)
      (phase : a.phase = .running rest x) (due : x.approvalDue = some approval)
      (create : createApprovalFenced w.store a.lease now approval = .ok (returned, w'.store))
      (lease : a'.lease = a.lease) (hash : a'.argumentHash = a.argumentHash)
      (workspace : a'.workspace = a.workspace)
      (executor : x' = { x with approvalDue := none }) (log : w'.log = w.log) :
      Runs w g a' rest x' (.work g codec now) w'
  | stepped (a : Attempt) (x : Executor) (codec : StoreCodec) (now : Timestamp) (step : LoopStep)
      (p : Performed) (w' : World) (before : w.attempts g = some a)
      (phase : a.phase = .running (step :: rest) x)
      (performs : Performs a.argumentHash codec a.lease now w.store a.workspace x rest step p)
      (next : p.phase = .running rest x') (lease : a'.lease = a.lease)
      (hash : a'.argumentHash = a.argumentHash) (workspace : a'.workspace = p.workspace)
      (store : w'.store = p.store)
      (log : w'.log = w.log ++ [.performed g a.lease.executionEpoch step]) :
      Runs w g a' rest x' (.work g codec now) w'

theorem Executor.after_running {rest' : List LoopStep} {event : AgentEvent}
    (h : x.after rest event = .running rest' x') : x' = x.noted event ∧ rest' = rest := by
  unfold after at h
  dsimp only at h
  split at h
  · cases h
  · cases h
    exact ⟨rfl, rfl⟩

theorem Performs.running {hash : JsonObject → String} {lease : RunLease} {w : Workspace}
    {rest' : List LoopStep} {step : LoopStep} (h : Performs hash codec lease now s w x rest step p)
    (hp : p.phase = .running rest' x') : p.logged ∧ rest' = rest := by
  cases h with
  | refused _ _ halted => exact absurd hp (halted.stopped _ _)
  | noted | saved => exact ⟨rfl, (after_running hp).2⟩
  | _ =>
    cases hp
    exact ⟨rfl, rfl⟩

theorem World.Moves.runs (h : w.Moves op w') {g : ℕ} {a' : Attempt} (ha : w'.attempts g = some a')
    (hph : a'.phase = .running rest x') : w.Runs g a' rest x' op w' := by
  have other : ∀ {w₁ : World} {g₁ : ℕ} {a₁ : Attempt}, w₁.attempts = w.attempts →
      a₁.phase.Stopped → (w₁.setAttempt g₁ a₁).attempts g = some a' → w.attempts g = some a' := by
    intro w₁ g₁ a₁ hs hst hset
    obtain ⟨-, rfl⟩ | ⟨-, hold⟩ := setAttempt_attempts.1 hset
    · exact absurd hph (hst _ _)
    · rw [← hs]
      exact hold
  cases h with
  | idle => exact .kept _ _ ha (.inl rfl)
  | managed _ _ tables => exact .kept _ _ ha (.inl tables.toolCalls)
  | claimed _ _ _ tables =>
    exact .kept _ _ (other rfl (by intro _ _; simp) ha) (.inl tables.toolCalls)
  | started _ _ _ _ _ _ _ tables _ _ _ _ _ next =>
    refine .kept _ _ (other rfl ?_ ha) (.inl tables.toolCalls)
    rcases next with rfl | rfl <;> (intro _ _; simp)
  | halted _ _ _ _ _ halted =>
    exact .kept _ _ (other rfl halted.stopped ha) (.inl rfl)
  | finished _ _ _ _ _ _ _ tables =>
    exact .kept _ _ (other rfl halted_ended.stopped ha) (.inl tables.toolCalls)
  | unrecovered => exact .kept _ _ (other rfl raisedPhase_halted.stopped ha) (.inl rfl)
  | recovered _ a env codec context now r attempt load =>
    obtain ⟨rfl, rfl⟩ | ⟨-, hold⟩ := setAttempt_attempts.1 ha
    · cases hph
      exact .loaded a env codec context now r _ attempt load rfl rfl rfl rfl rfl rfl rfl
    · exact .kept _ _ hold (.inl rfl)
  | worked g₁ a codec now p _ attempt works =>
    obtain ⟨rfl, rfl⟩ | ⟨hne, hold⟩ := setAttempt_attempts.1 ha
    · cases works with
      | resting stopped => exact absurd hph (stopped _ _)
      | refused _ halted => exact absurd hph (halted.stopped _ _)
      | approval _ x approval returned _ phase due create =>
        cases hph
        exact .approved a x codec now approval returned _ attempt phase due create rfl rfl rfl
          rfl (by simp)
      | exhausted => cases hph
      | step x step _ p phase _ performs =>
        obtain ⟨hlog, rfl⟩ := performs.running hph
        exact .stepped a x codec now step p _ attempt phase performs hph rfl rfl rfl rfl
          (by simp [hlog])
    · exact .kept _ _ hold (.inr ⟨g₁, codec, now, hne.symm, rfl⟩)
  | rewound _ _ _ _ _ rewind =>
    refine .kept _ _ ha (.inl ?_)
    obtain rfl | ⟨-, -, -, -, -, -, -, ht, -⟩ := rewind_inv rewind
    · rfl
    · exact ht

theorem World.Moves.performed (h : w.Moves op w') : (∃ entries, w'.log = w.log ++ entries ∧
      ∀ g epoch step, .performed g epoch step ∉ entries) ∨
    ∃ g a x codec now step rest p, op = .work g codec now ∧ w.attempts g = some a ∧
      a.phase = .running (step :: rest) x ∧
      Performs a.argumentHash codec a.lease now w.store a.workspace x rest step p ∧
      p.logged = true ∧ w'.store = p.store ∧
      w'.log = w.log ++ [.performed g a.lease.executionEpoch step] := by
  cases h with
  | unrecovered | recovered | rewound => exact .inl ⟨_, rfl, by simp⟩
  | worked g a codec now p _ attempt works =>
    cases works with
    | step x step rest p phase _ performs =>
      cases hlog : p.logged with
      | true =>
        exact .inr ⟨g, a, x, codec, now, step, rest, p, rfl, attempt, phase, performs, hlog,
          rfl, by simp⟩
      | false => exact .inl ⟨[], by simp, by simp⟩
    | _ => exact .inl ⟨[], by simp, by simp⟩
  | _ => exact .inl ⟨[], by simp [setAttempt], by simp⟩

theorem World.Moves.log_append (h : w.Moves op w') : ∃ entries, w'.log = w.log ++ entries := by
  obtain ⟨entries, hlog, -⟩ | ⟨_, _, _, _, _, _, _, _, -, -, -, -, -, -, hlog⟩ :=
    h.performed
  · exact ⟨entries, hlog⟩
  · exact ⟨_, hlog⟩

/-! ### The tables of a system history are those of a store history -/

def RunStore.Committed (s s' : RunStore) : Prop := s' = s ∨ ∃ op : StoreOp, s' = s.apply op

theorem RunStore.commit_ok {α : Type} {x : Except Failure (α × RunStore)} {a : α}
    (h : x = .ok (a, s')) : s.commit x = s' := by
  subst h
  rfl

theorem Performs.committed {hash : JsonObject → String} {lease : RunLease} {w : Workspace}
    {step : LoopStep} (h : Performs hash codec lease now s w x rest step p) :
    s.Committed p.store := by
  cases h with
  | saved _ c _ _ _ save =>
    exact .inr ⟨.saveToolCall lease now c, (commit_ok save).symm⟩
  | journaled startIndex messages occurredAt _ _ append =>
    exact .inr ⟨.appendTranscript codec lease now startIndex messages occurredAt,
      (commit_ok append).symm⟩
  | created _ _ _ create =>
    exact .inr ⟨.createCheckpoint lease now _, (commit_ok create).symm⟩
  | completed id _ _ _ _ complete =>
    exact .inr ⟨.completeCheckpoint lease now id _ _, (commit_ok complete).symm⟩
  | _ => exact .inl rfl

theorem Works.committed {a : Attempt} {step? : Option LoopStep} (h : Works a codec now s (p, step?))
    : s.Committed p.store := by
  cases h with
  | approval _ _ approval _ _ _ _ create =>
    exact .inr ⟨.createApproval a.lease now approval, (commit_ok create).symm⟩
  | step _ _ _ _ _ _ performs => exact performs.committed
  | _ => exact .inl rfl

theorem World.apply_committed (w : World) (op : SystemOp) :
    w.store.Committed (w.apply op).store := by
  cases op with
  | claim worker token at' ex =>
    simp only [World.apply, claimAttempt]
    split
    next lease s' hc => exact .inr ⟨.claim worker token at' ex, (commit_ok hc).symm⟩
    · exact .inl rfl
    · exact .inl rfl
  | start g at' =>
    simp only [World.apply, startAttempt]
    split
    · split
      · split
        · exact .inl rfl
        next a _ _ _ _ lease s' hs => exact .inr ⟨.start a.lease at', (commit_ok hs).symm⟩
      · exact .inl rfl
    · exact .inl rfl
  | heartbeat g at' ex =>
    simp only [World.apply]
    split
    next a _ => exact .inr ⟨.heartbeat a.lease at' ex, rfl⟩
    · exact .inl rfl
  | load =>
    simp only [World.apply, loadAttempt]
    split
    · split
      · split <;> exact .inl rfl
      · exact .inl rfl
    · exact .inl rfl
  | work g codec now =>
    simp only [World.apply]
    split
    next a _ =>
      have hco : w.store.Committed (a.work codec now w.store).1.store :=
        (a.work_works codec now w.store).committed
      have hst : (w.workAttempt g a codec now).store = (a.work codec now w.store).1.store := by
        unfold workAttempt
        dsimp only
        split
        · split <;> rfl
        · rfl
      rw [hst]
      exact hco
    · exact .inl rfl
  | interrupt =>
    simp only [World.apply]
    split
    · split <;> exact .inl rfl
    · exact .inl rfl
  | finish g at' =>
    simp only [World.apply]
    split
    next a _ =>
      split
      next result _ => exact .inr ⟨.finish a.lease result at', rfl⟩
      · exact .inl rfl
    · exact .inl rfl
  | recoverExpired at' => exact .inr ⟨.recoverExpired at', rfl⟩
  | requestCancel at' => exact .inr ⟨.requestCancel at', rfl⟩
  | decide id d => exact .inr ⟨.decide id d, rfl⟩
  | rewind id now =>
    simp only [World.apply, World.rewindRun]
    split
    next run s' row hr _ => exact .inr ⟨.rewind id now, (commit_ok hr).symm⟩
    · exact .inl rfl

theorem RunStore.WellFormed.of_committed (h : s.WellFormed) (hc : s.Committed s')
    : s'.WellFormed := by
  rcases hc with rfl | ⟨op, rfl⟩
  · exact h
  · exact h.apply op

end AgentPlatform
