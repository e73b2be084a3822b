/-
**Only complete, validated turns are executed, unless recovery resumes a call of another kind.**
-/

import AgentPlatform.LoopRefinement
import AgentPlatform.ResumedCalls

namespace AgentPlatform

open History (Admissible)

def Endorsed (pending : List GatewayToolCall) (past : List LoopStep) (call : GatewayToolCall) : Prop :=
  (∃ r : ModelTurnResult, .response r ∈ past ∧ r.finishReason = .toolCalls ∧
      r.invalidToolCalls = [] ∧ call ∈ r.toolCalls ∧ .validated r.toolCalls ∈ past) ∨
    call ∈ pending ∧ .validated pending ∈ past

def ExecutesEndorsed (pending : List GatewayToolCall) (past : List LoopStep) : LoopStep → Prop
  | .invokeTool call _ => Endorsed pending past call
  | _ => True

def TurnOrigin (pending : List GatewayToolCall) (past : List LoopStep) (calls : List GatewayToolCall)
    (invalid : List InvalidToolCall) : Prop :=
  calls = pending ∧ invalid = [] ∨
    ∃ r : ModelTurnResult, .response r ∈ past ∧ r.finishReason = .toolCalls ∧
      calls = r.toolCalls ∧ invalid = r.invalidToolCalls

def PhaseOrigin (pending : List GatewayToolCall) (past : List LoopStep) : LoopPhase → Prop
  | .responded result => .response result ∈ past
  | .proposed calls invalid => TurnOrigin pending past calls invalid
  | .executing calls _ => TurnOrigin pending past calls [] ∧ .validated calls ∈ past
  | _ => True

variable {pending calls : List GatewayToolCall} {past : List LoopStep} {log : List LogEntry}
    {g epoch : ℕ}

variable {past' rest : List LoopStep} {call : GatewayToolCall} {log' : List LogEntry}

theorem TurnOrigin.mono {invalid : List InvalidToolCall} (hsub : past ⊆ past')
    (h : TurnOrigin pending past calls invalid) : TurnOrigin pending past' calls invalid := by
  rcases h with h | ⟨r, hr, hre⟩
  · exact .inl h
  · exact .inr ⟨r, hsub hr, hre⟩

theorem PhaseOrigin.mono {phase : LoopPhase} (hsub : past ⊆ past')
    (h : PhaseOrigin pending past phase) : PhaseOrigin pending past' phase := by
  cases phase with
  | responded => exact hsub h
  | proposed => exact TurnOrigin.mono hsub h
  | executing => exact ⟨h.1.mono hsub, hsub h.2⟩
  | _ => trivial

theorem PhaseOrigin.endorsed {rest : List PreparedCall}
    (h : PhaseOrigin pending past (.executing calls rest)) (hsub : past ⊆ past')
    (hc : call ∈ calls) : Endorsed pending past' call := by
  obtain ⟨⟨rfl, -⟩ | ⟨r, hr, hf, rfl, hinv⟩, hval⟩ := h
  · exact .inr ⟨hc, hsub hval⟩
  · exact .inl ⟨r, hsub hr, hf, hinv.symm, hc, hsub hval⟩

variable {env : LoopEnv} {input : AgentLoopInput}

theorem Move.endorsed {c c' : Config} {steps : List LoopStep} (hm : Move env input c steps c')
    (h : PhaseOrigin (input.pendingToolCalls.map DurablePendingToolCall.toGateway) past c.phase) :
    Admissible remember
        (ExecutesEndorsed (input.pendingToolCalls.map DurablePendingToolCall.toGateway)) past steps ∧
      PhaseOrigin (input.pendingToolCalls.map DurablePendingToolCall.toGateway) (past ++ steps)
        c'.phase := by
  have hk : PhaseOrigin _ (past ++ steps) c.phase := h.mono (subset_append_left past steps)
  cases hm with
  | yield | journal => exact ⟨⟨trivial, trivial⟩, hk⟩
  | reannounce | receive | suspend => exact ⟨⟨trivial, trivial⟩, trivial⟩
  | resumed _ _ pending => exact ⟨trivial, .inl ⟨pending, rfl⟩⟩
  | request => exact ⟨⟨trivial, trivial, trivial⟩, trivial⟩
  | respond => exact ⟨⟨trivial, trivial⟩, by simp [PhaseOrigin]⟩
  | answer result phase declared =>
    rw [phase] at hk
    exact ⟨trivial, .inr ⟨result, hk, declared, rfl, rfl⟩⟩
  | reject =>
    refine ⟨trivial, ?_⟩
    dsimp only
    split <;> trivial
  | validate _ phase =>
    rw [phase] at hk
    exact ⟨⟨trivial, trivial⟩, hk, by simp⟩
  | replay _ _ _ _ phase | settle _ _ _ _ phase =>
    rw [phase] at hk
    exact ⟨trivial, hk⟩
  | execute _ _ _ _ _ _ phase prepared =>
      rw [phase] at h hk
      exact ⟨⟨h.endorsed (List.Subset.refl _) prepared.mem, trivial, trivial⟩, hk⟩
  | executeCheckpointed _ _ _ _ _ _ _ _ phase prepared
  | executeRolledBack _ _ _ _ _ _ _ phase prepared =>
    rw [phase] at h hk
    exact ⟨⟨trivial, h.endorsed (subset_append_left _ _) prepared.mem, trivial, trivial,
      trivial⟩, hk⟩
  | breakAfter _ _ _ _ _ _ k completion _ phase prepared =>
      rw [phase] at h
      have hc := h.endorsed (subset_append_left past [.createCheckpoint k]) prepared.mem
      cases completion with
      | none => exact ⟨⟨trivial, hc, trivial, trivial, trivial⟩, trivial⟩
      | some => exact ⟨⟨trivial, hc, trivial, trivial, trivial, trivial⟩, trivial⟩
  | flush _ phase =>
    refine ⟨?_, by rcases phase with ⟨-, rfl⟩ | ⟨-, rfl⟩ <;> trivial⟩
    clear hk h
    induction c.state.emitted generalizing past with
    | nil => trivial
    | cons _ _ ih => exact ⟨trivial, ih⟩
  | _ => exact ⟨trivial, trivial⟩

theorem run_endorsed (env : LoopEnv) (input : AgentLoopInput) : Admissible remember
      (ExecutesEndorsed (input.pendingToolCalls.map DurablePendingToolCall.toGateway)) []
      (run env input) := by
  exact run_monitored
    (fun c past => PhaseOrigin (input.pendingToolCalls.map DurablePendingToolCall.toGateway) past
      c.phase)
    (fun c steps c' past hm h => hm.endorsed h) trivial

/-- The responses recorded as received to their end in an epoch. -/
def receivedTurns (log : List LogEntry) (epoch : ℕ) : List ModelTurnResult :=
  log.filterMap fun
    | .performed _ e (.response r) =>
      if e = epoch ∧ r.finishReason = .toolCalls ∧ r.invalidToolCalls = [] then some r else none
    | _ => none

def validations (log : List LogEntry) (epoch : ℕ) : List (List GatewayToolCall) :=
  log.filterMap fun
    | .performed _ e (.validated calls) => if e = epoch then some calls else none
    | _ => none

def ValidatedTurn (log : List LogEntry) (epoch : ℕ) (r : ModelTurnResult) : Prop :=
  ∃ calls ∈ validations log epoch, ∀ c ∈ r.toolCalls, c ∈ calls

theorem mem_receivedTurns {r : ModelTurnResult} (h : .performed g epoch (.response r) ∈ log)
    (hf : r.finishReason = .toolCalls) (hinv : r.invalidToolCalls = [])
    : r ∈ receivedTurns log epoch :=
  mem_filterMap.2 ⟨_, h, by simp [hf, hinv]⟩

theorem mem_validations (h : .performed g epoch (.validated calls) ∈ log)
    : calls ∈ validations log epoch :=
  mem_filterMap.2 ⟨_, h, by simp⟩

def CompleteTurn (log : List LogEntry) (epoch : ℕ) (call : GatewayToolCall) : Prop :=
  ∃ r ∈ receivedTurns log epoch, call ∈ r.toolCalls ∧ ValidatedTurn log epoch r

/-- **The property**: whenever a handler was invoked, its call belonged to a complete turn. -/
def World.OnlyCompleteTurns (w : World) : Prop :=
  ∀ past g epoch call effect rest,
    w.log = past ++ .performed g epoch (.invokeTool call effect) :: rest →
    CompleteTurn past epoch call

def Resumable (log : List LogEntry) (epoch : ℕ) (calls : List GatewayToolCall)
    (call : GatewayToolCall) : Prop :=
  ∃ r ∈ receivedTurns log epoch, call ∈ r.toolCalls ∧
    (ValidatedTurn log epoch r ∨ ∀ c ∈ r.toolCalls, c ∈ calls)

instance (log : List LogEntry) (epoch : ℕ) (r : ModelTurnResult) :
    Decidable (ValidatedTurn log epoch r) :=
  inferInstanceAs (Decidable (∃ calls ∈ validations log epoch, ∀ c ∈ r.toolCalls, _))

instance (log : List LogEntry) (epoch : ℕ) (calls : List GatewayToolCall) (call : GatewayToolCall) :
    Decidable (Resumable log epoch calls call) :=
  inferInstanceAs (Decidable (∃ r ∈ receivedTurns log epoch, _ ∧ (_ ∨ ∀ c ∈ r.toolCalls, _)))

instance (log : List LogEntry) (epoch : ℕ) (call : GatewayToolCall) :
    Decidable (CompleteTurn log epoch call) :=
  inferInstanceAs (Decidable (∃ r ∈ receivedTurns log epoch, _ ∧ _))

def LoadsCompleteTurns (w : World) : SystemOp → Prop
  | .load g _ _ _ _ => ∀ a ∈ w.attempts g, ∀ c ∈ openCalls w.store a.lease.executionEpoch,
        Resumable w.log a.lease.executionEpoch
          ((openCalls w.store a.lease.executionEpoch).map ToolCall.toGateway) c.toGateway
  | _ => True

instance (w : World) : ∀ op : SystemOp, Decidable (LoadsCompleteTurns w op)
  | .load g _ _ _ _ =>
    inferInstanceAs (Decidable (∀ a ∈ w.attempts g, ∀ c ∈ openCalls w.store a.lease.executionEpoch,
        Resumable _ _ _ _))
  | .claim .. | .start .. | .heartbeat .. | .work .. | .interrupt .. | .finish ..
  | .recoverExpired .. | .requestCancel .. | .decide .. | .rewind .. => isTrue trivial

theorem ValidatedTurn.mono {r : ModelTurnResult} (hsub : log ⊆ log') (h : ValidatedTurn log epoch r)
    : ValidatedTurn log' epoch r := by
  obtain ⟨calls, hmem, hc⟩ := h
  exact ⟨calls, List.filterMap_subset _ hsub hmem, hc⟩

theorem Resumable.mono (hsub : log ⊆ log') (h : Resumable log epoch calls call) :
    Resumable log' epoch calls call := by
  obtain ⟨r, hr, hc, hv⟩ := h
  exact ⟨r, List.filterMap_subset _ hsub hr, hc, hv.imp (·.mono hsub) id⟩

structure RunsCompleteTurns (log : List LogEntry) (g epoch : ℕ) (rest : List LoopStep)
    (pending : List GatewayToolCall) (past : List LoopStep) : Prop where
  recorded : ∀ step ∈ past, .performed g epoch step ∈ log
  resumable : ∀ call ∈ pending, Resumable log epoch pending call
  endorsed : Admissible remember (ExecutesEndorsed pending) past rest

theorem RunsCompleteTurns.mono (hsub : log ⊆ log')
    (h : RunsCompleteTurns log g epoch rest pending past) :
    RunsCompleteTurns log' g epoch rest pending past :=
  ⟨fun step hs => hsub (h.recorded step hs),
    fun call hc => (h.resumable call hc).mono hsub, h.endorsed⟩

theorem RunsCompleteTurns.step {step : LoopStep}
    (h : RunsCompleteTurns log g epoch (step :: rest) pending past) :
    RunsCompleteTurns (log ++ [.performed g epoch step]) g epoch rest pending (past ++ [step]) := by
  have hm := h.mono (subset_append_left log [.performed g epoch step])
  refine ⟨?_, hm.resumable, h.endorsed.2⟩
  intro step' hs'
  rcases mem_append.1 hs' with hs' | hs'
  · exact hm.recorded step' hs'
  · obtain rfl := mem_singleton.1 hs'
    simp

theorem RunsCompleteTurns.completeTurn {effect : ToolEffect}
    (h : RunsCompleteTurns log g epoch (.invokeTool call effect :: rest) pending past) :
    CompleteTurn log epoch call := by
  obtain ⟨r, hr, hf, hinv, hca, hval⟩ | ⟨hca, hval⟩ := h.endorsed.1
  · exact ⟨r, mem_receivedTurns (h.recorded _ hr) hf hinv, hca, r.toolCalls,
      mem_validations (h.recorded _ hval), fun _ hc => hc⟩
  · obtain ⟨r, hr, hmem, hv | hall⟩ := h.resumable call hca
    · exact ⟨r, hr, hmem, hv⟩
    · exact ⟨r, hr, hmem, pending, mem_validations (h.recorded _ hval), hall⟩

def World.TurnsTracked (w : World) : Prop :=
  ∀ g a rest x, w.attempts g = some a → a.phase = .running rest x →
    ∃ pending past, RunsCompleteTurns w.log g a.lease.executionEpoch rest pending past

theorem runsCompleteTurns_loaded {s : RunStore} {lease : RunLease} {codec : RecoveryCodec}
    {now : Timestamp} {r : RunRecoveryState} {env : LoopEnv} {context : Option BuiltContext}
    (hl : load codec s lease now = .ok r) (ho : ∀ c ∈ openCalls s lease.executionEpoch,
      Resumable log lease.executionEpoch
        ((openCalls s lease.executionEpoch).map ToolCall.toGateway) c.toGateway) :
    RunsCompleteTurns log g lease.executionEpoch (run env (loopInput lease r context))
      (r.pendingToolCalls.map DurablePendingToolCall.toGateway) [] := by
  refine ⟨by simp, ?_, run_endorsed env (loopInput lease r context)⟩
  obtain ⟨-, -, _, _, pending, -, -, hp, rfl, -⟩ := load_inv hl
  change ∀ call ∈ pending.map DurablePendingToolCall.toGateway,
    Resumable log _ (pending.map DurablePendingToolCall.toGateway) call
  rw [loadPending_toGateway hp, RunStore.resumedCalls]
  split
  · intro call hca
    obtain ⟨c, hc, rfl⟩ := mem_map.1 hca
    exact ho c hc
  · intro call hca
    cases hca

theorem World.TurnsTracked.apply {w : World} {op : SystemOp} (h : w.TurnsTracked)
    (hop : LoadsCompleteTurns w op) : (w.apply op).TurnsTracked := by
  have hmv := w.apply_moves op
  obtain ⟨_, hlog⟩ := hmv.log_append
  intro g a rest x ha hph
  have hsub : w.log ⊆ (w.apply op).log := by
    rw [hlog]
    exact subset_append_left _ _
  cases hmv.runs ha hph with
  | kept _ _ before =>
    obtain ⟨pending, past, hrun⟩ := h g a rest x before hph
    exact ⟨pending, past, hrun.mono hsub⟩
  | loaded a₀ _ _ _ _ _ _ before load lease _ _ steps =>
      rw [lease, steps]
      exact ⟨_, _, (runsCompleteTurns_loaded load (hop a₀ before)).mono hsub⟩
  | approved a₀ x₀ _ _ _ _ _ before phase _ _ lease =>
      obtain ⟨pending, past, hrun⟩ := h g a₀ rest x₀ before phase
      rw [lease]
      exact ⟨pending, past, hrun.mono hsub⟩
  | stepped a₀ x₀ _ _ step _ _ before phase _ _ lease _ _ _ log =>
    obtain ⟨pending, past, hrun⟩ := h g a₀ _ x₀ before phase
    rw [lease, log]
    exact ⟨pending, past ++ [step], hrun.step⟩

theorem World.apply_invoked {w : World} {op : SystemOp} {past rest : List LogEntry} {g epoch : ℕ}
    {call : GatewayToolCall} {effect : ToolEffect}
    (hs : (w.apply op).log = past ++ .performed g epoch (.invokeTool call effect) :: rest) :
    (∃ rest', w.log = past ++ .performed g epoch (.invokeTool call effect) :: rest') ∨
      ∃ a x rest', past = w.log ∧ epoch = a.lease.executionEpoch ∧ w.attempts g = some a ∧
        a.phase = .running (.invokeTool call effect :: rest') x := by
  obtain ⟨_, hlog, hn⟩ | ⟨_, a, x, _, _, _, rest', _, -, ha, hph, -, -, -, hlog⟩ :=
    (w.apply_moves op).performed
  · rw [hlog] at hs
    refine (History.occurs_append hs).imp_right fun ⟨past', _, hnew⟩ => ?_
    exact absurd (hnew ▸ mem_append_right past' (mem_cons_self ..)) (hn g epoch _)
  · rw [hlog] at hs
    refine (History.occurs_concat hs).imp_right fun ⟨hp, he⟩ => ?_
    cases he
    exact ⟨a, x, rest', hp, rfl, ha, hph⟩

theorem World.OnlyCompleteTurns.apply {w : World} {op : SystemOp} (ht : w.TurnsTracked)
    (h : w.OnlyCompleteTurns) : (w.apply op).OnlyCompleteTurns := by
  intro past g epoch call effect rest hs
  obtain ⟨_, hold⟩ | ⟨a, x, _, rfl, rfl, ha, hph⟩ := World.apply_invoked hs
  · exact h past g epoch call effect _ hold
  · obtain ⟨_, past, hrun⟩ := ht g a _ x ha hph
    exact hrun.completeTurn

/-- **Only complete, validated turns are executed.** -/
theorem only_completeTurns (x : Submission) (ops : List SystemOp)
    (hops : Admissible World.apply LoadsCompleteTurns (submitted x) ops) :
    (ops.foldl World.apply (submitted x)).OnlyCompleteTurns := by
  have hinv := Admissible.invariant (fun w : World => w.TurnsTracked ∧ w.OnlyCompleteTurns)
    (fun w op h hop => ⟨h.1.apply hop, World.OnlyCompleteTurns.apply h.1 h.2⟩)
    ⟨fun g a rest x ha => (by cases ha),
      fun past g epoch call effect rest h => (by simp [submitted] at h)⟩ hops
  exact hinv.2

def listingEnv (cutOff : Bool) : LoopEnv :=
  scriptedEnv 10 (fun name => if name = "list_files" then some .readOnly else none)
    [if cutOff then
        { events := [.toolCall { id := "call-1", name := "list_files", arguments := .nil }] }
      else proposing [{ id := "call-1", name := "list_files", arguments := .nil }]]
    (fun _ => { items := [.completed .nil] })

def lostHistory (cutOff : Bool) (count : ℕ) : List SystemOp :=
  attemptOps 1 (listingEnv cutOff) 5 100 ++ workOps 1 count 6 ++
  [.recoverExpired 101] ++ attemptOps 2 (listingEnv cutOff) 102 200 ++ workOps 2 7 103

theorem only_completeTurns_received :
    Admissible World.apply LoadsCompleteTurns (submitted (scriptedSubmission .autoApprove))
        (lostHistory false 6) ∧ ((lostHistory false 6).foldl World.apply
        (submitted (scriptedSubmission .autoApprove))).OnlyCompleteTurns :=
  have hops : Admissible World.apply LoadsCompleteTurns
      (submitted (scriptedSubmission .autoApprove)) (lostHistory false 6) := by decide
  ⟨hops, only_completeTurns _ _ hops⟩

theorem cutOff_turn_executed :
    let w := (lostHistory true 5).foldl World.apply (submitted (scriptedSubmission .autoApprove))
    let call : GatewayToolCall := { id := "call-1", name := "list_files", arguments := .nil }
    .performed 2 1 (.invokeTool call .readOnly) ∈ w.log ∧ ¬ CompleteTurn w.log 1 call := by
  decide

end AgentPlatform
