/-
**A resumed call is saved under the turn number one, whatever turn it was issued in.**
-/

import AgentPlatform.ResumedCalls

namespace AgentPlatform

open EventFactory

def LoopStep.startsTurn : LoopStep → Bool
  | .emit event =>
    match event.body with
    | .modelRequestStarted .. => true
    | _ => false
  | _ => false

def turnsCounted (steps : List LoopStep) : ℕ := steps.countP LoopStep.startsTurn

theorem Executor.noted_turnNumber (x : Executor) (event : AgentEvent) :
    (x.noted event).turnNumber = x.turnNumber := by
  unfold Executor.noted
  split <;> rfl

theorem turnsCounted_eq_zero {steps : List LoopStep} (h : ∀ step ∈ steps, step.startsTurn = false) :
    turnsCounted steps = 0 := by
  rw [turnsCounted, List.countP_eq_zero]
  intro step hs
  simp [h step hs]

theorem journalNew_startsTurn {env : LoopEnv} {st : LoopState} :
    ∀ step ∈ (journalNew env st).1, step.startsTurn = false := by
  unfold journalNew
  split
  · simp
  · simp [LoopStep.startsTurn]

theorem run_reannounces (env : LoopEnv) {input : AgentLoopInput}
    (hp : input.pendingToolCalls ≠ []) :
    ∃ (before : List LoopStep) (events : List AgentEvent) (after : List LoopStep),
      run env input = before ++ events.map .emit ++ after ∧
      events.map (·.body) = input.pendingToolCalls.map (fun p =>
        EventBody.toolCallReceived "approval-resume" p.toGateway (env.argumentHash p.arguments)) ∧
      ∀ step ∈ before, step.startsTurn = false := by
  let st := initialLoopState env input
  let opening := st.emit env
    [.runStarted input.attempt input.workerId,
     .contextBuildStarted st.transcript.length input.checkpointId]
  let calls := input.pendingToolCalls.map DurablePendingToolCall.toGateway
  let announced := if endsWithToolCalls opening.2.transcript calls then opening.2
    else opening.2.announce "" calls
  let journaled := journalNew env announced
  let events := (journaled.2.factory.makeAll env (calls.map fun call =>
    .toolCallReceived "approval-resume" call (env.argumentHash call.arguments))).1
  have hr : ∃ turn, (resumePending env input opening.2).1 =
      journaled.1 ++ events.map .emit ++ turn := ⟨_, rfl⟩
  obtain ⟨turn, ht⟩ := hr
  have hrun : ∃ after, run env input =
      opening.1 ++ (resumePending env input opening.2).1 ++ after := by
    unfold run
    dsimp only
    rw [if_neg hp]
    split
    next steps _ h =>
      have hs : (resumePending env input opening.2).1 = steps := congrArg Prod.fst h
      exact ⟨[], by rw [hs, append_nil]⟩
    next steps st' h =>
      have hs : (resumePending env input opening.2).1 = steps := congrArg Prod.fst h
      exact ⟨_, by rw [hs]⟩
  obtain ⟨after, ha⟩ := hrun
  refine ⟨opening.1 ++ journaled.1, events, turn ++ after, ?_, ?_, ?_⟩
  · rw [ha, ht]
    simp only [append_assoc]
  · rw [makeAll_bodies, map_map]
    rfl
  intro step hst
  rcases mem_append.1 hst with hst | hst
  · simp only [opening, LoopState.emit, makeAll_cons, makeAll_nil,
      map_cons, map_nil, mem_cons, not_mem_nil, or_false] at hst
    rcases hst with rfl | rfl <;> rfl
  · exact journalNew_startsTurn step hst

def ToolCall.sameInvocation (c row : ToolCall) : Prop :=
  c.turnNumber = row.turnNumber ∧ c.toolName = row.toolName ∧ c.argumentHash = row.argumentHash

theorem saveToolCallRow_conflict_iff {row c : ToolCall} :
    saveToolCallRow (some row) c = .error (toolCallIdConflict c) ↔ row.identity ≠ c.identity := by
  unfold saveToolCallRow
  dsimp only
  constructor
  · intro h hid
    rw [if_neg (not_not.2 hid)] at h
    split at h
    · cases h
    split at h
    · cases h
    split at h
    · simp [toolCallStateConflict, toolCallIdConflict] at h
    · cases h
  · intro hid
    rw [if_pos hid]

theorem load_pending_row {codec : RecoveryCodec} {s : RunStore} {lease : RunLease} {now : Timestamp}
    {r : RunRecoveryState} (hs : s.WellFormed) (hl : load codec s lease now = .ok r)
    {p : DurablePendingToolCall} (hp : p ∈ r.pendingToolCalls) {row : ToolCall}
    (hrow : s.toolCall? lease.executionEpoch p.toolCallId = some row) :
    p.toolCallId = row.id ∧ p.toolName = row.toolName ∧ p.arguments = row.arguments ∧
      row.argumentHash = codec.argumentHash row.arguments := by
  obtain ⟨-, -, _, _, pending, -, -, hpe, rfl, -⟩ := load_inv hl
  obtain ⟨heq, hha⟩ := loadPending_ok hpe
  change p ∈ pending at hp
  have hpH := hha p hp
  rw [heq] at hp
  split at hp
  · obtain ⟨c, hc, rfl⟩ := mem_map.1 hp
    obtain ⟨hmem, hep, -⟩ := mem_openCalls.1 hc
    have hf : (resumedCall s c).toolCallId = c.id ∧ (resumedCall s c).toolName = c.toolName ∧
        (resumedCall s c).arguments = c.arguments ∧
        (resumedCall s c).argumentHash = c.argumentHash := by
      unfold resumedCall
      split <;> exact ⟨rfl, rfl, rfl, rfl⟩
    obtain ⟨hid, hn, ha, hh⟩ := hf
    have hlk : s.toolCall? lease.executionEpoch c.id = some c :=
      hs.callKeys.lookup_eq_some_iff.2 ⟨hmem, by simp [ToolCall.key, hep]⟩
    rw [hid, hlk] at hrow
    cases hrow
    rw [hh, ha] at hpH
    exact ⟨hid, hn, ha, hpH⟩
  · cases hp

/-- **A resumed call keeps its identity exactly when it was issued in the first turn.** -/
theorem resumedCall_identity_iff (x : Submission) (ops : List StoreOp) {codec : RecoveryCodec}
    {lease : RunLease} {now : Timestamp} {r : RunRecoveryState}
    (hload : load codec (ops.foldl RunStore.apply (submit x)) lease now = .ok r) {env : LoopEnv}
    (hhash : env.argumentHash = codec.argumentHash) (context : Option BuiltContext)
    {p : DurablePendingToolCall} (hp : p ∈ r.pendingToolCalls) {row : ToolCall}
    (hrow : (ops.foldl RunStore.apply (submit x)).toolCall? lease.executionEpoch p.toolCallId =
      some row) : ∃ before event after,
      run env (loopInput lease r context) = before ++ LoopStep.emit event :: after ∧ event.body =
        .toolCallReceived "approval-resume" p.toGateway (env.argumentHash p.arguments) ∧
      ∀ executor : Executor, executor.turnNumber = turnsCounted before →
        ∃ record, executor.eventRecord lease event = some record ∧
          (record.sameInvocation row ↔ row.turnNumber = 1) ∧
          ∀ stored : ToolCall, stored.identity = row.identity →
            (saveToolCallRow (some stored) record = .error (toolCallIdConflict record) ↔
              row.turnNumber ≠ 1) := by
  obtain ⟨-, hname, hargs, hrowHash⟩ := load_pending_row (wellFormed_history x ops) hload hp hrow
  have hne : (loopInput lease r context).pendingToolCalls ≠ [] := List.ne_nil_of_mem hp
  obtain ⟨before, events, after, hrun, hbodies, hbefore⟩ := run_reannounces env hne
  have hmem : EventBody.toolCallReceived "approval-resume" p.toGateway
      (env.argumentHash p.arguments) ∈ events.map (·.body) := by
    rw [hbodies]
    exact mem_map.2 ⟨p, hp, rfl⟩
  obtain ⟨event, hevent, hbody⟩ := mem_map.1 hmem
  obtain ⟨earlier, later, rfl⟩ := List.append_of_mem hevent
  refine ⟨before ++ earlier.map .emit, event, later.map .emit ++ after, ?_, hbody, ?_⟩
  · rw [hrun]
    simp
  intro executor hturn
  have hzero : turnsCounted (before ++ earlier.map .emit) = 0 := by
    refine turnsCounted_eq_zero fun step hstep => ?_
    rcases mem_append.1 hstep with hstep | hstep
    · exact hbefore step hstep
    obtain ⟨e, he, rfl⟩ := mem_map.1 hstep
    have : e.body ∈ (earlier ++ event :: later).map (·.body) :=
      mem_map_of_mem (mem_append_left _ he)
    rw [hbodies] at this
    obtain ⟨_, -, hq⟩ := mem_map.1 this
    simp [LoopStep.startsTurn, ← hq]
  rw [hzero] at hturn
  have hrecord : (receivedRecord lease executor.turnNumber p.toGateway
      (env.argumentHash p.arguments)).identity =
      (row.argumentHash, row.toolName, 1, row.arguments) := by
    simp [receivedRecord, ToolCall.identity, DurablePendingToolCall.toGateway, hturn, hhash, hname,
      hargs, hrowHash]
  refine ⟨receivedRecord lease executor.turnNumber p.toGateway (env.argumentHash p.arguments), ?_,
    ?_, ?_⟩
  · simp only [Executor.eventRecord, hbody]
  · simp only [ToolCall.identity, Prod.mk.injEq] at hrecord
    obtain ⟨h1, h2, h3, -⟩ := hrecord
    rw [ToolCall.sameInvocation, h1, h2, h3]
    simp [eq_comm]
  · intro stored hstored
    rw [saveToolCallRow_conflict_iff, hstored, hrecord]
    simp [ToolCall.identity]

def secondTurnEnv : LoopEnv :=
  scriptedEnv 10
    (fun name =>
      if name = "list_files" then some .readOnly
      else if name = "ask_user" then some .interaction
      else none)
    [proposing [{ id := "call-1", name := "list_files", arguments := .nil }],
     proposing [{ id := "call-2", name := "ask_user", arguments := .nil }]]
    (fun _ => { items := [.completed .nil] })

def suspendedRecovery (turn : ℕ) : RunRecoveryState :=
  { messages := [{ role := .user, content := .text "task" }]
    taskPlan := untaskedPlan
    pendingToolCalls :=
      [{ toolCallId := "call-2", toolName := "ask_user", turnNumber := turn, arguments := .nil
         argumentHash := "hash", approvalId := some 20, approvalApproved := some true
         approvalResponse := some "yes" }] }

theorem resumedCall_identity_first_turn : ∃ before event after,
      run secondTurnEnv (loopInput (demoLease 2 8 200) (suspendedRecovery 1) none) =
        before ++ LoopStep.emit event :: after ∧ event.body = .toolCallReceived "approval-resume"
        { id := "call-2", name := "ask_user", arguments := .nil } "hash" ∧
      ∀ executor : Executor, executor.turnNumber = turnsCounted before →
        ∃ record, executor.eventRecord (demoLease 2 8 200) event = some record ∧
          (record.sameInvocation (askUser 1 .waitingApproval) ↔ 1 = 1) ∧
          ∀ stored : ToolCall, stored.identity = (askUser 1 .waitingApproval).identity →
            (saveToolCallRow (some stored) record = .error (toolCallIdConflict record) ↔ 1 ≠ 1) :=
  resumedCall_identity_iff (scriptedSubmission .autoApprove) (suspension 1 ++ takeover)
    (show load scriptedRecovery _ (demoLease 2 8 200) 10 = .ok (suspendedRecovery 1) from rfl) rfl
    none (mem_singleton.2 rfl) (show _ = some (askUser 1 .waitingApproval) from rfl)

def secondTurnHistory : List SystemOp :=
  attemptOps 1 secondTurnEnv 5 100 ++ workOps 1 22 6 ++ [.finish 1 7,
   .decide 20 { approved := true, decidedBy := "human", decidedAt := 40, response := some "yes" }] ++
  attemptOps 2 secondTurnEnv 41 200 ++ workOps 2 3 42

theorem resumedCall_conflicts_in_second_turn :
    let w := secondTurnHistory.foldl World.apply (submitted (scriptedSubmission .autoApprove))
    (w.store.toolCall? 1 "call-2").map (fun c => (c.turnNumber, c.status)) =
        some (2, .waitingApproval) ∧
      (w.attempts 2).bind Attempt.reportedCode = some "tool_call_id_conflict" := by
  decide

end AgentPlatform
