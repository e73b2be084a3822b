/-
**Every run of the agent loop is a path of the loop's transition system.**
-/

import AgentPlatform.LoopMachine

namespace AgentPlatform

open Config DurablePendingToolCall EventBody GatewayEvent LoopState ModelTurnResult Move Outcomes List Option
  ToolOutcome

open History (Admissible Path)

variable {env : LoopEnv} {input : AgentLoopInput}

/-! ### Executing one call -/

theorem ToolOutcome.terminal_failed {name : String} {hash : Option String} {e : ErrorDetail} :
    ({ toolName := name, argumentHash := hash, status := .failed, error := some e } :
      ToolOutcome).Terminal :=
  .inr ⟨.inl rfl, rfl, by simp⟩

theorem ToolOutcome.terminal_completed {name : String} {hash : Option String} {r : JsonObject} :
    ({ toolName := name, argumentHash := hash, status := .completed, result := some r } :
      ToolOutcome).Terminal :=
  .inl ⟨rfl, by simp, rfl⟩

def Config.inTurn (journaled : ℕ) (last : Option Uuid) (st : TurnState) (phase : LoopPhase) :
    Config :=
  { state := st, journaled := journaled, lastCheckpointId := st.lastCheckpointId <|> last
    phase := phase }

def afterCall (calls : List GatewayToolCall) (rest : List PreparedCall) (terminal : Bool) :
    LoopPhase :=
  if terminal then .closing else .executing calls rest

theorem createBeforeTool_ok {ctx : TurnContext} {st : TurnState} {co : CheckpointCoordinator}
    {call : GatewayToolCall} {k : CheckpointRequest} {f : EventFactory}
    (hco : env.checkpoints = some co) (h : createBeforeTool env ctx st co call = (.ok k, f)) :
    CheckpointFor env st call k ∧ f = (st.factory.read env).2 ∧
      checkpointMatchesRequest ctx { st with factory := f } call k = true := by
  unfold createBeforeTool at h
  split at h
  · cases h
  next snapshot hs =>
    cases h
    refine ⟨⟨?_, rfl, rfl, rfl⟩, rfl, by simp [checkpointMatchesRequest]⟩
    simp [LoopEnv.checkpointId?, hco, hs, Except.toOption]

variable {id : String} {c : Config}

theorem outputOf_map {output : List BufferedOutput} :
    ∀ b ∈ output.map (fun o => toolOutput id o.chunk o.truncated (o.channel = .stderr)),
      OutputOf id b := by
  intro b hb
  obtain ⟨o, -, rfl⟩ := mem_map.1 hb
  exact ⟨_, _, _, rfl⟩

section Call

variable {ctx : TurnContext} {st : TurnState} {calls : List GatewayToolCall} {item : PreparedCall}
  {rest : List PreparedCall} {journaled : ℕ} {last : Option Uuid}

variable {effect : ToolEffect}

theorem runPrepared_move (hi : PreparedFor env calls item)
    (hnew : st.outcomes item.call.id = none) (hreg : env.tools.effect? item.call.name = some effect)
    (hh : effect.sideEffecting = false) :
    Move env input (.inTurn journaled last st (.executing calls (item :: rest)))
      (runPrepared env st item effect none).steps
      (.inTurn journaled last (runPrepared env st item effect none).state
        (afterCall calls rest (runPrepared env st item effect none).terminal)) := by
  cases hr : (runTool env item.call false).outcome with
  | error =>
    simp only [runPrepared, isSome_none, hr, afterCall]
    exact execute _ calls item rest effect _ _ rfl hi hnew hreg hh outputOf_map
      terminal_failed (by simp)
  | ok =>
    simp only [runPrepared, isSome_none, hr, afterCall]
    refine execute _ calls item rest effect _ _ rfl hi hnew hreg hh outputOf_map
      terminal_completed ?_
    rintro _ hre
    cases hre
    exact hr

theorem completeCheckpointed_move {co : CheckpointCoordinator} {k : CheckpointRequest}
    {output : List EventBody} {result : JsonObject} (hi : PreparedFor env calls item)
    (hnew : st.outcomes item.call.id = none) (hreg : env.tools.effect? item.call.name = some effect)
    (hs : effect.sideEffecting) (hout : ∀ b ∈ output, OutputOf item.call.id b)
    (hk : CheckpointFor env st item.call k) (run : TurnRun)
    (hrun : run = completeCheckpointed env ((st.checkpointed env k).emit env
      (.toolStarted item.call.id item.call.name :: output)) item co k result) :
    Move env input (.inTurn journaled last st (.executing calls (item :: rest)))
      ([.createCheckpoint k, .invokeTool item.call effect, .toolReturned item.call effect] ++
        run.steps) (.inTurn journaled last run.state (afterCall calls rest run.terminal)) := by
  unfold completeCheckpointed at hrun
  dsimp only at hrun
  cases hsn : co.snapshotAfter item.call.id with
  | none =>
    rw [hsn] at hrun
    subst hrun
    exact breakAfter _ calls item rest effect output _ k none _ rfl hi hnew hreg hs hout hk
  | some snapshot =>
    rw [hsn] at hrun
    dsimp only at hrun
    split at hrun
    · subst hrun
      exact breakAfter _ calls item rest effect output _ k (some snapshot) _ rfl hi hnew
        hreg hs hout hk
    next hp =>
      subst hrun
      have hr : validWorkspaceRevision snapshot.revision := by
        by_contra hne
        rw [if_pos (not_eq_true _ ▸ hne)] at hp
        cases hp
      exact executeCheckpointed _ calls item rest effect output _ k snapshot rfl hi hnew
        hreg hs hout hk rfl terminal_completed
        ⟨hr, JsonObject.get?_set_self _ _ _⟩

theorem runSideEffecting_move (hi : PreparedFor env calls item)
    (hnew : st.outcomes item.call.id = none) (hreg : env.tools.effect? item.call.name = some effect)
    (hs : effect.sideEffecting) (run : TurnRun)
    (hrun : run = runSideEffecting env ctx st item effect) :
    Move env input (.inTurn journaled last st (.executing calls (item :: rest))) run.steps
      (.inTurn journaled last run.state (afterCall calls rest run.terminal)) := by
  unfold runSideEffecting at hrun
  dsimp only at hrun
  cases hco : env.checkpoints with
  | none =>
    rw [hco] at hrun
    subst hrun
    exact breakBefore _ calls item rest _ rfl hi hnew
  | some co =>
    rw [hco] at hrun
    dsimp only at hrun
    cases hc : createBeforeTool env ctx st co item.call with
    | mk created f =>
      rw [hc] at hrun
      cases created with
      | error failure =>
        have hf : f = st.factory := by
          unfold createBeforeTool at hc
          split at hc
          · cases hc; rfl
          · cases hc
        subst hf
        cases failure with
        | domain | other =>
          subst hrun
          exact breakBefore _ calls item rest _ rfl hi hnew
      | ok k =>
        obtain ⟨hk, rfl, hm⟩ := createBeforeTool_ok hco hc
        dsimp only at hrun
        rw [if_pos hm] at hrun
        cases hr : (runTool env item.call true).outcome with
        | error =>
          simp only [runPrepared, isSome_some, hr] at hrun
          split at hrun
          · subst hrun
            exact executeRolledBack _ calls item rest effect _ _ k rfl hi hnew hreg
              hs outputOf_map hk rfl terminal_failed
          · subst hrun
            exact breakAfter _ calls item rest effect _ _ k none false rfl hi hnew
              hreg hs outputOf_map hk
        | ok =>
          simp only [runPrepared, isSome_some, hr] at hrun
          subst hrun
          exact completeCheckpointed_move hi hnew hreg hs outputOf_map hk _ rfl

def DecidedBy (input : AgentLoopInput) (ctx : TurnContext) : Prop :=
  ∀ id, ctx.decisions id = some true → ∀ response, ctx.responses id = some response →
    ∃ p ∈ input.pendingToolCalls, p.toolCallId = id ∧ p.approvalApproved = some true ∧
      p.approvalResponse ≠ none

theorem executeCall_move (hc : DecidedBy input ctx) (hit : PreparedFor env calls item)
    (hd : st.outcomes item.call.id = none →
      item.effect.any (requiresApproval ctx.approvalMode) = true →
      ctx.decisions item.call.id ≠ none)
    (run : TurnRun) (hrun : run = executeCall env ctx st item) :
    Move env input (.inTurn journaled last st (.executing calls (item :: rest))) run.steps
      (.inTurn journaled last run.state (afterCall calls rest run.terminal)) := by
  unfold executeCall at hrun
  cases hout : st.outcomes item.call.id with
  | some prior =>
    rw [hout] at hrun
    subst hrun
    exact replay _ calls item rest prior rfl hit hout
  | none =>
    rw [hout] at hrun
    dsimp only at hrun
    split at hrun
    · subst hrun
      exact settle _ calls item rest _ rfl hit hout terminal_failed
        (fun h => absurd h (by simp [deniedOutcome]))
    next hnot =>
      cases he : item.effect with
      | none =>
        rw [he] at hrun
        subst hrun
        exact close _
      | some effect =>
        have hreg := hit.effect effect he
        have hin : effect = .interaction → ctx.decisions item.call.id = some true := by
          intro hi
          have hne := hd hout (by simp [he, hi, requiresApproval])
          obtain ⟨b, hb⟩ := ne_none_iff_exists'.1 hne
          cases b with
          | true => exact hb
          | false => exact absurd hb hnot
        rw [he] at hrun
        cases effect with
        | interaction =>
          dsimp only at hrun
          subst hrun
          refine settle _ calls item rest _ rfl hit hout ?_ ?_
          · unfold interactionOutcome
            split
            · exact terminal_failed
            · exact terminal_completed
          · intro hco
            refine ⟨hreg, ?_⟩
            cases hr : ctx.responses item.call.id with
            | none => simp [interactionOutcome, hr] at hco
            | some response => exact hc _ (hin rfl) response hr
        | workspaceMutation | command =>
          subst hrun
          exact runSideEffecting_move hit hout hreg rfl _ rfl
        | readOnly | controlMutation =>
          subst hrun
          exact runPrepared_move hit hout hreg rfl

end Call

/-! ### A tool turn -/

theorem prepareCalls_prepared {outcomes : Outcomes} {all : List GatewayToolCall} :
    ∀ {calls : List GatewayToolCall} {prepared : List String}, (∀ c ∈ calls, c ∈ all) →
      ∀ item ∈ prepareCalls env outcomes prepared calls, PreparedFor env all item := by
  intro calls
  induction calls with
  | nil => intro prepared _ item hi; simp [prepareCalls] at hi
  | cons call calls ih =>
    intro prepared hall item hi
    have hca := hall call (mem_cons_self ..)
    have hr : ∀ c ∈ calls, c ∈ all := fun c hc => hall c (mem_cons_of_mem _ hc)
    simp only [prepareCalls] at hi
    split at hi
    · rcases mem_cons.1 hi with rfl | hi
      · exact ⟨hca, rfl, by simp⟩
      · exact ih hr item hi
    · rcases mem_cons.1 hi with rfl | hi
      · cases hp : env.tools.prepare call.name call.arguments with
        | error => exact ⟨hca, rfl, by simp⟩
        | ok =>
          refine ⟨hca, rfl, ?_⟩
          intro e he
          cases he
          unfold ToolRegistry.prepare at hp
          split at hp
          · cases hp
          next effect' hef =>
            split at hp
            · cases hp
            · cases hp
              exact hef
      · exact ih hr item hi

theorem prepareCalls_calls {outcomes : Outcomes} :
    ∀ {calls : List GatewayToolCall} {prepared : List String},
      (prepareCalls env outcomes prepared calls).map (·.call) = calls := by
  intro calls
  induction calls with
  | nil => intro prepared; rfl
  | cons _ _ ih =>
    intro prepared
    simp only [prepareCalls]
    split
    · simp [ih]
    · split <;> simp [ih]

theorem Outcomes.set_eq_none {o : Outcomes} {id' : String} {x : ToolOutcome}
    (h : o.set id x id' = none) : o id' = none := by
  unfold Outcomes.set at h
  split at h
  · cases h
  · exact h

theorem Move.outcomes_none {c' : Config} {steps : List LoopStep} (hm : Move env input c steps c')
    (h : c'.state.outcomes id = none) : c.state.outcomes id = none := by
  cases hm with
  | settle | execute | executeCheckpointed | executeRolledBack => exact set_eq_none h
  | reject _ _ _ _ _ kept =>
    rcases kept id with he | ⟨he, -⟩
    · exact he.symm.trans h
    · exact he
  | _ => exact h

section Turn

variable {ctx : TurnContext} {calls : List GatewayToolCall} {journaled : ℕ} {last : Option Uuid}

def afterTurn (terminal : Bool) : LoopPhase := if terminal then .closing else .settled

theorem executeCalls_path (hc : DecidedBy input ctx) :
    ∀ {items : List PreparedCall} {st : TurnState}, (∀ item ∈ items, PreparedFor env calls item) →
      (∀ item ∈ items, st.outcomes item.call.id = none →
        item.effect.any (requiresApproval ctx.approvalMode) = true →
        ctx.decisions item.call.id ≠ none) →
      Path (Move env input) (.inTurn journaled last st (.executing calls items))
        (executeCalls env ctx st items).steps
        (.inTurn journaled last (executeCalls env ctx st items).state
          (afterTurn (executeCalls env ctx st items).terminal)) := by
  intro items
  induction items with
  | nil =>
    intro st _ _
    exact Path.single (executed _ calls rfl)
  | cons item items ih =>
    intro st hp hd
    have hm : Move env input
        (.inTurn journaled last st (.executing calls (item :: items))) _ _ :=
      executeCall_move hc (hp item (mem_cons_self ..))
        (hd item (mem_cons_self ..)) _ rfl
    simp only [executeCalls]
    split
    next ht =>
      rw [ht] at hm ⊢
      exact Path.single hm
    next hg =>
      rw [not_eq_true] at hg
      rw [hg] at hm
      refine (Path.single hm).append (ih ?_ ?_)
      · exact fun item' hi' => hp item' (mem_cons_of_mem _ hi')
      · intro item' hi' hn
        exact hd item' (mem_cons_of_mem _ hi') (hm.outcomes_none hn)

theorem Outcomes.setDefault_kept (o : Outcomes) (id id' : String) (x : ToolOutcome) :
    o.setDefault id x id' = o id' ∨ o id' = none ∧ o.setDefault id x id' = some x := by
  cases hid : o id with
  | some => exact .inl (by simp [setDefault, hid])
  | none =>
    by_cases h : id' = id
    · subst h
      exact .inr ⟨hid, by simp [setDefault, hid, Outcomes.set]⟩
    · exact .inl (by simp [setDefault, hid, Outcomes.set, h])

def recordAll (xs : List (String × ToolOutcome)) (o : Outcomes) : Outcomes :=
  xs.foldl (fun o x => o.setDefault x.1 x.2) o

def failedOutcome (name : String) (hash : Option String) (error : ErrorDetail) : ToolOutcome :=
  { toolName := name, argumentHash := hash, status := .failed, error := some error }

theorem rejectedOutcomes_eq (outcomes : Outcomes) (prepared : List PreparedCall)
    (invalid : List InvalidToolCall) : rejectedOutcomes outcomes prepared invalid = recordAll
      (prepared.map (fun item => (item.call.id, failedOutcome item.call.name
          (some item.argumentHash) (item.validationError.getD turnRejected))) ++
        invalid.map fun c => (c.toolCallId, failedOutcome c.toolName none c.error)) outcomes := by
  simp [rejectedOutcomes, recordAll, foldl_map, failedOutcome]

theorem recordAll_kept {xs : List (String × ToolOutcome)} (o : Outcomes) (id : String)
    (hf : ∀ x ∈ xs, ∃ name hash error, x.2 = failedOutcome name hash error) :
    recordAll xs o id = o id ∨ o id = none ∧ ∃ x, recordAll xs o id = some x ∧
      x.status = .failed ∧ x.result = none ∧ x.error ≠ none := by
  induction xs generalizing o with
  | nil => exact .inl rfl
  | cons x xs ih =>
    have hr := ih (o.setDefault x.1 x.2) fun y hy => hf y (mem_cons_of_mem _ hy)
    obtain h | ⟨hn, h⟩ := o.setDefault_kept x.1 id x.2
    · rwa [h] at hr
    · obtain h' | ⟨hn', -⟩ := hr
      · obtain ⟨name, hash, error, hx⟩ := hf x (mem_cons_self ..)
        exact .inr ⟨hn, x.2, h'.trans h, by simp [hx, failedOutcome]⟩
      · rw [h] at hn'
        cases hn'

theorem rejectedOutcomes_kept (outcomes : Outcomes) (prepared : List PreparedCall)
    (invalid : List InvalidToolCall) (id : String) :
    rejectedOutcomes outcomes prepared invalid id = outcomes id ∨
      outcomes id = none ∧ ∃ o, rejectedOutcomes outcomes prepared invalid id = some o ∧
        o.status = .failed ∧ o.result = none ∧ o.error ≠ none := by
  rw [rejectedOutcomes_eq]
  refine recordAll_kept outcomes id fun x hx => ?_
  rcases mem_append.1 hx with hx | hx <;> obtain ⟨_, -, rfl⟩ := mem_map.1 hx <;>
    exact ⟨_, _, _, rfl⟩

variable {st : TurnState} {invalid : List InvalidToolCall}

theorem rejectConflictingTurn_move {conflict : String × String} :
    Move env input (.inTurn journaled last st (.proposed calls invalid))
      (rejectConflictingTurn env st calls invalid conflict).steps
      (.inTurn journaled last (rejectConflictingTurn env st calls invalid conflict).state
        (afterTurn (rejectConflictingTurn env st calls invalid conflict).terminal)) := by
  let conflictError : ErrorDetail :=
    { code := "tool_call_id_conflict"
      message := "a stable tool-call identifier was reused for a different tool or arguments"
      details := .ofList [("tool_call_id", .str conflict.1), ("tool_name", .str conflict.2)] }
  let rejectedError : ErrorDetail :=
    { code := "tool_turn_rejected", message := "the tool turn was rejected before execution" }
  have h : Move env input _ _ _ := reject (.inTurn journaled last st (.proposed calls invalid))
    (calls.map fun c => (c, if c.id = conflict.1 then conflictError else rejectedError))
    (invalid.map fun c => (c, if c.toolCallId = conflict.1 then conflictError else c.error))
    (some conflictError) st.outcomes (by simp [Config.inTurn, comp_def])
    (fun id => .inl rfl)
  simpa [Config.inTurn, rejectConflictingTurn, afterTurn, comp_def] using h

theorem rejectInvalidTurn_move {prepared : List PreparedCall}
    (hp : prepared.map (·.call) = calls) :
    Move env input (.inTurn journaled last st (.proposed calls invalid))
      (rejectInvalidTurn env ctx st prepared invalid).steps
      (.inTurn journaled last (rejectInvalidTurn env ctx st prepared invalid).state
        (afterTurn (rejectInvalidTurn env ctx st prepared invalid).terminal)) := by
  let limitError : ErrorDetail :=
    { code := "semantic_retry_limit", message := "model exceeded the semantic retry budget"
      details := .ofList
        [("retries", jsonNat (ctx.semanticRetryCount + 1)),
          ("limit", jsonNat env.config.maxSemanticRetries)] }
  have h : Move env input _ _ _ := reject (.inTurn journaled last st (.proposed calls invalid))
    (prepared.map fun item => (item.call, item.validationError.getD turnRejected))
    (invalid.map fun c => (c, c.error))
    (if env.config.maxSemanticRetries < ctx.semanticRetryCount + 1 then some limitError else none)
    (rejectedOutcomes st.outcomes prepared invalid)
    (by simp [Config.inTurn, comp_def, ← hp])
    (rejectedOutcomes_kept st.outcomes prepared invalid)
  by_cases hl : env.config.maxSemanticRetries < ctx.semanticRetryCount + 1
  · simpa [Config.inTurn, rejectInvalidTurn, afterTurn, comp_def, hl, limitError] using h
  · simpa [Config.inTurn, rejectInvalidTurn, afterTurn, comp_def, hl] using h

theorem executeTurn_path (hct : DecidedBy input ctx) (run : TurnRun)
    (hrun : run = executeTurn env ctx st calls invalid) :
    Path (Move env input) (.inTurn journaled last st (.proposed calls invalid)) run.steps
      (.inTurn journaled last run.state (afterTurn run.terminal)) := by
  unfold executeTurn at hrun
  split at hrun
  · subst hrun
    exact Path.single rejectConflictingTurn_move
  dsimp only at hrun
  split at hrun
  · subst hrun
    exact Path.single (rejectInvalidTurn_move prepareCalls_calls)
  rename_i hval
  obtain rfl : invalid = [] := by_contra fun hne => hval (.inl hne)
  subst hrun
  split
  ·
    refine Path.single (suspend _ calls _ rfl filter_sublist ?_)
    intro item hi
    obtain ⟨-, hk⟩ := mem_filter.1 hi
    simp only [and_eq_true, isNone_iff_eq_none] at hk
    refine ⟨hk.1.1, ?_⟩
    intro hn
    simp [hn] at hk
  next ha =>
    refine (Path.single (Move.validate _ calls rfl)).append
      (executeCalls_path hct (prepareCalls_prepared fun _ hc => hc) ?_)
    intro item hi hn hreq hu
    apply ha
    intro hnil
    have : item ∈ awaitingApproval ctx st.outcomes (prepareCalls env st.outcomes [] calls) :=
      mem_filter.2 ⟨hi, by simp [show st.outcomes _ = none from hn, hreq, hu]⟩
    rw [hnil] at this
    cases this

end Turn

/-! ### Yielding and journaling -/

def Config.ofLoop (st : LoopState) (phase : LoopPhase) : Config :=
  { state := { factory := st.factory, transcript := st.transcript, outcomes := st.outcomes }
    journaled := st.journaledCount, lastCheckpointId := st.lastCheckpointId, phase := phase }

theorem yield_path {bodies : List EventBody} (hp : ∀ b ∈ bodies, b.plain = true)
    (hc : ∀ b ∈ bodies, ∀ text id, b = .runCompleted text id → id = c.lastCheckpointId) :
    Path (Move env input) c ((c.state.factory.makeAll env bodies).1.map .emit)
      { c with state := { c.state with factory := (c.state.factory.makeAll env bodies).2 } } := by
  induction bodies generalizing c with
  | nil => exact Path.nil c
  | cons body _ ih =>
    have hm : Move env input c _ _ := yield c body (hp body (mem_cons_self ..))
      (hc body (mem_cons_self ..))
    have hr := @ih (c.stamped env body) (fun b hb => hp b (mem_cons_of_mem _ hb))
      (fun b hb => hc b (mem_cons_of_mem _ hb))
    exact (Path.single hm).append hr

def EventBody.silent (b : EventBody) : Bool :=
  b.plain && (match b with
    | .runCompleted .. => false
    | _ => true)

theorem silent_path {bodies : List EventBody} (hs : ∀ b ∈ bodies, b.silent = true) :
    Path (Move env input) c ((c.state.factory.makeAll env bodies).1.map .emit)
      { c with state := { c.state with factory := (c.state.factory.makeAll env bodies).2 } } := by
  refine yield_path (fun b hb => ?_) (fun b hb text id h => ?_)
  · have := hs b hb
    simp only [silent, and_eq_true] at this
    exact this.1
  · subst h
    simpa [silent] using hs _ hb

theorem journalNew_path (st : LoopState) {state : TurnState} {last : Option Uuid}
    {phase : LoopPhase} (hf : state.factory = st.factory)
    (ht : state.transcript = st.transcript) : Path (Move env input)
      { state := state, journaled := st.journaledCount, lastCheckpointId := last, phase := phase }
      (journalNew env st).1
      { state := { state with factory := (journalNew env st).2.factory }
        journaled := (journalNew env st).2.journaledCount, lastCheckpointId := last
        phase := phase } := by
  unfold journalNew
  split
  · rw [← hf]
    exact Path.nil _
  rename_i hnew
  have hm : Move env input
      { state := state, journaled := st.journaledCount, lastCheckpointId := last
        phase := phase } _ _ :=
    Move.journal _ (by rw [ht]; exact Nat.lt_of_not_le hnew)
  rw [hf, ht] at hm
  exact Path.single hm

theorem journalNew_state (st : LoopState) :
    (journalNew env st).2 = { st with
      factory := (journalNew env st).2.factory
      journaledCount := (journalNew env st).2.journaledCount } := by
  unfold journalNew
  split <;> rfl

theorem journalNew_loop (st : LoopState) (phase : LoopPhase) :
    Path (Move env input) (.ofLoop st phase) (journalNew env st).1
      (.ofLoop (journalNew env st).2 phase) := by
  have h : Path (Move env input) (.ofLoop st phase) _ _ := journalNew_path st rfl rfl
  rw [journalNew_state]
  exact h

theorem toolTurn_path {st : LoopState} {ctx : TurnContext} {calls : List GatewayToolCall}
    {invalid : List InvalidToolCall} (hc : DecidedBy input ctx) :
    Path (Move env input) (.ofLoop st (.proposed calls invalid))
      (toolTurn env st ctx calls invalid).1 (.ofLoop (toolTurn env st ctx calls invalid).2.1
        (if (toolTurn env st ctx calls invalid).2.2 then .closing else .idle)) := by
  have he : Path (Move env input) (.ofLoop st (.proposed calls invalid)) _ _ :=
    executeTurn_path hc _ rfl
  let executed := executeTurn env ctx
    { factory := st.factory, transcript := st.transcript, outcomes := st.outcomes } calls invalid
  let after : LoopState := { st with
    factory := executed.state.factory
    transcript := executed.state.transcript
    outcomes := executed.state.outcomes
    lastCheckpointId := executed.state.lastCheckpointId <|> st.lastCheckpointId
    taskPlan := executed.state.updatedTaskPlan.getD st.taskPlan
    semanticRetryCount := st.semanticRetryCount + executed.semanticFailures }
  unfold toolTurn
  dsimp only
  rw [journalNew_state]
  refine (he.append (journalNew_path after rfl rfl)).append (Path.single ?_)
  refine flush _ _ ?_
  unfold afterTurn
  split
  · exact .inr ⟨rfl, rfl⟩
  · exact .inl ⟨rfl, rfl⟩

/-! ### A model turn -/

def Config.streamed (st : LoopState) (r : GatewayRequest) (s : StreamState) : Config :=
  .ofLoop { st with factory := s.factory } (.streaming r s.toolCalls)

def StreamsTo (env : LoopEnv) (input : AgentLoopInput) (st : LoopState) (r : GatewayRequest)
    (s s' : StreamState) : Prop :=
  ∃ new, s'.events = s.events ++ new ∧
    Path (Move env input) (.streamed st r s) (new.map .emit) (.streamed st r s')

section Stream

variable {st : LoopState} {r : GatewayRequest} {s s' s'' : StreamState} {turn prior : ℕ}

theorem StreamsTo.refl : StreamsTo env input st r s s := ⟨[], by simp, Path.nil _⟩

theorem StreamsTo.trans (h : StreamsTo env input st r s s')
    (h' : StreamsTo env input st r s' s'') : StreamsTo env input st r s s'' := by
  obtain ⟨new, hnew, hp⟩ := h
  obtain ⟨new', hnew', hp'⟩ := h'
  exact ⟨new ++ new', by rw [hnew', hnew, append_assoc], by simpa using hp.append hp'⟩

theorem StreamsTo.emit (hf : s'.factory = s.factory) (he : s'.events = s.events)
    (hc : s'.toolCalls = s.toolCalls) {bodies : List EventBody}
    (hs : ∀ b ∈ bodies, b.silent = true) : StreamsTo env input st r s (s'.emit env bodies) := by
  refine ⟨_, congrArg (· ++ _) he, ?_⟩
  have h : Path (Move env input) (.streamed st r s) _ _ := silent_path hs
  rw [streamed] at h
  simpa [streamed, StreamState.emit, ofLoop, hf, hc] using h

theorem modelTextDelta_silent {id : String} {chunks : List String} :
    ∀ b ∈ chunks.map (modelTextDelta id), b.silent = true := by
  intro b hb
  obtain ⟨_, -, rfl⟩ := mem_map.1 hb
  rfl

theorem StreamsTo.reject {id name : String} {error : ErrorDetail} :
    StreamsTo env input st r s (s.reject env r.modelCallId id name error) :=
  StreamsTo.emit rfl rfl rfl (by simp [silent, plain])

theorem StreamsTo.receive {call : GatewayToolCall}
    (hp : (s.toolCalls ++ [call]).Sublist (env.gateway r).proposedCalls) :
    StreamsTo env input st r s (({ s with toolCalls := s.toolCalls ++ [call] }).emit env
        [.toolCallReceived r.modelCallId call (env.argumentHash call.arguments)]) :=
  ⟨_, rfl, Path.single (Move.receive _ r s.toolCalls call rfl hp)⟩

theorem streamText_to {delta : String} :
    StreamsTo env input st r s (streamText env r.modelCallId turn s delta).1 := by
  simp only [streamText]
  split
  · exact ⟨[], by simp, Path.nil _⟩
  · split
    · exact ⟨[], by simp, Path.nil _⟩
    · split
      · exact ⟨[], by simp, Path.nil _⟩
      · exact StreamsTo.emit rfl rfl rfl modelTextDelta_silent

theorem streamCall_to {call : GatewayToolCall}
    (hp : (s.toolCalls ++ [call]).Sublist (env.gateway r).proposedCalls) :
    StreamsTo env input st r s (streamCall env r.modelCallId prior s call).1 := by
  simp only [streamCall]
  split
  · exact StreamsTo.emit rfl rfl rfl (by simp [silent, plain])
  · split
    · rw [checkToolCallLimit_state]
      exact StreamsTo.reject
    · rw [checkToolCallLimit_state]
      exact StreamsTo.receive hp

theorem streamStep_to {event : GatewayEvent}
    (he : (s.toolCalls ++ event.call?.toList).Sublist (env.gateway r).proposedCalls) :
    StreamsTo env input st r s (streamStep env r.modelCallId turn prior s event).1 := by
  unfold streamStep
  split
  · exact StreamsTo.refl
  split
  · exact StreamsTo.refl
  cases event with
  | textDelta => exact streamText_to
  | toolCall => exact streamCall_to he
  | invalidToolCall =>
    dsimp only
    rw [checkToolCallLimit_state]
    exact StreamsTo.reject
  | responseCompleted => exact ⟨[], by simp, Path.nil _⟩
  | invalid => exact StreamsTo.refl

theorem streamLoop_to {events : List GatewayEvent}
    (he : (s.toolCalls ++ events.filterMap call?).Sublist
      (env.gateway r).proposedCalls) :
    StreamsTo env input st r s (streamLoop env r.modelCallId turn prior s events).1 := by
  induction events generalizing s with
  | nil => exact StreamsTo.refl
  | cons event rest ih =>
    have hc : (event :: rest).filterMap call? =
        event.call?.toList ++ rest.filterMap call? := by
      cases h : event.call? <;> simp [h]
    rw [hc, ← append_assoc] at he
    have hs : StreamsTo env input st r s
        (streamStep env r.modelCallId turn prior s event).1 :=
      streamStep_to ((sublist_append_left _ _).trans he)
    have hca := streamStep_toolCalls env r.modelCallId turn prior s event
    unfold streamLoop
    split
    next h => rwa [h] at hs
    next h =>
      rw [h] at hs hca
      exact hs.trans (ih ((hca.append_right _).trans he))

theorem streamFinish_to : StreamsTo env input st r s (streamFinish env r.modelCallId turn s).1 := by
  unfold streamFinish
  split
  · exact StreamsTo.refl
  dsimp only
  split
  · exact StreamsTo.refl
  · split
    · exact StreamsTo.refl
    · exact StreamsTo.emit rfl rfl rfl modelTextDelta_silent

theorem streamFinish_result {result : ModelTurnResult}
    (h : (streamFinish env r.modelCallId turn s).2 = .result result) :
    (streamFinish env r.modelCallId turn s).1.toolCalls = result.toolCalls := by
  unfold streamFinish at h ⊢
  split
  next hn => simp [hn] at h
  rename_i reason hs
  simp only [hs] at h ⊢
  split at h
  · cases h
  · cases h
    rename_i hl
    rw [if_neg hl]

theorem modelTurn_path (factory : EventFactory) (hf : factory = st.factory) :
    let turned := modelTurn env r.modelCallId turn prior factory r
    Path (Move env input) (.ofLoop st (.streaming r [])) (turned.1.events.map .emit)
        (.streamed st r turned.1) ∧
      ∀ result, turned.2 = .result result → turned.1.toolCalls = result.toolCalls := by
  subst hf
  have hl : StreamsTo env input st r { factory := st.factory }
      (streamLoop env r.modelCallId turn prior { factory := st.factory } (env.gateway r).events).1 :=
    streamLoop_to (List.Sublist.refl _)
  have hp : ∀ s, StreamsTo env input st r { factory := st.factory } s →
      Path (Move env input) (.ofLoop st (.streaming r [])) (s.events.map .emit)
        (.streamed st r s) := by
    rintro s ⟨_, hnew, hp⟩
    simp only [nil_append] at hnew
    rw [hnew]
    exact hp
  unfold modelTurn
  dsimp only
  split
  next h =>
    rw [h] at hl
    exact ⟨hp _ hl, by simp⟩
  next h =>
    rw [h] at hl
    split
    · exact ⟨hp _ hl, by simp⟩
    · exact ⟨hp _ (hl.trans streamFinish_to), fun _ => streamFinish_result⟩

end Stream

/-! ### The loop -/

def GoesOn (env : LoopEnv) (input : AgentLoopInput) (c : Config)
    (ran : List LoopStep × Option LoopState) : Prop :=
  ∃ c', Path (Move env input) c ran.1 c' ∧ ∀ st', ran.2 = some st' → c' = .ofLoop st' .idle

theorem GoesOn.of_path {c' : Config} {steps : List LoopStep} {next : Option LoopState}
    {ran : List LoopStep × Option LoopState} (hp : Path (Move env input) c steps c')
    (hr : GoesOn env input c' ran) (hn : next = ran.2) :
    GoesOn env input c (steps ++ ran.1, next) := by
  obtain ⟨c'', hp', hg⟩ := hr
  exact ⟨c'', hp.append hp', hn ▸ hg⟩

section Turns

variable {st : LoopState} {phase : LoopPhase}

theorem failRun_goesOn {error : ErrorDetail} :
    GoesOn env input (.ofLoop st phase) (failRun env st error) :=
  ⟨_, silent_path (forall_mem_singleton.2 rfl), by simp [failRun]⟩

theorem turnContext_decidedBy : DecidedBy input (turnContext input st) := by
  intro id h
  cases h

variable {r : ModelTurnResult}

theorem toolResponse_goesOn (hd : r.finishReason = .toolCalls) :
    GoesOn env input (.ofLoop st (.responded r)) (toolResponse env input st r) := by
  let answered : LoopState :=
    if r.text ≠ "" ∨ r.toolCalls ≠ [] then st.announce r.text r.toolCalls else st
  have ha : Move env input (.ofLoop st (.responded r)) []
      (.ofLoop answered (.proposed r.toolCalls r.invalidToolCalls)) := by
    have h : Move env input (.ofLoop st (.responded r)) _ _ := answer _ r rfl hd
    by_cases ht : r.text ≠ "" ∨ r.toolCalls ≠ []
    · simpa only [answered, if_pos ht, ofLoop, announce] using h
    · simpa only [answered, if_neg ht, ofLoop] using h
  let turned := toolTurn env (journalNew env answered).2
    (turnContext input (journalNew env answered).2) r.toolCalls r.invalidToolCalls
  have hn : (toolResponse env input st r).2 = if turned.2.2 then none else some turned.2.1 := rfl
  have htu : Path (Move env input)
      (.ofLoop (journalNew env answered).2 (.proposed r.toolCalls r.invalidToolCalls)) turned.1
      (.ofLoop turned.2.1 (if turned.2.2 then .closing else .idle)) :=
    toolTurn_path turnContext_decidedBy
  refine ⟨_, (Path.single ha).append ((journalNew_loop answered _).append htu), ?_⟩
  intro st' hst'
  rw [hn] at hst'
  split at hst'
  · cases hst'
  next hg =>
    cases hst'
    rw [if_neg hg]

theorem textResponse_goesOn {turn : ℕ} :
    GoesOn env input (.ofLoop st (.responded r)) (textResponse env st turn r.text) := by
  have hj : Path (Move env input) (.ofLoop st (.responded r)) _
      (.ofLoop (journalNew env (st.announce r.text [])).2 .closing) :=
    (Path.single (conclude _ r rfl)).append (journalNew_loop (st.announce r.text []) _)
  unfold textResponse
  dsimp only
  split
  · exact GoesOn.of_path hj failRun_goesOn rfl
  let closed := (journalNew env (st.announce r.text [])).2
  have hc : Path (Move env input) (.ofLoop closed .closing)
      (closed.emit env [.runCompleted r.text closed.lastCheckpointId]).1 _ :=
    yield_path (forall_mem_singleton.2 rfl)
      (forall_mem_singleton.2 fun text id h => (runCompleted.inj h).2.symm)
  exact ⟨_, hj.append hc, by simp⟩

theorem emptyResponse_goesOn (he : r.toolCalls = []) :
    GoesOn env input (.ofLoop st (.responded r)) (emptyResponse env st) := by
  unfold emptyResponse
  dsimp only
  split
  · exact failRun_goesOn
  let feedback : GatewayMessage :=
    { role := .user
      content := .text "The previous response contained neither text nor tool calls." }
  let asked : LoopState := { st with
    semanticRetryCount := st.semanticRetryCount + 1
    transcript := st.transcript ++ [feedback] }
  refine ⟨_, (Path.single (askAgain _ r _ rfl he)).append (journalNew_loop asked _), ?_⟩
  intro st' hst'
  cases hst'
  rfl

theorem modelResponse_goesOn {turn : ℕ} :
    GoesOn env input (.ofLoop st (.responded r)) (modelResponse env input st turn r) := by
  unfold modelResponse
  split
  · exact failRun_goesOn
  rename_i ha
  split
  next hc =>
    refine toolResponse_goesOn ?_
    simpa [hc, declaresToolCalls, eq_comm] using ha
  next hn =>
    have he : r.toolCalls = [] := by
      simp only [hasToolCalls, or_eq_true, not_or] at hn
      simpa using hn.1
    split
    · exact failRun_goesOn
    · split
      · exact failRun_goesOn
      · split
        · exact textResponse_goesOn
        · exact emptyResponse_goesOn he

theorem turn_path {turnNumber : ℕ} :
    GoesOn env input (.ofLoop st .idle) (turn env input st turnNumber) := by
  unfold turn
  split
  · exact failRun_goesOn
  dsimp only
  split
  · exact failRun_goesOn
  let r := turnRequest env input st turnNumber
  have hreq : Move env input (.ofLoop st .idle) _ _ := request _ r rfl rfl
  let started :=
    (st.emit env [.modelRequestStarted r.modelCallId r.requestId input.routeName]).2
  obtain ⟨hs, hre⟩ :=
    @modelTurn_path env input started r turnNumber st.toolCallCount _ rfl
  have hst := (Path.single hreq).append hs
  split
  · exact GoesOn.of_path hst failRun_goesOn rfl
  rename_i result ht
  have hr := hst.append (Path.single (respond _ r result
    (congrArg (LoopPhase.streaming r) (hre result ht))
    (modelTurn_callIds _ _ _ _ ht)))
  let streamed :=
    (modelTurn env r.modelCallId turnNumber st.toolCallCount started.factory r).1
  let responded : LoopState := { started with
    factory := streamed.factory
    toolCallCount := started.toolCallCount + announcedCalls streamed.events }
  exact GoesOn.of_path hr (@modelResponse_goesOn _ _ responded result _) rfl

theorem turnLoop_path {left : ℕ} :
    ∃ c', Path (Move env input) (.ofLoop st .idle) (turnLoop env input left st) c' := by
  induction left generalizing st with
  | zero =>
    obtain ⟨c', hp, -⟩ : GoesOn env input (.ofLoop st .idle) (failRun env st _) :=
      failRun_goesOn
    exact ⟨c', hp⟩
  | succ left ih =>
    obtain ⟨c', hp, hg⟩ :=
      @turn_path env input st (env.config.maxTurns - left)
    unfold turnLoop
    split
    next h =>
      rw [h] at hp
      exact ⟨c', hp⟩
    next st' h =>
      rw [h] at hp hg
      obtain ⟨c'', hr⟩ := @ih st'
      rw [hg st' rfl] at hp
      exact ⟨c'', hp.append hr⟩

theorem pending_decidedBy {ctx : TurnContext} :
    DecidedBy input { ctx with
      decisions := pendingDecision input.pendingToolCalls
      responses := pendingResponse input.pendingToolCalls } := by
  intro id hd response hr
  simp only [pendingDecision, bind_eq_some_iff] at hd
  simp only [pendingResponse, bind_eq_some_iff] at hr
  obtain ⟨p, hp, ha⟩ := hd
  obtain ⟨q, hq, hre⟩ := hr
  obtain rfl : p = q := Option.some.inj (hp.symm.trans hq)
  refine ⟨p, mem_of_find?_eq_some hp, ?_, ha, by simp [hre]⟩
  simpa using find?_some hp

theorem reannounce_path {done rest : List GatewayToolCall} {c : Config}
    (hph : c.phase = .resuming done)
    (hp : input.pendingToolCalls.map toGateway = done ++ rest) :
    Path (Move env input) c
      ((c.state.factory.makeAll env (rest.map fun call =>
        .toolCallReceived "approval-resume" call (env.argumentHash call.arguments))).1.map .emit)
      { c with
        state := { c.state with
          factory := (c.state.factory.makeAll env (rest.map fun call => .toolCallReceived
            "approval-resume" call (env.argumentHash call.arguments))).2 }
        phase := .resuming (done ++ rest) } := by
  induction rest generalizing done c with
  | nil =>
    rw [append_nil, ← hph]
    exact Path.nil c
  | cons call rest ih =>
    have hm : Move env input c _ _ := reannounce c done call rest hph hp
    have hr : Path (Move env input)
        { c.stamped env (.toolCallReceived "approval-resume" call
            (env.argumentHash call.arguments)) with phase := .resuming (done ++ [call]) } _ _ :=
      ih rfl (by rw [hp, append_assoc, singleton_append])
    rw [append_assoc, singleton_append] at hr
    exact (Path.single hm).append hr

theorem resumePending_path (hp : input.pendingToolCalls ≠ []) :
    Path (Move env input) (.ofLoop st .opening) (resumePending env input st).1
      (.ofLoop (resumePending env input st).2.1
        (if (resumePending env input st).2.2 then .closing else .idle)) := by
  let calls := input.pendingToolCalls.map toGateway
  let announced : LoopState :=
    if endsWithToolCalls st.transcript calls then st else st.announce "" calls
  have hr : Move env input (.ofLoop st .opening) [] (.ofLoop announced (.resuming [])) := by
    have h : Move env input (.ofLoop st .opening) _ _ := Move.resume _ calls rfl hp rfl
    by_cases hend : endsWithToolCalls st.transcript calls
    · rw [show announced = st from if_pos hend]
      simpa only [ofLoop, hend, ↓reduceIte] using h
    · rw [show announced = st.announce "" calls from if_neg hend]
      simpa only [ofLoop, announce, hend, false_eq_true, ↓reduceIte] using h
  let journaled := (journalNew env announced).2
  have hrec : Path (Move env input) (.ofLoop journaled (.resuming [])) _ _ :=
    @reannounce_path env input [] calls _ rfl rfl
  have hre := hrec.append (Path.single (resumed _ calls rfl rfl))
  rw [append_nil] at hre
  let received := (journaled.emit env (calls.map fun call =>
    .toolCallReceived "approval-resume" call (env.argumentHash call.arguments))).2
  have ht : Path (Move env input)
      (.ofLoop { received with toolCallCount := received.toolCallCount + calls.length }
        (.proposed calls [])) _ _ :=
    toolTurn_path (@pending_decidedBy input (turnContext input received))
  exact ((Path.single hr).append ((journalNew_loop announced _).append hre)).append ht

end Turns

def Config.initial (env : LoopEnv) (input : AgentLoopInput) : Config :=
  .ofLoop (initialLoopState env input) .opening

theorem run_path (env : LoopEnv) (input : AgentLoopInput) :
    ∃ c', Path (Move env input) (.initial env input) (run env input) c' := by
  let st := initialLoopState env input
  let bodies : List EventBody :=
    [.runStarted input.attempt input.workerId,
     .contextBuildStarted st.transcript.length input.checkpointId]
  have hs : Path (Move env input) (.initial env input) (st.emit env bodies).1
      (.ofLoop (st.emit env bodies).2 .opening) := by
    refine @silent_path env input _ bodies ?_
    simp [bodies, silent, plain]
  unfold run
  dsimp only
  split
  next hn =>
    obtain ⟨c', hl⟩ := @turnLoop_path env input (st.emit env bodies).2 env.config.maxTurns
    exact ⟨c', hs.append ((Path.single (skip _ rfl hn)).append hl)⟩
  next hso =>
    have hr := @resumePending_path env input (st.emit env bodies).2 hso
    split
    next h => exact ⟨_, h ▸ hs.append hr⟩
    next steps st' h =>
      change resumePending env input (st.emit env bodies).2 = _ at h
      rw [h] at hr
      obtain ⟨c', hl⟩ := @turnLoop_path env input st' env.config.maxTurns
      exact ⟨c', (hs.append hr).append hl⟩

def remember (past : List LoopStep) (step : LoopStep) : List LoopStep := past ++ [step]

theorem foldl_remember (past steps : List LoopStep) :
    steps.foldl remember past = past ++ steps := by
  induction steps generalizing past with
  | nil => simp
  | cons _ _ ih => simp [remember, ih]

/-- **The rule for guarantees of the loop**: a condition on each step and the steps before it holds along
every run, if every move performs only steps that meet it and keeps a relation between what the loop
remembers and what it has done. -/
theorem run_monitored {env : LoopEnv} {input : AgentLoopInput}
    {ok : List LoopStep → LoopStep → Prop} (R : Config → List LoopStep → Prop)
    (hmo : ∀ c steps c' past, Move env input c steps c' → R c past →
      Admissible remember ok past steps ∧ R c' (past ++ steps))
    (h0 : R (.initial env input) []) : Admissible remember ok [] (run env input) := by
  obtain ⟨c', hp⟩ := run_path env input
  have hmn : ∀ c steps c' past, Move env input c steps c' → R c past →
      Admissible remember ok past steps ∧ R c' (steps.foldl remember past) := by
    intro c steps c' past hm h
    rw [foldl_remember]
    exact hmo c steps c' past hm h
  exact (hp.admissible hmn h0).1

end AgentPlatform
