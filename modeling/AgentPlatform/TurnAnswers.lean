/-
**What the tool turns of an attempt execute and answer.**
-/

import AgentPlatform.RecoveredTranscript

namespace AgentPlatform

open EventBody LoopStep Outcomes ToolCallStatus ToolOutcome TurnState List Option

/-! ### Completions and executions -/

abbrev Completion := String × ToolCallStatus × Option JsonObject × Option ErrorDetail

def EventBody.completion? : EventBody → Option Completion
  | .toolCompleted id status result error => some (id, status, result, error)
  | _ => none

def ToolOutcome.completion (o : ToolOutcome) (id : String) : Completion :=
  (id, o.status, o.result, o.error)

def completions (steps : List LoopStep) : List Completion :=
  steps.filterMap fun
    | .emit event => event.body.completion?
    | _ => none

def executions (steps : List LoopStep) : List (GatewayToolCall × ToolEffect) :=
  steps.filterMap fun
    | .invokeTool call effect => some (call, effect)
    | _ => none

def LoopStep.ofTool : LoopStep → Bool
  | .emit _ | .journal .. | .request _ | .response _ => false
  | _ => true

def TurnState.completions (st : TurnState) : List Completion :=
  st.bodies.filterMap EventBody.completion?

@[simp] theorem completions_append (steps steps' : List LoopStep) :
    completions (steps ++ steps') = completions steps ++ completions steps' :=
  filterMap_append

@[simp] theorem executions_append (steps steps' : List LoopStep) :
    executions (steps ++ steps') = executions steps ++ executions steps' :=
  filterMap_append

theorem mem_executions {steps : List LoopStep} {call : GatewayToolCall} {effect : ToolEffect} :
    (call, effect) ∈ executions steps ↔ .invokeTool call effect ∈ steps := by
  simp only [executions, mem_filterMap]
  constructor
  · rintro ⟨_, hs, h⟩
    split at h
    · cases h
      exact hs
    · cases h
  · exact fun h => ⟨_, h, rfl⟩

@[simp] theorem completions_emit (events : List AgentEvent) :
    completions (events.map .emit) = (events.map (·.body)).filterMap completion? := by
  simp only [completions, filterMap_map]
  rfl

@[simp] theorem executions_emit (events : List AgentEvent) :
    executions (events.map .emit) = [] := by
  simp [executions]

theorem completions_ofTool {steps : List LoopStep} (h : steps.all ofTool) :
    completions steps = [] := by
  refine filterMap_eq_nil_iff.2 fun step hs => ?_
  have ht := List.all_eq_true.1 h step hs
  cases step with
  | emit => cases ht
  | _ => rfl

@[simp] theorem TurnState.emit_completions (env : LoopEnv) (st : TurnState)
    (bodies : List EventBody) :
    (st.emit env bodies).completions = st.completions ++ bodies.filterMap completion? := by
  simp [TurnState.completions]

@[simp] theorem TurnState.settle_completions (env : LoopEnv) (st : TurnState) (id : String)
    (o : ToolOutcome) : (st.settle env id o).completions = st.completions ++ [o.completion id] := by
  simp [TurnState.completions, completion?, completion]

/-! ### The record -/

/-- From the outcomes `o` to `o'`: nothing is forgotten, and the calls executed are new and
recorded. -/
structure Records (agreed : Prop) (o : Outcomes) (completed : List Completion)
    (executed : List String) (o' : Outcomes) : Prop where
  kept : ∀ id x, o id = some x → o' id = some x
  agree : agreed → ∀ c ∈ completed, ∃ x, o' c.1 = some x ∧ c = x.completion c.1
  nodup : executed.Nodup
  new : ∀ id ∈ executed, o id = none ∧ o' id ≠ none

namespace Records

variable {agreed : Prop} {o o' o'' : Outcomes} {completed completed' : List Completion}
  {executed executed' : List String}

theorem refl : Records agreed o [] [] o :=
  ⟨fun _ _ h => h, fun _ => by simp, nodup_nil, by simp⟩

theorem trans (h : Records agreed o completed executed o')
    (h' : Records agreed o' completed' executed' o'') :
    Records agreed o (completed ++ completed') (executed ++ executed') o'' where
  kept := fun id x hx => h'.kept id x (h.kept id x hx)
  agree := by
    intro ha c hc
    rcases mem_append.1 hc with hc | hc
    · obtain ⟨x, hx, heq⟩ := h.agree ha c hc
      exact ⟨x, h'.kept _ x hx, heq⟩
    · exact h'.agree ha c hc
  nodup := by
    refine nodup_append.2 ⟨h.nodup, h'.nodup, ?_⟩
    rintro id hid _ hid' rfl
    exact (h.new id hid).2 (h'.new id hid').1
  new := by
    intro id hid
    rcases mem_append.1 hid with hid | hid
    · obtain ⟨x, hx⟩ := ne_none_iff_exists'.1 (h.new id hid).2
      exact ⟨(h.new id hid).1, by simp [h'.kept id x hx]⟩
    · refine ⟨?_, (h'.new id hid).2⟩
      cases hx : o id with
      | none => rfl
      | some x => exact absurd ((h.kept id x hx).symm.trans (h'.new id hid).1) (by simp)

theorem set {id : String} {x : ToolOutcome} (hnew : o id = none)
    (he : executed = [] ∨ executed = [id]) (hco : completed ⊆ [x.completion id]) :
    Records agreed o completed executed (o.set id x) where
  kept := by
    intro id' y hy
    have hne : id' ≠ id := by
      rintro rfl
      rw [hnew] at hy
      cases hy
    simp [Outcomes.set, hne, hy]
  agree := by
    intro _ c hc
    obtain rfl := mem_singleton.1 (hco hc)
    exact ⟨x, by simp [Outcomes.set, completion], rfl⟩
  nodup := by rcases he with rfl | rfl <;> simp
  new := by
    rcases he with rfl | rfl
    · simp
    · simp [Outcomes.set, hnew]

end Records

/-! ### One call -/

section Call

variable (env : LoopEnv) (ctx : TurnContext)

inductive CallEnds (st : TurnState) (id : String) (st' : TurnState) : Bool → Prop
  | settled (o : ToolOutcome) (outcomes : st'.outcomes = st.outcomes.set id o)
      (transcript : st'.transcript = st.transcript ++ [toolMessage id o.result o.error])
      (completed : st'.completions = st.completions ++ [o.completion id]) : CallEnds st id st' false
  | failed (o : ToolOutcome) (completed : st'.completions = st.completions ++ [o.completion id]) :
      CallEnds st id st' true
  | silent (completed : st'.completions = st.completions) : CallEnds st id st' true

structure CallSteps (item : PreparedCall) (steps : List LoopStep) : Prop where
  tools : steps.all LoopStep.ofTool = true
  executed : executions steps = [] ∨ ∃ effect, item.effect = some effect ∧
    ctx.decisions item.call.id ≠ some false ∧ executions steps = [(item.call, effect)]

variable {env ctx} {st : TurnState} {item : PreparedCall} {effect : ToolEffect}

theorem CallEnds.of_same {st₁ st' : TurnState} {id : String} {terminal : Bool}
    (h : CallEnds st₁ id st' terminal) (hout : st₁.outcomes = st.outcomes)
    (ht : st₁.transcript = st.transcript)
    (hc : st₁.completions = st.completions) : CallEnds st id st' terminal := by
  cases h with
  | settled o outcomes transcript completed =>
    rw [hout] at outcomes
    rw [ht] at transcript
    rw [hc] at completed
    exact .settled o outcomes transcript completed
  | failed o completed => exact .failed o (completed.trans (by rw [hc]))
  | silent completed => exact .silent (completed.trans hc)

theorem CallEnds.settle (o : ToolOutcome) :
    CallEnds st item.call.id (st.settleExecuted env item.call o) false :=
  .settled o rfl rfl (settle_completions ..)

theorem CallEnds.fail {id : String} (error : ErrorDetail) :
    CallEnds st id (st.fail env id error) true := by
  refine .failed { toolName := "", argumentHash := none, status := .failed, error := some error } ?_
  simp [TurnState.fail, completion?, completion]

theorem completeCheckpointed_ends {coordinator : CheckpointCoordinator} {c : CheckpointRequest}
    {result : JsonObject} {run : TurnRun}
    (hrun : completeCheckpointed env st item coordinator c result = run) :
    CallEnds st item.call.id run.state run.terminal ∧ run.steps.all ofTool ∧
      executions run.steps = [] := by
  unfold completeCheckpointed at hrun
  dsimp only at hrun
  split at hrun
  · subst hrun
    exact ⟨.fail _, rfl, rfl⟩
  · split at hrun <;> subst hrun
    · exact ⟨.fail _, rfl, rfl⟩
    · exact ⟨.settle _, rfl, rfl⟩

theorem runPrepared_ends {checkpoint : Option (CheckpointCoordinator × CheckpointRequest)}
    {run : TurnRun} (hrun : runPrepared env st item effect checkpoint = run) :
    CallEnds st item.call.id run.state run.terminal ∧ run.steps.all ofTool ∧
      executions run.steps = [(item.call, effect)] := by
  unfold runPrepared at hrun
  dsimp only at hrun
  generalize hst₁ : st.emit env _ = st₁ at hrun
  have hst : ∀ {st' terminal}, CallEnds st₁ item.call.id st' terminal →
      CallEnds st item.call.id st' terminal := by
    intro st' terminal h
    subst hst₁
    exact h.of_same rfl rfl (by simp [completion?])
  split at hrun
  · subst hrun
    exact ⟨hst (.settle _), rfl, rfl⟩
  · subst hrun
    exact ⟨hst (.settle _), rfl, rfl⟩
  · split at hrun <;> subst hrun
    · exact ⟨hst (.settle _), rfl, rfl⟩
    · exact ⟨hst (.fail _), rfl, rfl⟩
  · generalize hc : completeCheckpointed env st₁ item _ _ _ = completed at hrun
    obtain ⟨hend, ht, he⟩ := completeCheckpointed_ends hc
    subst hrun
    exact ⟨hst hend, ht, congrArg ((item.call, effect) :: ·) he⟩

theorem runSideEffecting_ends {run : TurnRun}
    (hrun : runSideEffecting env ctx st item effect = run) :
    CallEnds st item.call.id run.state run.terminal ∧ run.steps.all ofTool ∧
      (executions run.steps = [] ∨ executions run.steps = [(item.call, effect)]) := by
  unfold runSideEffecting at hrun
  dsimp only at hrun
  split at hrun
  · subst hrun
    exact ⟨.fail _, rfl, .inl rfl⟩
  split at hrun
  · subst hrun
    exact ⟨(CallEnds.fail _).of_same rfl rfl rfl, rfl, .inl rfl⟩
  · subst hrun
    exact ⟨(CallEnds.fail _).of_same rfl rfl rfl, rfl, .inl rfl⟩
  split at hrun
  · generalize hr : runPrepared env _ item effect _ = ran at hrun
    obtain ⟨hend, ht, he⟩ := runPrepared_ends hr
    subst hrun
    refine ⟨hend.of_same rfl rfl ?_, ht, .inr he⟩
    rw [emit_completions]
    exact append_nil _
  · subst hrun
    exact ⟨(CallEnds.fail _).of_same rfl rfl rfl, rfl, .inl rfl⟩

theorem executeCall_ends (env : LoopEnv) (ctx : TurnContext) (st : TurnState) (item : PreparedCall) :
    CallSteps ctx item (executeCall env ctx st item).steps ∧
      ((∃ o, st.outcomes item.call.id = some o ∧
          executions (executeCall env ctx st item).steps = [] ∧
          (executeCall env ctx st item).terminal = false ∧
          (executeCall env ctx st item).state = st.reply env item.call.id o) ∨
        st.outcomes item.call.id = none ∧ CallEnds st item.call.id
          (executeCall env ctx st item).state (executeCall env ctx st item).terminal) := by
  generalize hrun : executeCall env ctx st item = run
  unfold executeCall at hrun
  cases hout : st.outcomes item.call.id with
  | some prior =>
    rw [hout] at hrun
    subst hrun
    exact ⟨⟨rfl, .inl rfl⟩, .inl ⟨prior, rfl, rfl, rfl, rfl⟩⟩
  | none =>
    rw [hout] at hrun
    dsimp only at hrun
    split at hrun
    · subst hrun
      exact ⟨⟨rfl, .inl rfl⟩, .inr ⟨rfl, .settled _ rfl rfl (settle_completions ..)⟩⟩
    rename_i hd
    split at hrun
    · subst hrun
      exact ⟨⟨rfl, .inl rfl⟩, .inr ⟨rfl, .silent rfl⟩⟩
    · subst hrun
      exact ⟨⟨rfl, .inl rfl⟩, .inr ⟨rfl, .settled _ rfl rfl (settle_completions ..)⟩⟩
    rename_i effect _ he
    split at hrun
    · obtain ⟨hend, ht, hex⟩ := runSideEffecting_ends hrun
      exact ⟨⟨ht, hex.imp id fun h => ⟨effect, he, hd, h⟩⟩, .inr ⟨rfl, hend⟩⟩
    · obtain ⟨hend, ht, hex⟩ := runPrepared_ends hrun
      exact ⟨⟨ht, .inr ⟨effect, he, hd, hex⟩⟩, .inr ⟨rfl, hend⟩⟩

/-- What a part of a turn does to the record. -/
structure TurnRecords (agreed : Prop) (st : TurnState) (run : TurnRun) (done : List Completion)
    (o' : Outcomes) : Prop where
  tools : run.steps.all LoopStep.ofTool = true
  completed : run.state.completions = st.completions ++ done
  records : Records agreed st.outcomes done ((executions run.steps).map (·.1.id)) o'
  outcomes : run.terminal = false → run.state.outcomes = o'

theorem executeCall_records (agreed : Prop) (env : LoopEnv) (ctx : TurnContext) (st : TurnState)
    (item : PreparedCall) :
    ∃ done o', TurnRecords agreed st (executeCall env ctx st item) done o' := by
  obtain ⟨hs, hca⟩ := executeCall_ends env ctx st item
  generalize executeCall env ctx st item = run at hs hca ⊢
  have he : (executions run.steps).map (·.1.id) = [] ∨
      (executions run.steps).map (·.1.id) = [item.call.id] := by
    rcases hs.executed with h | ⟨effect, -, -, h⟩ <;> simp [h]
  rcases hca with ⟨o, hk, hn, -, hst⟩ | ⟨hnew, hnd⟩
  · refine ⟨[o.completion item.call.id], st.outcomes, hs.tools, ?_, ?_, ?_⟩
    · rw [hst]
      exact emit_completions env st [_]
    · rw [hn]
      refine ⟨fun _ _ h => h, fun _ c hc => ?_, nodup_nil, by simp⟩
      obtain rfl := mem_singleton.1 hc
      exact ⟨o, hk, rfl⟩
    · rw [hst]
      exact fun _ => rfl
  · cases ht : run.terminal with
    | false =>
      rw [ht] at hnd
      obtain ⟨o, hout, -, hco⟩ := hnd
      exact ⟨_, _, hs.tools, hco, .set hnew he (List.Subset.refl _), fun _ => hout⟩
    | true =>
      rw [ht] at hnd
      have hend : ∀ {o' : Outcomes}, run.terminal = false → run.state.outcomes = o' := by
        simp [ht]
      cases hnd with
      | failed o hco =>
        exact ⟨_, _, hs.tools, hco, .set hnew he (List.Subset.refl _), hend⟩
      | silent hco =>
        exact ⟨[], _, hs.tools, hco.trans (append_nil _).symm,
          .set hnew he (nil_subset [(deniedOutcome item).completion _]), hend⟩

theorem executeCalls_records (agreed : Prop) (env : LoopEnv) (ctx : TurnContext)
    (items : List PreparedCall) (st : TurnState) :
    ∃ done o', TurnRecords agreed st (executeCalls env ctx st items) done o' := by
  induction items generalizing st with
  | nil => exact ⟨[], st.outcomes, rfl, (append_nil _).symm, .refl, fun _ => rfl⟩
  | cons item _ ih =>
    obtain ⟨done, o', hc⟩ := executeCall_records agreed env ctx st item
    unfold executeCalls
    dsimp only
    split
    · exact ⟨done, o', hc⟩
    rename_i ht
    have hout := hc.outcomes (Bool.eq_false_iff.2 ht)
    obtain ⟨done', o'', hr⟩ := ih (executeCall env ctx st item).state
    refine ⟨done ++ done', o'', ?_, ?_, ?_, hr.outcomes⟩
    · simp [hc.tools, hr.tools]
    · simp [hc.completed, hr.completed]
    · rw [executions_append, map_append]
      exact hc.records.trans (hout ▸ hr.records)

theorem executeCalls_executions (items : List PreparedCall) (st : TurnState) :
    ∀ x ∈ executions (executeCalls env ctx st items).steps, ∃ item ∈ items,
      item.call = x.1 ∧ item.effect = some x.2 ∧ ctx.decisions x.1.id ≠ some false := by
  induction items generalizing st with
  | nil => simp [executeCalls, executions]
  | cons item _ ih =>
    have hc : ∀ x ∈ executions (executeCall env ctx st item).steps,
        item.call = x.1 ∧ item.effect = some x.2 ∧ ctx.decisions x.1.id ≠ some false := by
      intro x hx
      rcases (executeCall_ends env ctx st item).1.executed with h | ⟨effect, he, hd, h⟩ <;>
        rw [h] at hx
      · cases hx
      · obtain rfl := mem_singleton.1 hx
        exact ⟨rfl, he, hd⟩
    unfold executeCalls
    dsimp only
    split
    · exact fun x hx => ⟨item, mem_cons_self .., hc x hx⟩
    intro x hx
    rw [executions_append] at hx
    rcases mem_append.1 hx with hx | hx
    · exact ⟨item, mem_cons_self .., hc x hx⟩
    · obtain ⟨item', hi', h⟩ := ih _ x hx
      exact ⟨item', mem_cons_of_mem _ hi', h⟩

def Replies (ids : List String) (replies : List GatewayMessage) : Prop :=
  List.Forall₂ (fun id m => ∃ result error, m = toolMessage id result error) ids replies

def InCallOrder (transcript : List GatewayMessage) : Prop :=
  AnsweredCalls.due GatewayMessage.announcedCalls GatewayMessage.answeredCall transcript = some []

instance (transcript : List GatewayMessage) : Decidable (InCallOrder transcript) :=
  inferInstanceAs (Decidable (_ = _))

theorem executeCalls_replies (items : List PreparedCall) (st : TurnState)
    (h : (executeCalls env ctx st items).terminal = false) :
    ∃ replies, Replies (items.map (·.call.id)) replies ∧
      (executeCalls env ctx st items).state.transcript = st.transcript ++ replies := by
  induction items generalizing st with
  | nil => exact ⟨[], .nil, (append_nil _).symm⟩
  | cons item _ ih =>
    unfold executeCalls at h ⊢
    dsimp only at h ⊢
    split at h
    next ht =>
      rw [ht] at h
      cases h
    next ht =>
      rw [if_neg ht]
      have hc : ∃ result error, (executeCall env ctx st item).state.transcript =
          st.transcript ++ [toolMessage item.call.id result error] := by
        rcases (executeCall_ends env ctx st item).2 with ⟨o, -, -, -, hs⟩ | ⟨-, hend⟩
        · exact ⟨o.result, o.error, by rw [hs]; rfl⟩
        · rw [Bool.eq_false_iff.2 ht] at hend
          obtain ⟨o, -, htr, -⟩ := hend
          exact ⟨_, _, htr⟩
      obtain ⟨result, error, hc⟩ := hc
      obtain ⟨replies, hr, htr⟩ := ih _ h
      refine ⟨_, .cons ⟨result, error, rfl⟩ hr, ?_⟩
      rw [htr, hc, append_assoc]
      rfl

end Call

/-! ### A rejected turn -/

theorem Records.recordAll {agreed : Prop} (xs : List (String × ToolOutcome)) (o : Outcomes)
    (hnew : agreed → (xs.map (·.1)).Nodup ∧ ∀ id ∈ xs.map (·.1), o id = none) :
    Records agreed o (xs.map fun x => x.2.completion x.1) [] (recordAll xs o) := by
  induction xs generalizing o with
  | nil => exact .refl
  | cons x _ ih =>
    have hone : Records agreed o [x.2.completion x.1] [] (o.setDefault x.1 x.2) := by
      refine ⟨fun id y hy => ?_, fun ha c hc => ?_, nodup_nil, by simp⟩
      · rcases o.setDefault_kept x.1 id x.2 with h | ⟨h, -⟩
        · exact h.trans hy
        · rw [h] at hy
          cases hy
      · obtain rfl := mem_singleton.1 hc
        have hn := (hnew ha).2 x.1 (by simp)
        exact ⟨x.2, by simp [setDefault, hn, Outcomes.set, completion], rfl⟩
    refine hone.trans (ih _ fun ha => ?_)
    obtain ⟨hno, hn⟩ := hnew ha
    rw [map_cons, nodup_cons] at hno
    refine ⟨hno.2, fun id hid => ?_⟩
    rcases o.setDefault_kept x.1 id x.2 with h | ⟨-, h⟩
    · rw [h]
      exact hn id (mem_cons_of_mem _ hid)
    have hne : id ≠ x.1 := by
      rintro rfl
      exact hno.1 hid
    simp [setDefault, hn x.1 (by simp), Outcomes.set, hne,
      hn id (mem_cons_of_mem _ hid)]

section Turn

variable (env : LoopEnv) (ctx : TurnContext) (st : TurnState) (calls : List GatewayToolCall)
  (invalid : List InvalidToolCall)

def namedIds : List String := calls.map (·.id) ++ invalid.map (·.toolCallId)

def TurnRejected (outcomes : Outcomes) : Prop :=
  findIdConflict env calls invalid outcomes ≠ none ∨ invalid ≠ [] ∨
    (prepareCalls env outcomes [] calls).any (·.validationError.isSome) = true

def NamesNewCalls (outcomes : Outcomes) : Prop :=
  TurnRejected env calls invalid outcomes →
    (namedIds calls invalid).Nodup ∧ ∀ id ∈ namedIds calls invalid, outcomes id = none

instance (outcomes : Outcomes) : Decidable (NamesNewCalls env calls invalid outcomes) :=
  inferInstanceAs (Decidable ((_ ∨ _ ∨ _) → _ ∧ _))

variable {env ctx st calls invalid}

theorem TurnRecords.rejected {agreed : Prop} {run : TurnRun} (xs : List (String × ToolOutcome))
    (hids : xs.map (·.1) = namedIds calls invalid) (hnew : agreed → (namedIds calls invalid).Nodup ∧
      ∀ id ∈ namedIds calls invalid, st.outcomes id = none) (hs : run.steps = [])
    (hc : run.state.completions = st.completions ++ xs.map fun x => x.2.completion x.1)
    (hout : run.terminal = false → run.state.outcomes = recordAll xs st.outcomes) :
    ∃ done o', TurnRecords agreed st run done o' := by
  refine ⟨_, recordAll xs st.outcomes, by rw [hs]; rfl, hc, ?_, hout⟩
  rw [hs]
  exact .recordAll xs st.outcomes (hids ▸ hnew)

theorem emit_rejected {α : Type} (xs : List α) (id : α → String) (e : α → ErrorDetail)
    (e' : InvalidToolCall → ErrorDetail) (ending : List ErrorDetail) :
    (st.emit env (xs.map (fun x => .toolCompleted (id x) .failed none (some (e x))) ++
        invalid.map (fun c => .toolCompleted c.toolCallId .failed none (some (e' c))) ++
        ending.map .runFailed)).completions =
      st.completions ++ (xs.map (fun x => (id x, .failed, none, some (e x))) ++
        invalid.map fun c => (c.toolCallId, .failed, none, some (e' c))) := by
  simp [completion?, comp_def]

theorem executeTurn_records {agreed : Prop}
    (hnew : agreed → NamesNewCalls env calls invalid st.outcomes) :
    ∃ done o', TurnRecords agreed st (executeTurn env ctx st calls invalid) done o' := by
  unfold executeTurn
  split
  next conflict hc =>
    obtain ⟨e, e', hco⟩ : ∃ (e : GatewayToolCall → ErrorDetail)
        (e' : InvalidToolCall → ErrorDetail),
        (rejectConflictingTurn env st calls invalid conflict).state.completions = st.completions ++
          (calls.map (fun c => (c.id, failed, none, some (e c))) ++
            invalid.map fun c => (c.toolCallId, failed, none, some (e' c))) :=
      ⟨_, _, emit_rejected calls (·.id) _ _ [_]⟩
    refine TurnRecords.rejected (calls.map (fun c => (c.id, failedOutcome c.name none (e c))) ++
        invalid.map fun c => (c.toolCallId, failedOutcome c.toolName none (e' c)))
      (by simp [namedIds, comp_def])
      (fun h => hnew h (.inl (by simp [hc]))) rfl ?_ (fun h => by cases h)
    simp [hco, completion, failedOutcome, comp_def]
  next hc =>
    dsimp only
    split
    next hinv =>
      refine TurnRecords.rejected _ ?_ (fun h => hnew h (.inr hinv)) rfl ?_
        (fun _ => rejectedOutcomes_eq ..)
      · have hca := congrArg (map (·.id)) (@prepareCalls_calls env st.outcomes calls [])
        rw [map_map] at hca
        simp [namedIds, ← hca, comp_def]
      · refine (emit_completions ..).trans ?_
        split <;> simp [completion?, completion, failedOutcome,
          comp_def]
    · split
      · refine ⟨[], st.outcomes, rfl, ?_, .refl, fun h => by cases h⟩
        refine (emit_completions ..).trans ?_
        simp [approvalEvents, completion?]
      · obtain ⟨done, o', h⟩ :=
          executeCalls_records agreed env ctx (prepareCalls env st.outcomes [] calls) st
        exact ⟨done, o', h.tools, h.completed, h.records, h.outcomes⟩

theorem executeTurn_replies (h : (executeTurn env ctx st calls invalid).terminal = false) :
    ∃ replies, Replies (calls.map (·.id)) replies ∧
      (executeTurn env ctx st calls invalid).state.transcript =
        st.transcript ++ replies ++ invalidFeedback invalid := by
  have hc := congrArg (map (·.id)) (@prepareCalls_calls env st.outcomes calls [])
  rw [map_map] at hc
  unfold executeTurn at h ⊢
  split at h
  · cases h
  dsimp only at h ⊢
  split at h
  next hinv =>
    rw [if_pos hinv]
    refine ⟨_, ?_, rfl⟩
    rw [← hc, Replies, forall₂_map_left_iff, forall₂_map_right_iff]
    exact forall₂_same.2 fun item _ => ⟨_, _, rfl⟩
  next hval =>
    rw [if_neg hval]
    split at h
    · cases h
    rename_i hd
    rw [if_neg hd]
    obtain ⟨replies, hr, ht⟩ := executeCalls_replies _ _ h
    have hnil : invalid = [] := by
      by_contra hne
      exact hval (.inl hne)
    refine ⟨replies, hc ▸ hr, ?_⟩
    rw [hnil]
    exact ht.trans (append_nil _).symm

/-! ### Approvals -/

theorem prepareCalls_cons (env : LoopEnv) (o : Outcomes) (ids : List String)
    (call : GatewayToolCall) (rest : List GatewayToolCall) :
    ∃ item ids', prepareCalls env o ids (call :: rest) = item :: prepareCalls env o ids' rest ∧
      item.call = call ∧ ((o call.id ≠ none ∨ call.id ∈ ids) ∧ ids' = ids ∧ item.effect = none ∨
        o call.id = none ∧ ids' = call.id :: ids ∧
          (item.validationError = none → item.effect ≠ none)) := by
  by_cases hk : (o call.id).isSome ∨ call.id ∈ ids
  · refine ⟨_, ids, by rw [prepareCalls, if_pos hk], rfl, .inl ⟨?_, rfl, rfl⟩⟩
    exact hk.imp isSome_iff_ne_none.1 id
  · refine ⟨_, call.id :: ids, by rw [prepareCalls, if_neg hk], ?_, .inr ⟨?_, rfl, ?_⟩⟩
    · split <;> rfl
    · exact not_isSome_iff_eq_none.1 fun h => hk (.inl h)
    · split <;> simp

theorem prepareCalls_new {o : Outcomes} {item : PreparedCall} (he : item.effect ≠ none)
    (calls : List GatewayToolCall) (ids : List String)
    (h : item ∈ prepareCalls env o ids calls) : o item.call.id = none := by
  induction calls generalizing ids with
  | nil => simp [prepareCalls] at h
  | cons call rest ih =>
    obtain ⟨_, ids', heq, hc, hca⟩ := prepareCalls_cons env o ids call rest
    rw [heq] at h
    rcases mem_cons.1 h with rfl | h
    · rcases hca with ⟨-, -, hn⟩ | ⟨hnew, -⟩
      · exact absurd hn he
      · exact hc ▸ hnew
    · exact ih ids' h

theorem exists_prepared {o : Outcomes} {call : GatewayToolCall} (hnew : o call.id = none)
    (calls : List GatewayToolCall) (ids : List String) (hids : call.id ∉ ids)
    (hval : ∀ item ∈ prepareCalls env o ids calls, item.validationError = none)
    (hc : call ∈ calls) :
    ∃ item ∈ prepareCalls env o ids calls, item.call.id = call.id ∧ item.effect ≠ none := by
  induction calls generalizing ids with
  | nil => cases hc
  | cons head rest ih =>
    obtain ⟨item, ids', heq, hit, hca⟩ := prepareCalls_cons env o ids head rest
    rw [heq] at hval ⊢
    by_cases hid : head.id = call.id
    · refine ⟨item, mem_cons_self .., by rw [hit, hid], ?_⟩
      rcases hca with ⟨hk | hk, -⟩ | ⟨-, -, hp⟩
      · exact absurd (hid ▸ hnew) hk
      · exact absurd (hid ▸ hk) hids
      · exact hp (hval item (mem_cons_self ..))
    · have hids' : call.id ∉ ids' := by
        rcases hca with ⟨-, rfl, -⟩ | ⟨-, rfl, -⟩
        · exact hids
        · simp [hids, Ne.symm hid]
      have hr : call ∈ rest := (mem_cons.1 hc).resolve_left fun h => hid (by rw [h])
      obtain ⟨item', hit', h⟩ :=
        ih ids' hids' (fun i hi => hval i (mem_cons_of_mem _ hi)) hr
      exact ⟨item', mem_cons_of_mem _ hit', h⟩

theorem conflictInCalls_ok {ids ids' : Identities} (h : conflictInCalls env ids calls = .ok ids') :
    (∀ id x, ids id = some x → ids' id = some x) ∧
      ∀ c ∈ calls, ids' c.id = some (c.name, some (env.argumentHash c.arguments)) := by
  induction calls generalizing ids with
  | nil =>
    cases h
    exact ⟨fun _ _ h => h, by simp⟩
  | cons call _ ih =>
    unfold conflictInCalls at h
    dsimp only at h
    split at h
    · cases h
    rename_i hs
    obtain ⟨hk, hr⟩ := ih h
    have hset := hk call.id _ (if_pos rfl)
    refine ⟨fun id x hx => ?_, fun c hc => ?_⟩
    · by_cases hid : id = call.id
      · subst hid
        simp only [hx, any_some, decide_eq_true_eq, ne_eq, not_not] at hs
        rw [hset, hs]
      · exact hk id x ((if_neg hid).trans hx)
    · rcases mem_cons.1 hc with rfl | hc
      · exact hset
      · exact hr c hc

/-- **No tool whose effect requires approval is executed without it, and none at all while a call of
the turn waits for its decision.** -/
theorem approval_precedes_execution (env : LoopEnv) (ctx : TurnContext) (st : TurnState)
    (calls : List GatewayToolCall) (invalid : List InvalidToolCall) :
    (∀ call effect, .invokeTool call effect ∈ (executeTurn env ctx st calls invalid).steps →
      requiresApproval ctx.approvalMode effect = true → ctx.decisions call.id = some true) ∧
    ((∃ call ∈ calls, ∃ effect, env.tools.effect? call.name = some effect ∧
        requiresApproval ctx.approvalMode effect = true ∧ st.outcomes call.id = none ∧
        ctx.decisions call.id = none) →
      ∀ call effect, .invokeTool call effect ∉ (executeTurn env ctx st calls invalid).steps) := by
  unfold executeTurn
  split
  · exact ⟨fun _ _ h => absurd h not_mem_nil, fun _ _ _ => not_mem_nil⟩
  rename_i hconflict
  dsimp only
  split
  · exact ⟨fun _ _ h => absurd h not_mem_nil, fun _ _ _ => not_mem_nil⟩
  rename_i hvalid
  split
  · simp
  rename_i hawaiting
  rw [ne_eq, not_not, awaitingApproval, filter_eq_nil_iff] at hawaiting
  refine ⟨fun call effect hstep hrequired => ?_, ?_⟩
  · have hexecuted := mem_executions.2 (List.mem_of_ne_of_mem (by simp) hstep)
    obtain ⟨item, hitem, rfl, heffect, hdenied⟩ := executeCalls_executions _ st _ hexecuted
    have hnew := prepareCalls_new (by simp [heffect]) calls [] hitem
    have hdecided := hawaiting item hitem
    cases hdecision : ctx.decisions item.call.id with
    | none => simp [hnew, heffect, hrequired, hdecision] at hdecided
    | some approved =>
      cases approved with
      | true => rfl
      | false => exact absurd hdecision hdenied
  · rintro ⟨call, hcall, effect, hregistered, hrequired, hnew, hundecided⟩
    exfalso
    have herrors : ∀ item ∈ prepareCalls env st.outcomes [] calls,
        item.validationError = none := by
      intro item hitem
      by_contra herror
      refine hvalid (.inr (any_eq_true.2 ⟨item, hitem, ?_⟩))
      exact Option.isSome_iff_ne_none.2 herror
    obtain ⟨item, hitem, hid, heffect⟩ := exists_prepared hnew calls [] (by simp) herrors hcall
    have hitem' :=
      @prepareCalls_prepared env st.outcomes calls calls [] (fun _ h => h) item hitem
    -- the item has the name of the call, and so its effect
    have hname : item.call.name = call.name := by
      unfold findIdConflict at hconflict
      dsimp only at hconflict
      split at hconflict
      · cases hconflict
      next ids hids =>
        have hsame := (conflictInCalls_ok hids).2
        have heq := (hsame item.call hitem'.mem).symm.trans (hid ▸ hsame call hcall)
        exact (Prod.ext_iff.1 (Option.some.inj heq)).1
    obtain ⟨effect', heffect'⟩ := Option.ne_none_iff_exists'.1 heffect
    have hsame := hitem'.effect effect' heffect'
    rw [hname, hregistered] at hsame
    cases hsame
    exact hawaiting item hitem (by simp [hid, hnew, heffect', hrequired, hundecided])

end Turn

/-! ### The attempt -/

def StreamState.Quiet (st : StreamState) : Prop :=
  (st.events.map (·.body)).filterMap EventBody.completion? = []

section Stream

variable {env : LoopEnv} {modelCallId : String} {turn prior : ℕ} {st : StreamState}

theorem StreamState.Quiet.emit {bodies : List EventBody} (h : st.Quiet)
    (hb : bodies.filterMap completion? = []) : (st.emit env bodies).Quiet := by
  unfold StreamState.Quiet at h
  simp [StreamState.Quiet, StreamState.emit, h, hb]

theorem streamStep_quiet {event : GatewayEvent} (h : st.Quiet) :
    (streamStep env modelCallId turn prior st event).1.Quiet := by
  unfold streamStep
  split
  · exact h
  split
  · exact h
  cases event with
  | textDelta =>
    simp only [streamText]
    split
    · exact h
    · split
      · exact h
      · split
        · exact h
        · exact StreamState.Quiet.emit h (by simp [completion?])
  | toolCall =>
    simp only [streamCall]
    split
    · exact h.emit rfl
    · split <;> rw [checkToolCallLimit_state] <;> exact StreamState.Quiet.emit h rfl
  | invalidToolCall =>
    dsimp only
    rw [checkToolCallLimit_state]
    exact StreamState.Quiet.emit h rfl
  | responseCompleted | invalid => exact h

theorem streamLoop_quiet (events : List GatewayEvent) (st : StreamState) (h : st.Quiet) :
    (streamLoop env modelCallId turn prior st events).1.Quiet := by
  induction events generalizing st with
  | nil => exact h
  | cons event _ ih =>
    have hs : (streamStep env modelCallId turn prior st event).1.Quiet := streamStep_quiet h
    unfold streamLoop
    split
    next heq =>
      rw [heq] at hs
      exact hs
    next heq =>
      rw [heq] at hs
      exact ih _ hs

theorem modelTurn_quiet {factory : EventFactory} {request : GatewayRequest} :
    (modelTurn env modelCallId turn prior factory request).1.Quiet := by
  have hl : (streamLoop env modelCallId turn prior { factory := factory }
      (env.gateway request).events).1.Quiet := streamLoop_quiet _ _ rfl
  unfold modelTurn
  dsimp only
  split
  next heq =>
    rw [heq] at hl
    exact hl
  next heq =>
    rw [heq] at hl
    split
    · exact hl
    unfold streamFinish
    split
    · exact hl
    dsimp only
    split
    · exact hl
    · split
      · exact hl
      · exact StreamState.Quiet.emit hl (by simp [completion?])

end Stream

section Loop

variable (env : LoopEnv) (input : AgentLoopInput)

def responses (steps : List LoopStep) : List ModelTurnResult :=
  steps.filterMap fun
    | .response r => some r
    | _ => none

def loopTurns : ℕ → LoopState → List (Outcomes × List GatewayToolCall × List InvalidToolCall)
  | 0, _ => []
  | left + 1, st =>
    let (steps, next) := turn env input st (env.config.maxTurns - left)
    (responses steps).map (fun r => (st.outcomes, r.toolCalls, r.invalidToolCalls)) ++
      match next with
      | none => []
      | some st' => loopTurns left st'

def toolTurns : List (Outcomes × List GatewayToolCall × List InvalidToolCall) :=
  let st := initialLoopState env input
  let st := (st.emit env
    [.runStarted input.attempt input.workerId,
     .contextBuildStarted st.transcript.length input.checkpointId]).2
  if input.pendingToolCalls = [] then loopTurns env input env.config.maxTurns st
  else
    (st.outcomes, input.pendingToolCalls.map DurablePendingToolCall.toGateway, []) ::
      match resumePending env input st with
      | (_, _, true) => []
      | (_, st', false) => loopTurns env input env.config.maxTurns st'

/-- **The condition**: the rejected turns of an attempt name new ids only, each of them once. -/
def RejectsNewCalls : Prop :=
  ∀ t ∈ toolTurns env input, NamesNewCalls env t.2.1 t.2.2 t.1

instance : Decidable (RejectsNewCalls env input) :=
  inferInstanceAs (Decidable (∀ t ∈ toolTurns env input, _))

structure Quiet (steps : List LoopStep) : Prop where
  completed : completions steps = []
  executed : executions steps = []

def RecordsTo (agreed : Prop) (o : Outcomes) (steps : List LoopStep) (next : Option LoopState) :
    Prop :=
  ∃ o', Records agreed o (completions steps) ((executions steps).map (·.1.id)) o' ∧
    ∀ st' ∈ next, st'.outcomes = o'

variable {env input} {agreed : Prop} {o : Outcomes} {steps steps' : List LoopStep}
  {next : Option LoopState} {st st' : LoopState}

theorem Quiet.append (h : Quiet steps) (h' : Quiet steps') : Quiet (steps ++ steps') :=
  ⟨by simp [h.completed, h'.completed], by simp [h.executed, h'.executed]⟩

theorem Quiet.recordsTo (h : Quiet steps) (hn : ∀ st' ∈ next, st'.outcomes = o) :
    RecordsTo agreed o steps next := by
  refine ⟨o, ?_, hn⟩
  rw [h.completed, h.executed]
  exact .refl

theorem RecordsTo.after (h' : RecordsTo agreed o steps' next) (h : Quiet steps) :
    RecordsTo agreed o (steps ++ steps') next := by
  unfold RecordsTo
  rw [completions_append, executions_append, h.completed, h.executed]
  exact h'

theorem RecordsTo.append (h : RecordsTo agreed o steps (some st'))
    (h' : RecordsTo agreed st'.outcomes steps' next) : RecordsTo agreed o (steps ++ steps') next := by
  obtain ⟨_, hrec, hn⟩ := h
  obtain ⟨o'', hrec', hn'⟩ := h'
  rw [hn st' rfl] at hrec'
  refine ⟨o'', ?_, hn'⟩
  rw [completions_append, executions_append, map_append]
  exact hrec.trans hrec'

theorem emit_quiet {bodies : List EventBody}
    (h : bodies.filterMap completion? = []) : Quiet (st.emit env bodies).1 :=
  ⟨by simp [LoopState.emit, h], by simp [LoopState.emit]⟩

theorem journalNew_quiet : Quiet (journalNew env st).1 := by
  unfold journalNew
  split <;> exact ⟨rfl, rfl⟩

theorem journalNew_outcomes : (journalNew env st).2.outcomes = st.outcomes := by
  rw [journalNew_state]

theorem failRun_quiet {error : ErrorDetail} : Quiet (failRun env st error).1 :=
  show Quiet (st.emit env [.runFailed error]).1 from emit_quiet rfl

theorem failRun_recordsTo {error : ErrorDetail} :
    RecordsTo agreed o (failRun env st error).1 (failRun env st error).2 :=
  failRun_quiet.recordsTo nofun

theorem toolTurn_recordsTo {ctx : TurnContext} {calls : List GatewayToolCall}
    {invalid : List InvalidToolCall} (hst : st.outcomes = o)
    (hnew : agreed → NamesNewCalls env calls invalid o)
    (hn : ∀ st' ∈ next, (toolTurn env st ctx calls invalid).2.2 = false ∧
      (toolTurn env st ctx calls invalid).2.1.outcomes = st'.outcomes) :
    RecordsTo agreed o (toolTurn env st ctx calls invalid).1 next := by
  subst hst
  let turned : TurnState :=
    { factory := st.factory, transcript := st.transcript, outcomes := st.outcomes }
  obtain ⟨done, o', h⟩ : ∃ done o', TurnRecords agreed turned
      (executeTurn env ctx turned calls invalid) done o' := executeTurn_records hnew
  refine ⟨o', ?_, fun st' hst' => ?_⟩
  · have hd := h.completed
    rw [TurnState.completions, bodies] at hd
    simp only [toolTurn, completions_append, executions_append, completions_ofTool h.tools,
      journalNew_quiet.completed, journalNew_quiet.executed, completions_emit, executions_emit,
      append_nil, nil_append, turned, hd]
    exact h.records
  · obtain ⟨ht, hs⟩ := hn st' hst'
    exact hs.symm.trans (journalNew_outcomes.trans (h.outcomes ht))

theorem modelResponse_recordsTo {r : ModelTurnResult} {n : ℕ} (hst : st.outcomes = o)
    (hnew : agreed → NamesNewCalls env r.toolCalls r.invalidToolCalls o) :
    RecordsTo agreed o (modelResponse env input st n r).1 (modelResponse env input st n r).2 := by
  unfold modelResponse
  split
  · exact failRun_recordsTo
  split
  · unfold toolResponse
    dsimp only
    generalize hst₁ : (if r.text ≠ "" ∨ r.toolCalls ≠ [] then st.announce r.text r.toolCalls
      else st) = st₁
    have hs : st₁.outcomes = o := by
      rw [← hst₁]
      split <;> exact hst
    refine RecordsTo.after (toolTurn_recordsTo (journalNew_outcomes.trans hs) hnew ?_)
      journalNew_quiet
    intro st' hst'
    split at hst'
    · cases hst'
    next ht =>
      cases hst'
      exact ⟨Bool.eq_false_iff.2 ht, rfl⟩
  split
  · exact failRun_recordsTo
  split
  · exact failRun_recordsTo
  split
  · unfold textResponse
    dsimp only
    split
    · exact (journalNew_quiet.append failRun_quiet).recordsTo nofun
    · exact (journalNew_quiet.append (emit_quiet rfl)).recordsTo nofun
  · unfold emptyResponse
    dsimp only
    split
    · exact failRun_recordsTo
    · refine journalNew_quiet.recordsTo fun st' hst' => ?_
      cases hst'
      exact journalNew_outcomes.trans hst

theorem turn_recordsTo {n : ℕ} (hnew : agreed → ∀ r ∈ responses (turn env input st n).1,
      NamesNewCalls env r.toolCalls r.invalidToolCalls st.outcomes) :
    RecordsTo agreed st.outcomes (turn env input st n).1 (turn env input st n).2 := by
  unfold turn at hnew ⊢
  split
  · exact failRun_recordsTo
  rename_i hms
  rw [if_neg hms] at hnew
  dsimp only at hnew ⊢
  split
  · exact failRun_recordsTo
  rename_i hb
  rw [if_neg hb] at hnew
  generalize ht : modelTurn env _ n _ _ _ = p at hnew ⊢
  have hs : p.1.Quiet := ht ▸ modelTurn_quiet
  have hst : Quiet ((st.emit env
      [.modelRequestStarted (turnRequest env input st n).modelCallId
        (turnRequest env input st n).requestId input.routeName]).1 ++
      [.request (turnRequest env input st n)] ++ p.1.events.map .emit) :=
    ((emit_quiet rfl).append ⟨rfl, rfl⟩).append ⟨(completions_emit _).trans hs, by simp⟩
  obtain ⟨_, ending⟩ := p
  cases ending with
  | failure => exact (hst.append failRun_quiet).recordsTo nofun
  | result r =>
    refine RecordsTo.after (modelResponse_recordsTo rfl fun ha => hnew ha r ?_)
      (hst.append ⟨rfl, rfl⟩)
    simp [responses]

theorem turnLoop_recordsTo (left : ℕ) (st : LoopState)
    (hnew : agreed → ∀ t ∈ loopTurns env input left st, NamesNewCalls env t.2.1 t.2.2 t.1) :
    RecordsTo agreed st.outcomes (turnLoop env input left st) none := by
  induction left generalizing st with
  | zero => exact failRun_quiet.recordsTo nofun
  | succ left ih =>
    unfold loopTurns at hnew
    dsimp only at hnew
    have htu : RecordsTo agreed st.outcomes (turn env input st (env.config.maxTurns - left)).1
        (turn env input st (env.config.maxTurns - left)).2 :=
      turn_recordsTo fun ha r hr =>
        hnew ha _ (mem_append_left _ (mem_map_of_mem hr))
    unfold turnLoop
    split
    next heq =>
      rw [heq] at htu
      exact htu
    next st' heq =>
      rw [heq] at htu hnew
      exact htu.append (ih st' fun ha t ht => hnew ha t (mem_append_right _ ht))

theorem resumePending_recordsTo
    (hnew : agreed → NamesNewCalls env (input.pendingToolCalls.map DurablePendingToolCall.toGateway)
      [] st.outcomes) (hn : ∀ st' ∈ next, (resumePending env input st).2.2 = false ∧
      (resumePending env input st).2.1.outcomes = st'.outcomes) :
    RecordsTo agreed st.outcomes (resumePending env input st).1 next := by
  unfold resumePending at hn ⊢
  dsimp only at hn ⊢
  generalize hst₁ : (if endsWithToolCalls st.transcript _ then st else st.announce "" _) = st₁
    at hn ⊢
  have hs : (journalNew env st₁).2.outcomes = st.outcomes := by
    rw [journalNew_outcomes, ← hst₁]
    split <;> rfl
  have hqu : Quiet (journalNew env st₁).1 := journalNew_quiet
  generalize journalNew env st₁ = p at hs hqu hn ⊢
  generalize hq : p.2.emit env _ = q at hn ⊢
  have hrec : Quiet q.1 := hq ▸ emit_quiet (by simp [completion?])
  have hout : q.2.outcomes = st.outcomes := hq ▸ hs
  exact RecordsTo.after (toolTurn_recordsTo hout hnew hn) (hqu.append hrec)

theorem run_records (env : LoopEnv) (input : AgentLoopInput)
    (hnew : agreed → RejectsNewCalls env input) :
    ∃ o', Records agreed (priorOutcomes input.priorToolOutcomes) (completions (run env input))
      ((executions (run env input)).map (·.1.id)) o' := by
  suffices h : RecordsTo agreed (priorOutcomes input.priorToolOutcomes) (run env input) none from
    h.imp fun _ h => h.1
  unfold RejectsNewCalls toolTurns at hnew
  unfold run
  dsimp only at hnew ⊢
  generalize hp : LoopState.emit env (initialLoopState env input) _ = p at hnew ⊢
  have hout : p.2.outcomes = priorOutcomes input.priorToolOutcomes := hp ▸ rfl
  have hq : Quiet p.1 := hp ▸ emit_quiet rfl
  rw [← hout]
  split
  next hpe =>
    rw [if_pos hpe] at hnew
    exact (turnLoop_recordsTo env.config.maxTurns p.2 hnew).after hq
  next hpe =>
    rw [if_neg hpe] at hnew
    have hr : ∀ next, (∀ st' ∈ next, (resumePending env input p.2).2.2 = false ∧
        (resumePending env input p.2).2.1.outcomes = st'.outcomes) →
        RecordsTo agreed p.2.outcomes (resumePending env input p.2).1 next :=
      fun next => resumePending_recordsTo fun ha => hnew ha _ (mem_cons_self ..)
    split
    next heq =>
      rw [heq] at hr
      exact (hr none nofun).after hq
    next steps st' heq =>
      rw [heq] at hr hnew
      have hr := hr (some st') fun _ h => ⟨rfl, congrArg _ (Option.some.inj h)⟩
      rw [append_assoc]
      exact (hr.append (turnLoop_recordsTo env.config.maxTurns st' fun ha t ht =>
        hnew ha t (mem_cons_of_mem _ ht))).after hq

def executedCalls (env : LoopEnv) (ctx : TurnContext) :
    TurnState → List PreparedCall → List (TurnState × PreparedCall)
  | _, [] => []
  | st, item :: rest =>
    (st, item) :: if (executeCall env ctx st item).terminal then []
      else executedCalls env ctx (executeCall env ctx st item).state rest

/-- The iteration raises an `AssertionError`. -/
def Asserts (ctx : TurnContext) (x : TurnState × PreparedCall) : Prop :=
  x.1.outcomes x.2.call.id = none ∧ ctx.decisions x.2.call.id ≠ some false ∧ x.2.effect = none

theorem not_asserts {ctx : TurnContext} (calls : List GatewayToolCall) (ids : List String)
    (st : TurnState) (hval : ∀ item ∈ prepareCalls env o ids calls, item.validationError = none)
    (hk : ∀ id, o id ≠ none ∨ id ∈ ids → st.outcomes id ≠ none) :
    ∀ x ∈ executedCalls env ctx st (prepareCalls env o ids calls), ¬ Asserts ctx x := by
  induction calls generalizing ids st with
  | nil => simp [prepareCalls, executedCalls]
  | cons call rest ih =>
    obtain ⟨item, ids', heq, rfl, hc⟩ := prepareCalls_cons env o ids call rest
    rw [heq] at hval ⊢
    intro x hx ha
    unfold executedCalls at hx
    rcases mem_cons.1 hx with rfl | hx
    · rcases hc with ⟨hb, -⟩ | ⟨-, -, hp⟩
      · exact hk _ hb ha.1
      · exact hp (hval item (mem_cons_self ..)) ha.2.2
    · split at hx
      · cases hx
      rename_i ht
      have hrec : ∀ id, st.outcomes id ≠ none ∨ id = item.call.id →
          (executeCall env ctx st item).state.outcomes id ≠ none := by
        rcases (executeCall_ends env ctx st item).2 with ⟨prior, hpr, -, -, hs⟩ | ⟨-, hend⟩
        · rw [hs]
          rintro id (h | rfl)
          · exact h
          · exact ne_none_iff_exists'.2 ⟨prior, hpr⟩
        · rw [Bool.eq_false_iff.2 ht] at hend
          obtain ⟨_, hout, -, -⟩ := hend
          rw [hout]
          intro id h
          by_cases hid : id = item.call.id
          · simp [Outcomes.set, hid]
          · simp [Outcomes.set, hid, h.resolve_right hid]
      refine ih ids' _ (fun i hi => hval i (mem_cons_of_mem _ hi)) ?_ x hx ha
      intro id hid
      apply hrec
      rcases hc with ⟨-, rfl, -⟩ | ⟨-, rfl, -⟩
      · exact .inl (hk id hid)
      · rcases hid with hid | hid
        · exact .inl (hk id (.inl hid))
        · rcases mem_cons.1 hid with rfl | hid
          · exact .inr rfl
          · exact .inl (hk id (.inr hid))

end Loop

/-- **Within an attempt every call is executed at most once, a call that is repeated is answered
from its recorded outcome, and no `AssertionError` is reachable**. -/
theorem executes_once_and_answers_from_record (env : LoopEnv) (input : AgentLoopInput)
    (h : RejectsNewCalls env input) : ((executions (run env input)).map (·.1.id)).Nodup ∧
      (∀ before c after, completions (run env input) = before ++ c :: after →
        (∀ o, priorOutcomes input.priorToolOutcomes c.1 = some o → c = o.completion c.1) ∧
          ∀ c' ∈ before, c'.1 = c.1 → c = c') ∧
      ∀ ctx st calls invalid, ¬ TurnRejected env calls invalid st.outcomes →
        (∀ x ∈ executedCalls env ctx st (prepareCalls env st.outcomes [] calls), ¬ Asserts ctx x) ∧
        ∀ item ∈ awaitingApproval ctx st.outcomes (prepareCalls env st.outcomes [] calls),
          item.effect ≠ none := by
  obtain ⟨_, hrecords⟩ := run_records env input fun _ : True => h
  refine ⟨hrecords.nodup, ?_, ?_⟩
  · intro before c after hsplit
    have hc : c ∈ completions (run env input) := by simp [hsplit]
    obtain ⟨x, hx, heq⟩ := hrecords.agree trivial c hc
    refine ⟨fun o ho => ?_, fun c' hc' hid => ?_⟩
    · rw [hrecords.kept _ o ho] at hx
      cases hx
      exact heq
    · obtain ⟨_, hx', heq'⟩ := hrecords.agree trivial c' (by simp [hsplit, hc'])
      rw [hid, hx] at hx'
      cases hx'
      rw [heq, heq', hid]
  · intro ctx st calls invalid haccepted
    refine ⟨not_asserts calls [] st (fun item hitem => ?_) (by simp), fun item hitem hnone => ?_⟩
    · by_contra herror
      exact haccepted (.inr (.inr (any_eq_true.2
        ⟨item, hitem, Option.isSome_iff_ne_none.2 herror⟩)))
    · have hawaits := (mem_filter.1 hitem).2
      simp [hnone] at hawaits

def repeatingEnv : LoopEnv :=
  scriptedEnv 10 (fun name => if name = "list_files" then some .readOnly else none)
    [proposing [listing "call-1"],
      { events := [.toolCall (listing "call-1"),
          .invalidToolCall "call-2" "list_files" { code := "invalid", message := "not an object" },
          .responseCompleted .toolCalls] }]
    (fun _ => { items := [.completed .nil] })

def askedInput : AgentLoopInput :=
  { tenantId := 1, sessionId := 3, runId := 2, attempt := 1, workerId := "worker"
    routeName := "default", messages := [{ role := .user, content := .text "task" }] }

theorem executes_once_pair :
    RejectsNewCalls (pairEnv [listing "call-1", listing "call-1"]) askedInput ∧
      ((executions (run (pairEnv [listing "call-1", listing "call-1"]) askedInput)).map
        (·.1.id)).Nodup :=
  have h : RejectsNewCalls (pairEnv [listing "call-1", listing "call-1"]) askedInput := by decide
  ⟨h, (executes_once_and_answers_from_record _ _ h).1⟩

theorem repeated_call_rejected : (responses (run repeatingEnv askedInput)).map (·.toolCalls) =
        [[listing "call-1"], [listing "call-1"]] ∧
      ¬ ∀ before c after, completions (run repeatingEnv askedInput) = before ++ c :: after →
        ∀ c' ∈ before, c'.1 = c.1 → c = c' := by
  refine ⟨by decide, fun h => ?_⟩
  have hagree := h [("call-1", .completed, some .nil, none)]
    ("call-1", .failed, none, some turnRejected)
    [("call-2", .failed, none, some { code := "invalid", message := "not an object" })] (by decide)
    _ (mem_singleton_self _) rfl
  cases hagree

/-- **A tool turn that does not end the attempt answers its calls in order and directly after their
announcement, so every request carries a transcript in which that holds**. -/
theorem requests_in_call_order (env : LoopEnv) (input : AgentLoopInput)
    (horder : InCallOrder (input.messages.map (redactMessage env.redactor))) :
    (∀ ctx st calls invalid, (executeTurn env ctx st calls invalid).terminal = false →
      ∃ replies, Replies (calls.map (·.id)) replies ∧
        (executeTurn env ctx st calls invalid).state.transcript =
          st.transcript ++ replies ++ invalidFeedback invalid) ∧
      ∀ r, .request r ∈ run env input → InCallOrder r.messages := by
  refine ⟨fun ctx st calls invalid => executeTurn_replies, fun r hr => ?_⟩
  have hawaits : PhaseAwaits False env input (input.messages.map (redactMessage env.redactor))
      .opening := .inl ⟨⟨horder, False.elim⟩, False.elim⟩
  exact (run_awaits False.elim False.elim hawaits r hr).1

theorem requests_in_call_order_pair : InCallOrder askedInput.messages ∧
      ∀ r, .request r ∈ run (pairEnv [listing "call-1", listing "call-1"]) askedInput →
        InCallOrder r.messages :=
  have h : InCallOrder (askedInput.messages.map
      (redactMessage (pairEnv [listing "call-1", listing "call-1"]).redactor)) := by decide
  ⟨by decide, (requests_in_call_order _ _ h).2⟩

/-- **All completions of a call carry the same status, result and error**. -/
theorem completions_agree (env : LoopEnv) (input : AgentLoopInput) (h : RejectsNewCalls env input) :
    (∀ c ∈ completions (run env input), ∀ c' ∈ completions (run env input), c.1 = c'.1 → c = c') ∧
      ∀ c ∈ completions (run env input), ∀ o, priorOutcomes input.priorToolOutcomes c.1 = some o →
        c = o.completion c.1 := by
  obtain ⟨_, hrecords⟩ := run_records env input fun _ : True => h
  refine ⟨fun c hc c' hc' hid => ?_, fun c hc o ho => ?_⟩
  · obtain ⟨x, hx, heq⟩ := hrecords.agree trivial c hc
    obtain ⟨_, hx', heq'⟩ := hrecords.agree trivial c' hc'
    rw [← hid, hx] at hx'
    cases hx'
    rw [heq, heq', hid]
  · obtain ⟨x, hx, heq⟩ := hrecords.agree trivial c hc
    rw [hrecords.kept _ o ho] at hx
    cases hx
    exact heq

theorem completions_agree_pair : RejectsNewCalls (pairEnv [listing "call-1"]) askedInput ∧
      ∀ c ∈ completions (run (pairEnv [listing "call-1"]) askedInput),
        ∀ c' ∈ completions (run (pairEnv [listing "call-1"]) askedInput), c.1 = c'.1 → c = c' :=
  have h : RejectsNewCalls (pairEnv [listing "call-1"]) askedInput := by decide
  ⟨h, (completions_agree _ _ h).1⟩

theorem completions_disagree :
    ¬ ∀ env input, ∀ c ∈ completions (run env input), ∀ c' ∈ completions (run env input),
      c.1 = c'.1 → c = c' := by
  intro h
  have hcompleted : ("call-1", .completed, some .nil, none) ∈
      completions (run repeatingEnv askedInput) := by decide
  have hrejected : ("call-1", .failed, none, some turnRejected) ∈
      completions (run repeatingEnv askedInput) := by decide
  cases h _ _ _ hcompleted _ hrejected rfl

end AgentPlatform
