/-
**A call whose result is durable is not executed by a later attempt, unless recovery lost track of it.**
-/

import AgentPlatform.CompleteTurns
import AgentPlatform.DurableTables

namespace AgentPlatform

open History (Admissible)

section Loop

variable (env : LoopEnv) (input : AgentLoopInput)

def Announced (past : List LoopStep) (call : GatewayToolCall) : Prop :=
  ∃ event modelCallId hash, .emit event ∈ past ∧
    event.body = .toolCallReceived modelCallId call hash

def Requested (call : GatewayToolCall) : Prop :=
  call ∈ input.pendingToolCalls.map DurablePendingToolCall.toGateway ∨
    ∃ r, call ∈ (env.gateway r).proposedCalls

def ExecutesNew (past : List LoopStep) : LoopStep → Prop
  | .invokeTool call effect =>
    Announced past call ∧ Requested env input call ∧
      priorOutcomes input.priorToolOutcomes call.id = none ∧
      env.tools.effect? call.name = some effect ∧
      (effect.sideEffecting = true → ∃ k, .createCheckpoint k ∈ past ∧ k.toolCallId = call.id ∧
        env.checkpointId? call.id = some k.id)
  | .completeCheckpoint id callId _ =>
    ∃ k, .createCheckpoint k ∈ past ∧ k.id = id ∧ k.toolCallId = callId
  | _ => True

def PhaseAnnounced (past : List LoopStep) : LoopPhase → Prop
  | .resuming calls | .streaming _ calls | .proposed calls _ | .executing calls _ =>
    ∀ call ∈ calls, Announced past call ∧ Requested env input call
  | .responded result =>
    ∀ call ∈ result.toolCalls, Announced past call ∧ Requested env input call
  | _ => True

def KeepsOutcomes (outcomes : Outcomes) : Prop :=
  ∀ id, outcomes id = none → priorOutcomes input.priorToolOutcomes id = none

end Loop

variable {env : LoopEnv} {input : AgentLoopInput}

variable {past : List LoopStep} {call : GatewayToolCall} {s : RunStore} {epoch : ℕ} {w : World}
    {id : String} {op : SystemOp}

theorem Announced.mono {past' : List LoopStep} (hsub : past ⊆ past') (h : Announced past call)
    : Announced past' call := by
  obtain ⟨event, m, hash, hmem, hb⟩ := h
  exact ⟨event, m, hash, hsub hmem, hb⟩

theorem PhaseAnnounced.mono {past' : List LoopStep} {phase : LoopPhase} (hsub : past ⊆ past')
    (h : PhaseAnnounced env input past phase) : PhaseAnnounced env input past' phase := by
  have all : ∀ {calls : List GatewayToolCall},
      (∀ call ∈ calls, Announced past call ∧ Requested env input call) →
      ∀ call ∈ calls, Announced past' call ∧ Requested env input call :=
    fun h call hc => ⟨(h call hc).1.mono hsub, (h call hc).2⟩
  cases phase with
  | resuming | streaming | proposed | executing | responded => exact all h
  | _ => trivial

theorem KeepsOutcomes.set {o : Outcomes} (h : KeepsOutcomes input o) (id : String)
    (outcome : ToolOutcome) : KeepsOutcomes input (o.set id outcome) :=
  fun id' hn => h id' (Outcomes.set_eq_none hn)

theorem announced_concat {calls : List GatewayToolCall} {event : AgentEvent} {m hash : String}
    (h : ∀ c ∈ calls, Announced past c ∧ Requested env input c)
    (he : event.body = .toolCallReceived m call hash) (hreq : Requested env input call) :
    ∀ c ∈ calls ++ [call], Announced (past ++ [.emit event]) c ∧ Requested env input c := by
  intro c hc
  rcases mem_append.1 hc with hc | hc
  · exact ⟨(h c hc).1.mono (subset_append_left _ _), (h c hc).2⟩
  · obtain rfl := mem_singleton.1 hc
    exact ⟨⟨event, m, hash, by simp, he⟩, hreq⟩

theorem executesNew_checkpointed {st : TurnState} {calls : List GatewayToolCall}
    {item : PreparedCall} {effect : ToolEffect} {k : CheckpointRequest} {after : List LoopStep}
    (hc : ∀ call ∈ calls, Announced past call ∧ Requested env input call)
    (hk : KeepsOutcomes input st.outcomes) (prepared : PreparedFor env calls item)
    (new : st.outcomes item.call.id = none)
    (registered : env.tools.effect? item.call.name = some effect)
    (checkpoint : CheckpointFor env st item.call k)
    (ha : Admissible remember (ExecutesNew env input)
      (past ++ [.createCheckpoint k, .invokeTool item.call effect, .toolReturned item.call effect])
      after) : Admissible remember (ExecutesNew env input) past
      ([.createCheckpoint k, .invokeTool item.call effect, .toolReturned item.call effect] ++
        after) := by
  obtain ⟨han, hreq⟩ := hc item.call prepared.mem
  refine ⟨trivial, ⟨han.mono (subset_append_left _ _), hreq, hk _ new,
    registered, fun _ => ⟨k, by simp [remember], checkpoint.toolCallId, checkpoint.id⟩⟩, trivial, ?_⟩
  simpa [remember] using ha

theorem Move.executesNew {c c' : Config} {steps : List LoopStep} (hm : Move env input c steps c')
    (hk : KeepsOutcomes input c.state.outcomes) (h : PhaseAnnounced env input past c.phase) :
    Admissible remember (ExecutesNew env input) past steps ∧
      KeepsOutcomes input c'.state.outcomes ∧ PhaseAnnounced env input (past ++ steps) c'.phase := by
  have hkp : PhaseAnnounced env input (past ++ steps) c.phase :=
    h.mono (subset_append_left past steps)
  cases hm with
  | yield | journal => exact ⟨⟨trivial, trivial⟩, hk, hkp⟩
  | resume => exact ⟨trivial, hk, by simp [PhaseAnnounced]⟩
  | reannounce _ _ _ phase pending =>
    rw [phase] at h
    exact ⟨⟨trivial, trivial⟩, hk, announced_concat h rfl (.inl (by simp [pending]))⟩
  | resumed _ phase | answer _ phase | replay _ _ _ _ phase =>
    rw [phase] at hkp
    exact ⟨trivial, hk, hkp⟩
  | request =>
    exact ⟨⟨trivial, trivial, trivial⟩, hk, by simp [PhaseAnnounced]⟩
  | receive r _ _ phase proposed =>
    rw [phase] at h
    exact ⟨⟨trivial, trivial⟩, hk, announced_concat h rfl
      (.inr ⟨r, proposed.subset (by simp)⟩)⟩
  | respond _ _ phase | validate _ phase =>
    rw [phase] at hkp
    exact ⟨⟨trivial, trivial⟩, hk, hkp⟩
  | reject _ _ _ _ _ kept =>
    refine ⟨trivial, ?_, ?_⟩
    · intro id hn
      obtain hsa | ⟨-, _, hso, -⟩ := kept id
      · exact hk id (hsa ▸ hn)
      · exact absurd (hso.symm.trans hn) (by simp)
    · dsimp only
      split <;> trivial
  | suspend => exact ⟨⟨trivial, trivial⟩, hk, trivial⟩
  | settle _ _ _ _ phase =>
    rw [phase] at hkp
    exact ⟨trivial, hk.set _ _, hkp⟩
  | execute _ item _ _ _ _ phase prepared new registered har =>
      rw [phase] at h hkp
      obtain ⟨ha, hreq⟩ := h item.call prepared.mem
      exact ⟨⟨⟨ha, hreq, hk _ new, registered,
        fun hs => absurd (hs.symm.trans har) (by simp)⟩, trivial, trivial⟩, hk.set _ _, hkp⟩
  | executeCheckpointed _ _ _ _ _ _ k _ phase prepared new registered _ _ checkpoint =>
      rw [phase] at h hkp
      exact ⟨executesNew_checkpointed h hk prepared new registered checkpoint
        ⟨⟨k, by simp, rfl, checkpoint.toolCallId⟩, trivial⟩, hk.set _ _, hkp⟩
  | executeRolledBack _ _ _ _ _ _ _ phase prepared new registered _ _ checkpoint =>
      rw [phase] at h hkp
      exact ⟨executesNew_checkpointed h hk prepared new registered checkpoint
        ⟨trivial, trivial⟩, hk.set _ _, hkp⟩
  | breakAfter _ _ _ _ _ _ k completion _ phase prepared new registered _ _ checkpoint =>
      rw [phase] at h
      refine ⟨?_, hk, trivial⟩
      rw [append_assoc]
      refine executesNew_checkpointed h hk prepared new registered checkpoint ?_
      cases completion with
      | none => exact ⟨trivial, trivial⟩
      | some => exact ⟨⟨k, by simp, rfl, checkpoint.toolCallId⟩, trivial, trivial⟩
  | flush _ phase =>
    refine ⟨?_, hk, by rcases phase with ⟨-, rfl⟩ | ⟨-, rfl⟩ <;> trivial⟩
    clear hkp h
    induction c.state.emitted generalizing past with
    | nil => trivial
    | cons _ _ ih => exact ⟨trivial, ih⟩
  | _ => exact ⟨trivial, hk, trivial⟩

theorem run_executesNew (env : LoopEnv) (input : AgentLoopInput) :
    Admissible remember (ExecutesNew env input) [] (run env input) :=
  run_monitored
    (fun c past => KeepsOutcomes input c.state.outcomes ∧ PhaseAnnounced env input past c.phase)
    (fun _ _ _ _ hm h => hm.executesNew h.1 h.2) ⟨fun _ h => h, trivial⟩

def RunStore.Records (s : RunStore) (epoch : ℕ) : LoopStep → Prop
  | .emit event => ∀ m call hash, event.body = .toolCallReceived m call hash →
      ∃ row, s.toolCall? epoch call.id = some row ∧ row.toolName = call.name
  | .journal _ messages _ => ∀ m ∈ messages, ∃ r ∈ s.messages, r.executionEpoch = epoch ∧ r.message = m
  | .createCheckpoint k => ∃ row ∈ s.checkpoints, row.checkpoint.executionEpoch = epoch ∧
      row.checkpoint.id = k.id ∧ row.checkpoint.toolCallId = k.toolCallId
  | .completeCheckpoint _ callId _ => ∃ row ∈ s.checkpoints, row.checkpoint.executionEpoch = epoch ∧
      row.checkpoint.toolCallId = callId ∧ row.completed ≠ none
  | _ => True

theorem ToolCall.toolName_of_identity {c c' : ToolCall} (h : c.identity = c'.identity) :
    c.toolName = c'.toolName := (Prod.mk.inj (Prod.mk.inj h).2).1

theorem RunStore.Records.grows {s' : RunStore} {step : LoopStep} (hg : s.Grows s')
    (h : s.Records epoch step) : s'.Records epoch step := by
  cases step with
  | emit =>
    intro m call hash hb
    obtain ⟨row, hrow, hn⟩ := h m call hash hb
    obtain ⟨row', hrow', hid⟩ := hg.toolCalls _ _ _ hrow
    exact ⟨row', hrow', (ToolCall.toolName_of_identity hid).trans hn⟩
  | journal _ messages =>
    intro m hm
    obtain ⟨r, hr, hs⟩ := h m hm
    exact ⟨r, hg.messages hr, hs⟩
  | createCheckpoint =>
    obtain ⟨row, hrow, hs⟩ := h
    obtain ⟨row', hrow', hsa, -⟩ := hg.checkpoints row hrow
    exact ⟨row', hrow', by rw [hsa]; exact hs⟩
  | completeCheckpoint =>
    obtain ⟨row, hrow, hep, hc, hco⟩ := h
    obtain ⟨row', hrow', hsa, hk⟩ := hg.checkpoints row hrow
    exact ⟨row', hrow', by rw [hsa]; exact hep, by rw [hsa]; exact hc, hk hco⟩
  | _ => trivial

theorem savedCall_received {hash : JsonObject → String} {x : Executor} {lease : RunLease}
    {event : AgentEvent} {m h : String} {c? : Option ToolCall}
    (hb : event.body = .toolCallReceived m call h)
    (hs : x.savedCall hash lease event = .ok c?) :
    ∃ c, c? = some c ∧ c.id = call.id ∧ c.toolName = call.name := by
  simp only [Executor.savedCall, Executor.eventRecord, hb] at hs
  cases hval : (receivedRecord lease x.turnNumber call h).validate hash with
  | error => rw [hval] at hs; cases hs
  | ok =>
    rw [hval] at hs
    cases hs
    obtain ⟨_, -, rfl, -⟩ := ToolCall.validate_eq_ok hval
    exact ⟨_, rfl, rfl, rfl⟩

theorem saveToolCallRow_stored {row? : Option ToolCall} {c returned row : ToolCall}
    (h : saveToolCallRow row? c = .ok (returned, row)) : row.identity = c.identity := by
  obtain ⟨-, -, rfl⟩ | ⟨row', -, hid, -, rfl, -⟩ | ⟨row', -, hid, -, rfl, -⟩ :=
    saveToolCallRow_cases h
  · rfl
  · exact hid
  · exact hid

theorem Performs.records {hash : JsonObject → String} {codec : StoreCodec} {lease : RunLease}
    {now : Timestamp} {w : Workspace} {x : Executor} {rest : List LoopStep} {step : LoopStep}
    {p : Performed} (hs : s.WellFormed) (h : Performs hash codec lease now s w x rest step p)
    (hlog : p.logged)
    (hcr : ∀ id callId snapshot, step = .completeCheckpoint id callId snapshot →
      ∃ k : CheckpointRequest, s.Records lease.executionEpoch (.createCheckpoint k) ∧ k.id = id ∧
        k.toolCallId = callId) : p.store.Records lease.executionEpoch step := by
  cases h with
  | refused => cases hlog
  | noted _ _ nothing =>
    intro m call h hb
    obtain ⟨_, hn, -⟩ := savedCall_received hb nothing
    cases hn
  | saved _ _ _ _ record save =>
    intro m call h hb
    obtain ⟨_, hc', hid, hna⟩ := savedCall_received hb record
    cases hc'
    obtain ⟨row, hrow, -, -, hse, -⟩ := saveToolCallFenced_lookup save
    refine ⟨row, by rw [← hid]; exact hse, ?_⟩
    exact (ToolCall.toolName_of_identity (saveToolCallRow_stored hrow)).trans hna
  | journaled _ _ _ _ _ append =>
    obtain ⟨-, _, -, -, hall⟩ := appendTranscriptFenced_inv append
    exact hall
  | observed step => cases step <;> trivial
  | created _ _ _ create =>
    obtain ⟨-, hep, ⟨⟨row, hrow, hsa⟩, rfl⟩ | ⟨-, -, rfl⟩⟩ := createCheckpointFenced_inv create
    · exact ⟨row, hrow, by rw [hsa]; rfl, by rw [hsa]; rfl, by rw [hsa]; rfl⟩
    · exact ⟨_, mem_append_right _ (mem_singleton_self _), rfl, rfl, rfl⟩
  | completed id callId snapshot _ _ complete =>
    obtain ⟨k, ⟨row, hrow, hep, hid, hca⟩, rfl, rfl⟩ := hcr id callId snapshot rfl
    obtain ⟨-, _, hrow', -, rfl⟩ := completeCheckpointFenced_inv complete
    have hlk : s.checkpoint? k.id = some row :=
      hs.checkpointKeys.lookup_eq_some_iff.2 ⟨hrow, hid⟩
    rw [hrow'] at hlk
    cases hlk
    exact ⟨_, KeyedTable.mem_upsert_self _ _, hep, hca, by simp⟩
  | _ => trivial

def World.Recorded (w : World) : Prop :=
  ∀ g epoch step, .performed g epoch step ∈ w.log → w.store.Records epoch step

def RunStore.storedResults (s : RunStore) (epoch : ℕ) : List String :=
  (s.epochMessages epoch).filterMap (·.message.answeredCall) ++
    (s.checkpoints.filter fun k =>
      k.checkpoint.executionEpoch = epoch && k.completed.isSome).map (·.checkpoint.toolCallId)

/-- An attempt before `g` made the result of the call durable. -/
def LogEntry.StoresResult (g epoch : ℕ) (id : String) : LogEntry → Prop
  | .performed g' e (.journal _ messages _) =>
    g' < g ∧ e = epoch ∧ ∃ m ∈ messages, m.answeredCall = some id
  | .performed g' e (.completeCheckpoint _ callId _) => g' < g ∧ e = epoch ∧ callId = id
  | _ => False

def LogEntry.FinishesCall (g epoch : ℕ) (id : String) : LogEntry → Prop
  | .performed g' e (.toolReturned call _) => g' < g ∧ e = epoch ∧ call.id = id
  | _ => False

instance (g epoch : ℕ) (id : String) : DecidablePred (LogEntry.StoresResult g epoch id) := by
  intro entry
  unfold LogEntry.StoresResult
  split <;> infer_instance

instance (g epoch : ℕ) (id : String) : DecidablePred (LogEntry.FinishesCall g epoch id) := by
  intro entry
  unfold LogEntry.FinishesCall
  split <;> infer_instance

/-- **The property**: no attempt invokes a handler for a call that an earlier attempt of its epoch had
finished and made durable. -/
def World.ExecutesOnce (w : World) : Prop :=
  ∀ past g epoch call effect rest,
    w.log = past ++ .performed g epoch (.invokeTool call effect) :: rest →
    ¬ ((∃ entry ∈ past, entry.FinishesCall g epoch call.id) ∧
      ∃ entry ∈ past, entry.StoresResult g epoch call.id)

theorem World.Recorded.storedResults (h : w.Recorded) {g : ℕ} {entry : LogEntry}
    (he : entry ∈ w.log) (hs : entry.StoresResult g epoch id) :
    id ∈ w.store.storedResults epoch := by
  unfold RunStore.storedResults
  rw [mem_append]
  unfold LogEntry.StoresResult at hs
  split at hs
  · obtain ⟨-, rfl, m, hm, ha⟩ := hs
    obtain ⟨r, hr, hep, rfl⟩ := h _ _ _ he m hm
    exact .inl (mem_filterMap.2
      ⟨r, mem_filter.2 ⟨hr, by simpa using hep⟩, ha⟩)
  · obtain ⟨-, rfl, rfl⟩ := hs
    obtain ⟨row, hrow, hep, hc, hco⟩ := h _ _ _ he
    refine .inr (mem_map.2 ⟨row, mem_filter.2 ⟨hrow, ?_⟩, hc⟩)
    simp [hep, isSome_iff_ne_none, hco]
  · exact hs.elim

theorem World.Moves.storesResult {w' : World} (hl : w.Leased) (h : w.Moves op w') {g : ℕ}
    {a : Attempt} (ha : w.attempts g = some a)
    (hs : ∃ entry ∈ w'.log, entry.StoresResult g epoch id) :
    ∃ entry ∈ w.log, entry.StoresResult g epoch id := by
  obtain ⟨entry, he, hst⟩ := hs
  obtain ⟨_, hlog, hn⟩ | ⟨g', a', _, _, _, step, _, _, -, ha', -, hp, hlg,
    -, hlog⟩ := h.performed
  · rw [hlog] at he
    rcases mem_append.1 he with hold | hnew
    · exact ⟨entry, hold, hst⟩
    · cases entry with
      | performed g' e step => exact absurd hnew (hn g' e step)
      | _ => exact hst.elim
  · rw [hlog] at he
    rcases mem_append.1 he with hold | hnew
    · exact ⟨entry, hold, hst⟩
    obtain rfl := mem_singleton.1 hnew
    have hea : g' < g ∧ step.durable = true := by
      unfold LogEntry.StoresResult at hst
      split at hst
      next heq =>
        cases heq
        exact ⟨hst.1, rfl⟩
      next heq =>
        cases heq
        exact ⟨hst.1, rfl⟩
      · exact hst.elim
    have hnw := (hp.newest hlg hea.2).1
    rw [(hl g' a' ha').1] at hnw
    have hle := (hl g a ha).2
    omega

def RunStore.restoresOutcome (s : RunStore) (lease : RunLease) (id : String) : Bool :=
  let row? := selectCheckpoint s lease
  loadsToolCalls lease row? &&
    (terminalCalls s lease ((recoveredCheckpoint lease row?).map (·.createdAt))).any (·.id = id)

def CheckpointGuards (env : LoopEnv) (s : RunStore) (epoch : ℕ) (id : String) : Prop :=
  (∃ k ∈ s.checkpoints, k.checkpoint.executionEpoch = epoch ∧ k.checkpoint.toolCallId = id ∧
      env.checkpointId? id ≠ some k.checkpoint.id) ∧ ∃ row, s.toolCall? epoch id = some row ∧
      ∀ effect, env.tools.effect? row.toolName = some effect → effect.sideEffecting = true

def GuardedAtLoad (env : LoopEnv) (s : RunStore) (lease : RunLease) (id : String) : Prop :=
  s.restoresOutcome lease id = true ∨ CheckpointGuards env s lease.executionEpoch id ∨
    (∀ call ∈ s.resumedCalls lease, call.id ≠ id) ∧
      ∀ r, ∀ call ∈ (env.gateway r).proposedCalls, call.id ≠ id

/-- **The condition**: a load finds every durable result of its epoch guarded. -/
def LoadsGuarded (w : World) : SystemOp → Prop
  | .load g env _ _ _ => ∀ a ∈ w.attempts g,
      ∀ id ∈ w.store.storedResults a.lease.executionEpoch, GuardedAtLoad env w.store a.lease id
  | _ => True

def Guarded (env : LoopEnv) (input : AgentLoopInput) (s : RunStore) (epoch : ℕ) (id : String) : Prop :=
  priorOutcomes input.priorToolOutcomes id ≠ none ∨ CheckpointGuards env s epoch id ∨
    ∀ call, Requested env input call → call.id ≠ id

theorem CheckpointGuards.grows {s' : RunStore} (hg : s.Grows s')
    (h : CheckpointGuards env s epoch id) : CheckpointGuards env s' epoch id := by
  obtain ⟨⟨k, hk, hep, hc, hf⟩, _, hrow, he⟩ := h
  obtain ⟨k', hk', hs, -⟩ := hg.checkpoints k hk
  obtain ⟨row', hrow', hid⟩ := hg.toolCalls _ _ _ hrow
  refine ⟨⟨k', hk', ?_⟩, row', hrow', ?_⟩
  · rw [hs]
    exact ⟨hep, hc, hf⟩
  · rw [ToolCall.toolName_of_identity hid]
    exact he

theorem Guarded.grows {s' : RunStore} (hg : s.Grows s') (h : Guarded env input s epoch id)
    : Guarded env input s' epoch id :=
  h.imp_right (Or.imp_left (CheckpointGuards.grows hg))

theorem priorOutcomes_ne_none {outcomes : List DurableToolOutcome} {o : DurableToolOutcome}
    (h : o ∈ outcomes) : priorOutcomes outcomes o.toolCallId ≠ none := by
  unfold priorOutcomes
  rw [Ne, Option.map_eq_none_iff, List.find?_eq_none]
  intro hn
  exact hn o (List.mem_reverse.2 h) (by simp)

theorem GuardedAtLoad.guarded {lease : RunLease} {codec : RecoveryCodec} {now : Timestamp}
    {r : RunRecoveryState} {context : Option BuiltContext} (hld : load codec s lease now = .ok r)
    (h : GuardedAtLoad env s lease id) :
    Guarded env (loopInput lease r context) s lease.executionEpoch id := by
  obtain ⟨-, -, _, outcomes, _, -, hout, hp, rfl, -⟩ := load_inv hld
  rcases h with hr | hck | ⟨hrs, hpr⟩
  ·
    left
    change priorOutcomes outcomes id ≠ none
    simp only [RunStore.restoresOutcome, and_eq_true, any_eq_true, decide_eq_true_eq] at hr
    obtain ⟨hl, c, hc, rfl⟩ := hr
    rw [loadOutcomes, if_pos hl] at hout
    have hmem : c.toOutcome ∈ outcomes := by
      rw [toolOutcomes_ok hout]
      exact mem_map_of_mem ((mem_insertionSort _).2 hc)
    exact priorOutcomes_ne_none hmem
  · exact .inr (.inl hck)
  · refine .inr (.inr ?_)
    rintro call (hpn | ⟨req, hca⟩)
    · exact hrs call (loadPending_toGateway hp ▸ hpn)
    · exact hpr req call hca

structure RunsGuarded (w : World) (g epoch : ℕ) (rest : List LoopStep) (env : LoopEnv)
    (input : AgentLoopInput) (past : List LoopStep) : Prop where
  recorded : ∀ step ∈ past, .performed g epoch step ∈ w.log
  executes : Admissible remember (ExecutesNew env input) past rest
  guarded : ∀ id, (∃ entry ∈ w.log, entry.StoresResult g epoch id) →
    Guarded env input w.store epoch id

theorem RunsGuarded.not_stored {g : ℕ} {effect : ToolEffect} {rest : List LoopStep}
    (hs : w.store.WellFormed) (hrec : w.Recorded)
    (h : RunsGuarded w g epoch (.invokeTool call effect :: rest) env input past) :
    ¬ ∃ entry ∈ w.log, entry.StoresResult g epoch call.id := by
  intro hst
  obtain ⟨ha, hreq, hnew, hreg, hck⟩ := h.executes.1
  obtain hkn | ⟨⟨k, hk, hep, hc, hf⟩, _, hrow, he⟩ | hn :=
    h.guarded call.id hst
  · exact hkn hnew
  ·
    obtain ⟨_, m, hash, hem, hb⟩ := ha
    obtain ⟨row', hrow', hna⟩ := hrec _ _ _ (h.recorded _ hem) m call hash hb
    rw [hrow] at hrow'
    cases hrow'
    rw [hna] at he
    obtain ⟨_, hcr, hc', hid'⟩ := hck (he effect hreg)
    obtain ⟨row', hrow', hep', hid, hsa⟩ := hrec _ _ _ (h.recorded _ hcr)
    have hone : row'.checkpoint.id = k.checkpoint.id :=
      hs.checkpointCalls row' hrow' k hk (hep'.trans hep.symm)
        ((hsa.trans hc').trans hc.symm)
    exact hf (by rw [hid', ← hid, hone])
  · exact hn call hreq rfl

structure World.ExecutionTracked (w : World) : Prop where
  wellFormed : w.store.WellFormed
  leased : w.Leased
  recorded : w.Recorded
  running : ∀ g a rest x, w.attempts g = some a → a.phase = .running rest x →
    ∃ env input past, RunsGuarded w g a.lease.executionEpoch rest env input past

theorem World.ExecutionTracked.recorded_apply (h : w.ExecutionTracked) (op : SystemOp) :
    (w.apply op).Recorded := by
  have hmv := w.apply_moves op
  have hg := hmv.grows h.wellFormed
  intro g epoch step hmem
  obtain ⟨_, hlog, hn⟩ | ⟨_, a, x, _, _, _, _, _, -, ha, hph, hp,
    hl, hs, hlog⟩ := hmv.performed
  · rw [hlog] at hmem
    rcases mem_append.1 hmem with hold | hnew
    · exact (h.recorded g epoch step hold).grows hg
    · exact absurd hnew (hn g epoch step)
  · rw [hlog] at hmem
    rcases mem_append.1 hmem with hold | hnew
    · exact (h.recorded g epoch step hold).grows hg
    cases mem_singleton.1 hnew
    rw [hs]
    refine hp.records h.wellFormed hl ?_
    rintro _ _ _ rfl
    obtain ⟨_, _, _, hrun⟩ := h.running g a _ x ha hph
    obtain ⟨k, hc, hid, hca⟩ := hrun.executes.1
    exact ⟨k, h.recorded _ _ _ (hrun.recorded _ hc), hid, hca⟩

theorem World.ExecutionTracked.apply (h : w.ExecutionTracked) (hop : LoadsGuarded w op)
    : (w.apply op).ExecutionTracked := by
  have hmv := w.apply_moves op
  have hg := hmv.grows h.wellFormed
  obtain ⟨_, hlog⟩ := hmv.log_append
  have hsub : w.log ⊆ (w.apply op).log := by
    rw [hlog]
    exact subset_append_left _ _
  refine ⟨h.wellFormed.of_committed (w.apply_committed op), h.leased.apply h.wellFormed op,
    h.recorded_apply op, ?_⟩
  have keep : ∀ {g epoch : ℕ} {a : Attempt} {env : LoopEnv} {input : AgentLoopInput},
      w.attempts g = some a → (∀ id, (∃ entry ∈ w.log, entry.StoresResult g epoch id) →
        Guarded env input w.store epoch id) →
      ∀ id, (∃ entry ∈ (w.apply op).log, entry.StoresResult g epoch id) →
        Guarded env input (w.apply op).store epoch id :=
    fun ha hgu id hs =>
      (hgu id (hmv.storesResult h.leased ha hs)).grows hg
  intro g a rest x ha hph
  cases hmv.runs ha hph with
  | kept _ _ before =>
    obtain ⟨env, input, past, hrun⟩ := h.running g a rest x before hph
    exact ⟨env, input, past, fun step hst => hsub (hrun.recorded step hst), hrun.executes,
      keep before hrun.guarded⟩
  | loaded a₀ env _ context _ r _ before load lease _ _ steps =>
      rw [lease, steps]
      refine ⟨env, loopInput a₀.lease r context, [], by simp, run_executesNew _ _,
        keep before fun id hs => ?_⟩
      obtain ⟨entry, he, hsr⟩ := hs
      exact (hop a₀ before id (h.recorded.storedResults he hsr)).guarded load
  | approved a₀ x₀ _ _ _ _ _ before phase _ _ lease =>
      obtain ⟨env, input, past, hrun⟩ := h.running g a₀ rest x₀ before phase
      rw [lease]
      exact ⟨env, input, past, fun step hst => hsub (hrun.recorded step hst), hrun.executes,
        keep before hrun.guarded⟩
  | stepped a₀ x₀ _ _ step _ _ before phase _ _ lease _ _ _ log =>
    obtain ⟨env, input, past, hrun⟩ := h.running g a₀ _ x₀ before phase
    rw [lease]
    refine ⟨env, input, past ++ [step], ?_, hrun.executes.2, keep before hrun.guarded⟩
    intro step' hst'
    rcases mem_append.1 hst' with hold | hnew
    · exact hsub (hrun.recorded step' hold)
    · rw [mem_singleton.1 hnew, log]
      simp

theorem World.ExecutesOnce.apply (ht : w.ExecutionTracked) (h : w.ExecutesOnce)
    : (w.apply op).ExecutesOnce := by
  intro past g epoch call effect rest hs
  obtain ⟨_, hold⟩ | ⟨a, x, _, rfl, rfl, ha, hph⟩ := World.apply_invoked hs
  · exact h past g epoch call effect _ hold
  · obtain ⟨_, _, past, hrun⟩ := ht.running g a _ x ha hph
    exact fun hb => hrun.not_stored ht.wellFormed ht.recorded hb.2

/-- **No double execution.** -/
theorem executes_once (x : Submission) (ops : List SystemOp)
    (hops : Admissible World.apply LoadsGuarded (submitted x) ops) :
    (ops.foldl World.apply (submitted x)).ExecutesOnce := by
  have hinv := Admissible.invariant (fun w : World => w.ExecutionTracked ∧ w.ExecutesOnce)
    (fun w op h hop => ⟨h.1.apply hop, World.ExecutesOnce.apply h.1 h.2⟩)
    ⟨⟨RunStore.WellFormed.submit x, fun g a ha => (by cases ha),
        fun g epoch step h => (by cases h), fun g a rest x ha => (by cases ha)⟩,
      fun past g epoch call effect rest h => (by simp [submitted] at h)⟩ hops
  exact hinv.2

def LoadsRestored (w : World) : SystemOp → Prop
  | .load g _ _ _ _ => ∀ a ∈ w.attempts g, ∀ id ∈ w.store.storedResults a.lease.executionEpoch,
      w.store.restoresOutcome a.lease id = true
  | _ => True

instance (w : World) : ∀ op : SystemOp, Decidable (LoadsRestored w op)
  | .load g _ _ _ _ =>
    inferInstanceAs (Decidable (∀ a ∈ w.attempts g,
      ∀ id ∈ w.store.storedResults a.lease.executionEpoch, _))
  | .claim .. | .start .. | .heartbeat .. | .work .. | .interrupt .. | .finish ..
  | .recoverExpired .. | .requestCancel .. | .decide .. | .rewind .. => isTrue trivial

theorem LoadsRestored.guarded (h : LoadsRestored w op) : LoadsGuarded w op := by
  cases op with
  | load => exact fun a ha id hid => .inl (h a ha id hid)
  | _ => trivial

def answeredHistory : List SystemOp := lostHistory false 13 ++ workOps 2 8 104

theorem executes_once_restored :
    Admissible World.apply LoadsGuarded (submitted (scriptedSubmission .autoApprove))
        answeredHistory ∧ (answeredHistory.foldl World.apply
        (submitted (scriptedSubmission .autoApprove))).ExecutesOnce :=
  have hrestored : Admissible World.apply LoadsRestored
      (submitted (scriptedSubmission .autoApprove)) answeredHistory := by decide
  have hops := hrestored.mono fun _ _ => LoadsRestored.guarded
  ⟨hops, executes_once _ _ hops⟩

theorem journaled_call_executed_again : ¬ ((lostHistory false 11).foldl World.apply
      (submitted (scriptedSubmission .autoApprove))).ExecutesOnce := by
  intro h
  let log := ((lostHistory false 11).foldl World.apply
    (submitted (scriptedSubmission .autoApprove))).log
  refine h (log.take 18) 2 1 { id := "call-1", name := "list_files", arguments := .nil } .readOnly
    (log.drop 19) ?_ ?_
  · decide
  · decide

end AgentPlatform
