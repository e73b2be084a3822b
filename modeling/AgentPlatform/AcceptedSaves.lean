/-
**The durable tool state machine accepts what the loop emits, in every history of persistable loads.**
-/

import AgentPlatform.DurableTables
import AgentPlatform.PersistedAttempts
import AgentPlatform.ResumeIdentity

namespace AgentPlatform

open Executor KeyedTable RunRecoveryState RunStore ToolCall

open History (Admissible)

theorem Executor.counted_observed (x : Executor) (event : AgentEvent) :
    (x.counted event).observed = x.observed := by
  unfold counted
  split <;> rfl

theorem Executor.noted_observed (x : Executor) (event : AgentEvent) :
    (x.noted event).observed = x.observed := by
  unfold noted
  split <;> rfl

variable {x : Executor} {hash : JsonObject → String} {lease : RunLease} {event : AgentEvent}
    {s : RunStore} {w : World} {op : SystemOp}

theorem Executor.savedCall_congr {y : Executor} (ho : x.observed = y.observed)
    (ht : x.turnNumber = y.turnNumber) :
    x.savedCall hash lease event = y.savedCall hash lease event := by
  have hrec : x.eventRecord lease event = y.eventRecord lease event := by
    simp only [eventRecord, ho, ht]
  simp only [savedCall, hrec]

theorem Executor.counted_congr {y : Executor} (ht : x.turnNumber = y.turnNumber) :
    (x.counted event).turnNumber = (y.counted event).turnNumber := by
  unfold counted
  split <;> simp [ht]

section Blank

variable {hash : JsonObject → String} {lease : RunLease} {x : Executor} {event : AgentEvent}

theorem savedCall_blank {c : ToolCall} (h : x.savedCall hash lease event = .ok (some c))
    (hx : ∀ id c, x.observed id = some c → c.opened → c.Blank) (ho : c.opened) : c.Blank := by
  obtain ⟨record, hrec, hval⟩ := savedCall_eq_some h
  obtain ⟨version, hv, rfl, hinv⟩ := validate_eq_ok hval
  have blank : record.Blank → ({ record with workspaceVersion := version } : ToolCall).Blank := by
    intro hb
    rw [hb.workspaceVersion] at hv
    cases hv
    exact { hb with workspaceVersion := rfl }
  unfold eventRecord at hrec
  split at hrec
  · cases hrec
    exact blank ⟨rfl, rfl, rfl, rfl, rfl⟩
  · split at hrec
    next obs hob =>
      split at hrec
      next hst =>
        cases hrec
        exact blank { hx _ _ hob (.inl hst) with }
      · cases hrec
    · cases hrec
  · split at hrec
    · split at hrec
      · cases hrec
        rcases ho with hs | hs <;> cases hs
      · cases hrec
    · cases hrec
  · -- the end of a call is stamped, so an open state is refused
    obtain ⟨obs, -, rfl⟩ := Option.map_eq_some_iff.1 hrec
    exfalso
    unfold ToolCall.invalidity at hinv
    iterate 5
      split at hinv
      · cases hinv
    next ht =>
      rcases ho with hs | hs <;> simp only at hs <;>
        simp [hs, ToolCallStatus.terminal] at ht
  · cases hrec

theorem saveToolCallRow_blank {row? : Option ToolCall} {c returned row : ToolCall}
    (h : saveToolCallRow row? c = .ok (returned, row)) (hc : c.opened → c.Blank)
    (hrow : ∀ r, row? = some r → r.opened → r.Blank) :
    (returned.opened → returned.Blank) ∧ (row.opened → row.Blank) := by
  obtain ⟨-, rfl, rfl⟩ | ⟨r, hr, -, rfl, rfl, -⟩ | ⟨r, hr, -, rfl, rfl, -⟩ := saveToolCallRow_cases h
  · exact ⟨hc, hc⟩
  · exact ⟨hrow _ hr, hrow _ hr⟩
  · exact ⟨hc, fun ho => { hc ho with }⟩

end Blank

structure World.RecordsBlank (w : World) : Prop where
  rows : ∀ row ∈ w.store.toolCalls, row.opened → row.Blank
  observed : ∀ g a rest x, w.attempts g = some a → a.phase = .running rest x →
    ∀ id c, x.observed id = some c → c.opened → c.Blank

theorem RunStore.mem_of_toolCall? {epoch : ℕ} {id : String} {row : ToolCall}
    (h : s.toolCall? epoch id = some row) : row ∈ s.toolCalls ∧ row.id = id := by
  obtain ⟨hmem, hkey⟩ := lookup_some h
  exact ⟨hmem, congrArg Prod.snd hkey⟩

theorem RunStore.save_blank {s' : RunStore} {now : Timestamp} {c returned : ToolCall}
    (hrw : ∀ row ∈ s.toolCalls, row.opened → row.Blank)
    (hs : saveToolCallFenced s lease now c = .ok (returned, s')) (hc : c.opened → c.Blank) :
    (returned.opened → returned.Blank) ∧ ∀ row ∈ s'.toolCalls, row.opened → row.Blank := by
  obtain ⟨row, hrow, -, rfl, -, -⟩ := saveToolCallFenced_lookup hs
  obtain ⟨hre, hst⟩ := saveToolCallRow_blank hrow hc fun r hr =>
    hrw r (mem_of_toolCall? hr).1
  refine ⟨hre, fun row' hrow' => ?_⟩
  rcases mem_of_mem_upsert hrow' with rfl | hold
  · exact hst
  · exact hrw row' hold

theorem World.RecordsBlank.apply (h : w.RecordsBlank) (op : SystemOp) :
    (w.apply op).RecordsBlank := by
  have hmv := w.apply_moves op
  generalize w.apply op = w' at hmv
  refine ⟨?_, ?_⟩
  · obtain hs | ⟨g, a, _, _, x, _, rest, c, returned, -, ha, hph, hrec, hsa⟩ :=
      hmv.savedCalls
    · rw [hs]
      exact h.rows
    · refine (save_blank h.rows hsa (savedCall_blank hrec ?_)).2
      rw [counted_observed]
      exact h.observed g a _ x ha hph
  · intro g a' rest x' ha hph id c hc
    cases hmv.runs ha hph with
    | kept _ _ before => exact h.observed g a' rest x' before hph id c hc
    | loaded _ _ _ _ _ _ _ _ _ _ _ _ _ executor =>
      subst executor
      cases hc
    | approved a x _ _ _ _ _ before phase _ _ _ _ _ executor =>
        subst executor
        exact h.observed g a rest x before phase id c hc
    | stepped a x _ _ _ _ _ before phase performs next =>
      have hold := h.observed g a _ x before phase
      cases performs with
      | refused _ _ halted => exact absurd next (halted.stopped _ _)
      | noted =>
        obtain ⟨rfl, -⟩ := after_running next
        rw [noted_observed, counted_observed] at hc
        exact hold id c hc
      | saved _ _ _ _ hrec save =>
        obtain ⟨rfl, -⟩ := after_running next
        rw [noted_observed] at hc
        have hb := save_blank h.rows save (savedCall_blank hrec (by
          rw [counted_observed]
          exact hold))
        simp only [observe] at hc
        split at hc
        · cases hc
          exact hb.1
        · rw [counted_observed] at hc
          exact hold id c hc
      | journaled | observed | returned | created | completed | restored | unrestored =>
        cases next
        exact hold id c hc

/-- `_persist_tool_state` raises nothing: the record of the event is a valid `ToolCall`, and the stored
row accepts it. -/
def acceptsEvent (hash : JsonObject → String) (lease : RunLease) (s : RunStore) (x : Executor)
    (event : AgentEvent) : Bool :=
  match (x.counted event).savedCall hash lease event with
  | .error _ => false
  | .ok none => true
  | .ok (some c) =>
    match saveToolCallRow (s.toolCall? lease.executionEpoch c.id) c with
    | .error _ => false
    | .ok _ => true

def Attempt.accepted (a : Attempt) (s : RunStore) : Bool :=
  match a.phase with
  | .running (.emit event :: _) x => acceptsEvent a.argumentHash a.lease s x event
  | _ => true

/-- **The property**: whatever the attempt that owns the run emits next is accepted. -/
def World.PersistenceAccepts (w : World) : Prop :=
  ∀ g a, w.attempts g = some a → w.store.run.leaseGeneration = g → a.accepted w.store = true

def persistedIn (s : RunStore) (lease : RunLease) (x : Executor) : Persisted :=
  { observed := x.observed, rows := s.toolCall? lease.executionEpoch, turnNumber := x.turnNumber }

theorem persistedIn_congr {s' : RunStore} (h : s'.toolCalls = s.toolCalls)
    : persistedIn s' lease x = persistedIn s lease x := by
  have hrow : s'.toolCall? lease.executionEpoch = s.toolCall? lease.executionEpoch := by
    funext id
    simp only [toolCall?, h]
  rw [persistedIn, hrow]
  rfl

def World.SavesTracked (w : World) : Prop :=
  ∀ g a rest x, w.attempts g = some a → a.phase = .running rest x →
    w.store.run.leaseGeneration = g →
    Admissible (Persisted.step a.argumentHash a.lease) (Persisted.Accepts a.argumentHash a.lease)
      (persistedIn w.store a.lease x) rest

theorem persistedIn_save : (persistedIn s lease x).save hash lease event =
      match (x.counted event).savedCall hash lease event with
      | .error f => .error f
      | .ok none => .ok { persistedIn s lease x with turnNumber := (x.counted event).turnNumber }
      | .ok (some c) =>
        match saveToolCallRow (s.toolCall? lease.executionEpoch c.id) c with
        | .error f => .error f
        | .ok (returned, row) =>
          .ok (({ persistedIn s lease x with turnNumber := (x.counted event).turnNumber }).set
            c.id returned row) := by
  have ht : ((persistedIn s lease x).executor.counted event).turnNumber =
      (x.counted event).turnNumber := counted_congr rfl
  have ho : ((persistedIn s lease x).executor.counted event).observed =
      (x.counted event).observed := by
    rw [counted_observed, counted_observed]
    rfl
  simp only [Persisted.save, savedCall_congr ho ht, ht]
  rfl

theorem acceptsEvent_of_accepts (h : (persistedIn s lease x).Accepts hash lease (.emit event)) :
    acceptsEvent hash lease s x event := by
  obtain ⟨_, hs⟩ := h
  rw [persistedIn_save] at hs
  unfold acceptsEvent
  split
  next hc =>
    rw [hc] at hs
    cases hs
  · rfl
  next c hc =>
    simp only [hc] at hs
    split
    next hrow =>
      rw [hrow] at hs
      cases hs
    · rfl

theorem Performs.persisted {codec : StoreCodec} {now : Timestamp} {ws : Workspace} {x' : Executor}
    {rest : List LoopStep} {step : LoopStep} {p : Performed}
    (h : Performs hash codec lease now s ws x rest step p) (hn : p.phase = .running rest x') :
    persistedIn p.store lease x' = (persistedIn s lease x).step hash lease step := by
  cases h with
  | refused _ _ halted => exact absurd hn (halted.stopped _ _)
  | noted event _ nothing =>
    obtain ⟨rfl, -⟩ := after_running hn
    have hs := @persistedIn_save x hash lease event s
    rw [nothing] at hs
    rw [Persisted.step, hs]
    simp only [Except.toOption, getD_some, persistedIn, noted_observed,
      noted_turnNumber, counted_observed]
  | saved event c returned s' record save =>
    obtain ⟨rfl, -⟩ := after_running hn
    obtain ⟨row, hrow, -, -, hse, ho⟩ := saveToolCallFenced_lookup save
    have hs := @persistedIn_save x hash lease event s
    simp only [record, hrow] at hs
    have hid : returned.id = c.id := by
      obtain ⟨-, rfl, -⟩ | ⟨r, hr, -, rfl, -, -⟩ | ⟨r, hr, -, rfl, -, -⟩ :=
        saveToolCallRow_cases hrow
      · rfl
      · exact (mem_of_toolCall? hr).2
      · rfl
    have hrw : ∀ id, s'.toolCall? lease.executionEpoch id =
        if id = c.id then some row else s.toolCall? lease.executionEpoch id := by
      intro id
      split
      next heq =>
        rw [heq]
        exact hse
      next hne => exact ho _ _ fun heq => hne (Prod.mk.inj heq).2
    rw [Persisted.step, hs]
    simp only [Except.toOption, getD_some, persistedIn, Persisted.set,
      noted_observed, noted_turnNumber, observe, hid,
      counted_observed, Persisted.mk.injEq, and_true, true_and]
    exact funext hrw
  | journaled _ _ _ _ _ append =>
    obtain ⟨-, _, rfl, -, -⟩ := appendTranscriptFenced_inv append
    cases hn
    rfl
  | created _ _ _ create =>
    cases hn
    obtain ⟨-, -, ⟨-, rfl⟩ | ⟨-, -, rfl⟩⟩ := createCheckpointFenced_inv create <;> rfl
  | completed _ _ _ _ _ complete =>
    obtain ⟨-, row, -, -, rfl⟩ := completeCheckpointFenced_inv complete
    cases hn
    rfl
  | observed step observation =>
    cases hn
    cases step with
    | request r | response r | validated calls | invokeTool call effect => rfl
    | _ => cases observation
  | returned | restored | unrestored =>
    cases hn
    rfl

def RunStore.resumedRows (s : RunStore) (lease : RunLease) : List ToolCall :=
  if loadsToolCalls lease (selectCheckpoint s lease) then openCalls s lease.executionEpoch else []

def ResumesUnanswered (s : RunStore) (lease : RunLease) (env : LoopEnv) : Prop :=
  ∀ c ∈ s.resumedRows lease, c.turnNumber = 1 ∧ (env.tools.effect? c.toolName = some .interaction →
      ∀ a ∈ approvalOf s c, a.status = .approved → a.response = none)

instance (s : RunStore) (lease : RunLease) (env : LoopEnv) :
    Decidable (ResumesUnanswered s lease env) := by
  unfold ResumesUnanswered
  infer_instance

/-- **What a load has to find** for the saves of the attempt to be accepted. -/
structure PersistableAt (s : RunStore) (lease : RunLease) (env : LoopEnv) (codec : RecoveryCodec) :
    Prop where
  hash : env.argumentHash = codec.argumentHash
  ordered : RecordsInOrder env
  newIds : ProposesNewRows env (s.toolCall? lease.executionEpoch)
  resumed : ResumesUnanswered s lease env

def LoadsPersistable (w : World) : SystemOp → Prop
  | .load g env codec _ _ => ∀ a ∈ w.attempts g, PersistableAt w.store a.lease env codec
  | _ => True

section Load

variable {s : RunStore} {lease : RunLease} {env : LoopEnv} {codec : RecoveryCodec} {now : Timestamp}
  {r : RunRecoveryState}

theorem load_pending_resumed (hld : load codec s lease now = .ok r) {q : DurablePendingToolCall}
    (hq : q ∈ r.pendingToolCalls) : ∃ c ∈ s.resumedRows lease, q = resumedCall s c := by
  obtain ⟨-, -, _, _, pending, -, -, hp, rfl, -⟩ := load_inv hld
  change q ∈ pending at hq
  rw [(loadPending_ok hp).1] at hq
  unfold resumedRows
  split at hq
  next hl =>
    obtain ⟨c, _, rfl⟩ := mem_map.1 hq
    exact ⟨c, by rwa [if_pos hl], rfl⟩
  · cases hq

theorem RunStore.mem_resumedRows {c : ToolCall} (h : c ∈ s.resumedRows lease) :
    c ∈ s.toolCalls ∧ c.executionEpoch = lease.executionEpoch ∧ c.opened := by
  unfold resumedRows at h
  split at h
  · exact mem_openCalls.1 h
  · cases h

theorem RunStore.WellFormed.lookup_row (hs : s.WellFormed) {c : ToolCall} (hc : c ∈ s.toolCalls)
    (hep : c.executionEpoch = lease.executionEpoch) :
    s.toolCall? lease.executionEpoch c.id = some c :=
  hs.callKeys.lookup_eq_some_iff.2 ⟨hc, by simp [key, hep]⟩

theorem load_outcome_row (hs : s.WellFormed) (hl : load codec s lease now = .ok r)
    {o : DurableToolOutcome} (ho : o ∈ r.priorToolOutcomes) :
    s.toolCall? lease.executionEpoch o.toolCallId ≠ none := by
  obtain ⟨-, -, _, outcomes, _, -, hout, -, rfl, -⟩ := load_inv hl
  change o ∈ outcomes at ho
  unfold loadOutcomes at hout
  split at hout
  · rw [toolOutcomes_ok hout] at ho
    obtain ⟨c, hc, rfl⟩ := mem_map.1 ho
    rw [mem_insertionSort] at hc
    simp only [terminalCalls, mem_filter, and_eq_true, decide_eq_true_eq] at hc
    have hrow : s.toolCall? lease.executionEpoch c.id = some c := hs.lookup_row hc.1 hc.2.1.1
    change s.toolCall? lease.executionEpoch c.id ≠ none
    rw [hrow]
    simp
  · cases hout
    cases ho

theorem mem_of_priorOutcomes {outcomes : List DurableToolOutcome} {id : String}
    (h : priorOutcomes outcomes id ≠ none) : ∃ o ∈ outcomes, o.toolCallId = id := by
  unfold priorOutcomes at h
  rw [Ne, Option.map_eq_none_iff, List.find?_eq_none] at h
  simp only [List.mem_reverse, decide_eq_true_eq, not_forall, not_not] at h
  obtain ⟨o, ho, hid⟩ := h
  exact ⟨o, ho, hid⟩

theorem PersistableAt.persistable (h : PersistableAt s lease env codec) (hs : s.WellFormed)
    (hb : ∀ row ∈ s.toolCalls, row.opened → row.Blank) (hl : load codec s lease now = .ok r)
    (context : Option BuiltContext) :
    Persistable env (loopInput lease r context) (s.toolCall? lease.executionEpoch) where
  ordered := h.ordered
  newIds := h.newIds
  rows := by
    intro call hca
    obtain ⟨q, hq, rfl⟩ := mem_map.1 hca
    obtain ⟨c, hc, hqc⟩ := load_pending_resumed hl hq
    obtain ⟨hmem, hep, hop⟩ := mem_resumedRows hc
    have hid : q.toolCallId = c.id := by rw [hqc, (resumedCall_fields s c).1]
    have hlk : s.toolCall? lease.executionEpoch q.toolCallId = some c := by
      rw [hid]
      exact hs.lookup_row hmem hep
    obtain ⟨-, hn, har, hh⟩ := load_pending_row hs hl hq hlk
    refine ⟨c, hlk, hid.symm, ?_, hop, hb c hmem hop⟩
    simp only [identity, DurablePendingToolCall.toGateway, hn, har, hh, h.hash,
      (h.resumed c hc).1]
  nodup := by
    obtain ⟨-, -, messages, outcomes, pending, -, -, -, rfl, hval⟩ := load_inv hl
    have hno := pending_nodup hval
    rw [AgentLoopInput.resumed, map_map]
    exact hno
  unanswered := by
    intro q hq he hap
    obtain ⟨c, hc, rfl⟩ := load_pending_resumed hl hq
    unfold resumedCall at he hap ⊢
    split at he
    next a ha =>
      simp only [ha, toDecided, Option.some.injEq, decide_eq_true_eq] at hap ⊢
      exact (h.resumed c hc).2 he a ha hap
    next hnn => simp only [hnn, toPending] at hap ⊢
  outcomes := by
    intro id hid
    obtain ⟨o, ho, rfl⟩ := mem_of_priorOutcomes hid
    refine ⟨load_outcome_row hs hl ho, ?_⟩
    obtain ⟨-, -, messages, outcomes, pending, -, -, -, rfl, hval⟩ := load_inv hl
    have hd := pending_disjoint hval o ho
    rw [AgentLoopInput.resumed, map_map]
    exact hd

end Load

theorem World.Moves.saved_by_owner {w' : World} (hmv : w.Moves op w') (hl : w.Leased)
    {g : ℕ} (hg : w.store.run.leaseGeneration = g) (hk : w'.store.toolCalls = w.store.toolCalls ∨
      ∃ g' codec now, g' ≠ g ∧ op = .work g' codec now) :
    w'.store.toolCalls = w.store.toolCalls := by
  rcases hk with hs | ⟨g', codec, now, hne, rfl⟩
  · exact hs
  obtain hs | ⟨_, _, _, _, _, _, _, _, _, hop, ha, -, -, hsa⟩ :=
    hmv.savedCalls
  · exact hs
  · cases hop
    have hac := (saveToolCallFenced_inv hsa).1
    have hge := leaseActive_generation hac
    rw [(hl _ _ ha).1, hg] at hge
    exact absurd hge.symm hne

theorem World.Moves.owner_before {w' : World} (hmv : w.Moves op w') (hl : w.Leased) {g : ℕ}
    {a : Attempt} (ha : w.attempts g = some a) (hg : w'.store.run.leaseGeneration = g)
    (hwf : w.store.WellFormed) :
    w.store.run.leaseGeneration = g :=
  le_antisymm (hg ▸ (hmv.grows hwf).generation) (hl g a ha).2

structure World.SavesInv (w : World) : Prop where
  wellFormed : w.store.WellFormed
  leased : w.Leased
  blank : w.RecordsBlank
  tracked : w.SavesTracked

theorem World.SavesTracked.apply (h : w.SavesInv) (hop : LoadsPersistable w op)
    : (w.apply op).SavesTracked := by
  have hmv := w.apply_moves op
  have hl := h.leased.apply h.wellFormed op
  generalize hw' : w.apply op = w' at hmv hl
  intro g a' rest x' ha hph hg
  cases hmv.runs ha hph with
  | kept _ _ before saved =>
    have hown := hmv.owner_before h.leased before hg h.wellFormed
    have hsa := hmv.saved_by_owner h.leased hown saved
    rw [persistedIn_congr hsa]
    exact h.tracked g a' rest x' before hph hown
  | loaded a _ _ context _ r w' before load lease hash _ steps executor store =>
      subst steps executor
      rw [hash, lease]
      have hp : persistedIn w'.store a.lease
          { lastCheckpointId := r.checkpoint.map (·.id) } =
          { observed := fun _ => none, rows := w.store.toolCall? a.lease.executionEpoch
            turnNumber := 0 } := by
        rw [persistedIn, store]
      rw [hp]
      exact run_persists ((hop a before).persistable h.wellFormed h.blank.rows load context)
  | approved a x _ _ _ _ w' before phase _ create lease hash _ executor =>
      subst executor
      rw [hash, lease]
      have hown := hmv.owner_before h.leased before hg h.wellFormed
      have ht : w'.store.toolCalls = w.store.toolCalls := by
        obtain ⟨-, -, -, ⟨-, hsa⟩ | ⟨-, -, hs'⟩⟩ := createApprovalFenced_inv create
        · rw [hsa]
        · rw [hs']
      rw [persistedIn_congr ht]
      exact h.tracked g a rest x before phase hown
  | stepped a x _ _ step _ _ before phase performs next lease hash _ store =>
    rw [hash, lease, store]
    have hown := hmv.owner_before h.leased before hg h.wellFormed
    have htr := h.tracked g a (step :: rest) x before phase hown
    rw [performs.persisted next]
    exact htr.2

theorem World.SavesInv.apply (h : w.SavesInv) (hop : LoadsPersistable w op)
    : (w.apply op).SavesInv where
  wellFormed := h.wellFormed.of_committed (w.apply_committed op)
  leased := h.leased.apply h.wellFormed op
  blank := h.blank.apply op
  tracked := World.SavesTracked.apply h hop

theorem World.SavesTracked.accepts (h : w.SavesTracked) : w.PersistenceAccepts := by
  intro g a ha hg
  unfold Attempt.accepted
  split
  next event rest x hph => exact acceptsEvent_of_accepts (h g a _ x ha hph hg).1
  · rfl

def askEnv (calls : List GatewayToolCall) : LoopEnv :=
  { scriptedEnv 10 (fun name => if name = "ask_user" then some .interaction else none) []
      (fun _ => { items := [] }) with
    gateway := fun r =>
      if announcedIn r.messages = [] then proposing calls
      else { events := [.textDelta "done", .responseCompleted .stop] } }

def emptyRequest : GatewayRequest :=
  { tenantId := 1, sessionId := 3, runId := 2, executionEpoch := 1, turnNumber := 1
    modelCallId := "model-call", requestId := "request", routeName := "default", messages := [] }

theorem askEnv_callIds (calls : List GatewayToolCall) (r : GatewayRequest) :
    ((askEnv calls).gateway r).callIds =
      if announcedIn r.messages = [] then calls.map (·.id) else [] := by
  simp only [askEnv]
  split
  · simp [proposing, GatewayStream.callIds, GatewayEvent.callId?, comp_def]
  · rfl

theorem askEnv_ordered (calls : List GatewayToolCall) : RecordsInOrder (askEnv calls) where
  clock i j hij := Nat.add_le_add_left hij 10
  revisions call result h := by cases h

def LoadsNewQuestions (w : World) : SystemOp → Prop
  | .load g env _ _ _ => ∀ a ∈ w.attempts g, ResumesUnanswered w.store a.lease env ∧
      ∀ id ∈ (env.gateway emptyRequest).callIds, w.store.toolCall? a.lease.executionEpoch id = none
  | _ => True

instance (w : World) : ∀ op : SystemOp, Decidable (LoadsNewQuestions w op)
  | .load g env _ _ _ =>
    inferInstanceAs (Decidable (∀ a ∈ w.attempts g, ResumesUnanswered w.store a.lease env ∧
      ∀ id ∈ (env.gateway emptyRequest).callIds, _))
  | .claim .. | .start .. | .heartbeat .. | .work .. | .interrupt .. | .finish ..
  | .recoverExpired .. | .requestCancel .. | .decide .. | .rewind .. => isTrue trivial

def SystemOp.Asks : SystemOp → Prop
  | .load _ env codec _ _ => codec = scriptedRecovery ∧
      ∃ calls : List GatewayToolCall, (calls.map (·.id)).Nodup ∧ env = askEnv calls
  | _ => True

theorem LoadsNewQuestions.persistable (h : LoadsNewQuestions w op) (has : op.Asks)
    : LoadsPersistable w op := by
  cases op with
  | load =>
    obtain ⟨rfl, calls, hn, rfl⟩ := has
    intro a ha
    obtain ⟨hr, hnew⟩ := h a ha
    refine ⟨rfl, askEnv_ordered calls, ?_, hr⟩
    intro r
    rw [askEnv_callIds] at hnew ⊢
    split
    next hnot =>
      refine ⟨hn, fun id hid => ⟨by simp [hnot], hnew id ?_⟩⟩
      simpa [emptyRequest, announcedIn, AnsweredCalls.announced] using hid
    · exact ⟨nodup_nil, by simp⟩
  | _ => trivial

end AgentPlatform
