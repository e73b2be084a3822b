/-
**The transcript of a recovered attempt is well formed if the stored conversation fits the resumed calls.**
-/

import AgentPlatform.AnsweredCalls
import AgentPlatform.LoopRefinement
import AgentPlatform.SystemSteps

namespace AgentPlatform

open DurablePendingToolCall GatewayEvent GatewayMessage GatewayStream History

open AnsweredCalls (Answered AnsweredIf WellAnswered announced)
open History (Admissible)

/-- **The property**: the messages that answer the calls of an assistant message follow it directly and in
call order, every call is answered exactly once, and no call is announced twice. -/
def WellFormedTranscript (transcript : List GatewayMessage) : Prop :=
  Answered GatewayMessage.announcedCalls GatewayMessage.answeredCall transcript

def Awaits (transcript : List GatewayMessage) (ids : List String) : Prop :=
  WellAnswered GatewayMessage.announcedCalls GatewayMessage.answeredCall transcript ids

instance (transcript : List GatewayMessage) (ids : List String) : Decidable (Awaits transcript ids) :=
  inferInstanceAs (Decidable (WellAnswered _ _ _ _))

def announcedIn (transcript : List GatewayMessage) : List String :=
  announced GatewayMessage.announcedCalls transcript

theorem GatewayMessage.announcedCalls_of_answer {m : GatewayMessage} (h : m.answeredCall ≠ none) :
    m.announcedCalls = [] := by
  unfold answeredCall at h
  split at h
  next hr => simp [GatewayMessage.announcedCalls, hr]
  · exact absurd rfl h

def AwaitsIf (unique : Prop) (transcript : List GatewayMessage) (ids : List String) : Prop :=
  AnsweredIf GatewayMessage.announcedCalls GatewayMessage.answeredCall unique transcript ids

variable {transcript : List GatewayMessage} {calls : List GatewayToolCall} {unique : Prop}

theorem Awaits.wellFormed (h : Awaits transcript []) : WellFormedTranscript transcript :=
  WellAnswered.answered (fun _ => announcedCalls_of_answer) h

namespace AwaitsIf

theorem awaits {ids : List String} (h : AwaitsIf True transcript ids) : Awaits transcript ids :=
  ⟨h.1, h.2 trivial⟩

theorem announce (h : AwaitsIf unique transcript []) (text : String)
    (hnew : unique → (calls.map (·.id)).Nodup ∧ ∀ c ∈ calls, c.id ∉ announcedIn transcript) :
    AwaitsIf unique (transcript ++ [assistantMessage text calls]) (calls.map (·.id)) := by
  refine AnsweredIf.announce h rfl fun hu => ⟨(hnew hu).1, fun id hid => ?_⟩
  obtain ⟨c, hc, rfl⟩ := mem_map.1 hid
  exact (hnew hu).2 c hc

theorem reply {id : String} {ids : List String} (h : AwaitsIf unique transcript (id :: ids))
    (result : Option JsonObject) (error : Option ErrorDetail) :
    AwaitsIf unique (transcript ++ [toolMessage id result error]) ids :=
  AnsweredIf.answer h rfl rfl

theorem replyAll {failed : List (GatewayToolCall × ErrorDetail)}
    (h : AwaitsIf unique transcript ((failed.map Prod.fst).map (·.id))) :
    AwaitsIf unique (transcript ++ failed.map fun f => toolMessage f.1.id none (some f.2)) [] := by
  refine AnsweredIf.answerAll h (by simp) ?_
  intro m hm
  obtain ⟨f, -, rfl⟩ := mem_map.1 hm
  rfl

theorem user (h : AwaitsIf unique transcript []) {m : GatewayMessage} (hr : m.role = .user) :
    AwaitsIf unique (transcript ++ [m]) [] := by
  have hn : m.announcedCalls = [] := by simp [GatewayMessage.announcedCalls, hr]
  have hs := AnsweredIf.announce h (m := m) (by simp [answeredCall, hr])
    fun _ => by simp [hn]
  rwa [hn] at hs

theorem feedback (h : AwaitsIf unique transcript []) (invalid : List InvalidToolCall) :
    AwaitsIf unique (transcript ++ invalidFeedback invalid) [] := by
  unfold invalidFeedback
  split
  · simpa using h
  · exact h.user rfl

theorem not_ends (h : AwaitsIf unique transcript []) (hne : calls ≠ []) :
    ¬ endsWithToolCalls transcript calls = true := by
  intro hend
  unfold endsWithToolCalls at hend
  split at hend
  · cases hend
  rename_i m hl
  simp only [and_eq_true, decide_eq_true_eq] at hend
  obtain ⟨hr, rfl⟩ := hend
  obtain ⟨_, rfl⟩ := List.getLast?_eq_some_iff.1 hl
  obtain ⟨-, -, hn⟩ | ⟨_, -, ha⟩ := AnsweredCalls.due_concat_inv h.1
  · simp [GatewayMessage.announcedCalls, hr] at hn
    exact hne hn
  · simp [answeredCall, hr] at ha

end AwaitsIf

def ProposesNewCalls (env : LoopEnv) : Prop :=
  ∀ r, ((env.gateway r).proposedCalls.map (·.id)).Nodup ∧
    ∀ c ∈ (env.gateway r).proposedCalls, c.id ∉ announcedIn r.messages

def FitsResumedCalls (transcript : List GatewayMessage) (calls : List GatewayToolCall) : Prop :=
  Awaits transcript [] ∧ (∀ c ∈ calls, c.id ∉ announcedIn transcript) ∨
    Awaits transcript (calls.map (·.id)) ∧ endsWithToolCalls transcript calls = true

instance (transcript : List GatewayMessage) (calls : List GatewayToolCall) :
    Decidable (FitsResumedCalls transcript calls) :=
  inferInstanceAs (Decidable (_ ∧ _ ∨ _ ∧ _))

variable {env : LoopEnv} {input : AgentLoopInput}

def PhaseAwaits (unique : Prop) (env : LoopEnv) (input : AgentLoopInput)
    (transcript : List GatewayMessage) : LoopPhase → Prop
  | .opening =>
    let calls := input.pendingToolCalls.map DurablePendingToolCall.toGateway
    AwaitsIf unique transcript [] ∧ (unique → ∀ c ∈ calls, c.id ∉ announcedIn transcript) ∨
      AwaitsIf unique transcript (calls.map (·.id)) ∧ endsWithToolCalls transcript calls = true
  | .idle | .settled => AwaitsIf unique transcript []
  | .resuming _ => AwaitsIf unique transcript
      ((input.pendingToolCalls.map DurablePendingToolCall.toGateway).map (·.id))
  | .streaming r arrived => r.messages = transcript ∧ AwaitsIf unique transcript [] ∧
      arrived.Sublist (env.gateway r).proposedCalls
  | .responded result => AwaitsIf unique transcript [] ∧
      (unique → (result.toolCalls.map (·.id)).Nodup ∧
        ∀ c ∈ result.toolCalls, c.id ∉ announcedIn transcript)
  | .proposed calls _ => AwaitsIf unique transcript (calls.map (·.id))
  | .executing _ rest => AwaitsIf unique transcript (rest.map (·.call.id))
  | .closing => True

theorem ProposesNewCalls.responded (h : ProposesNewCalls env) {r : GatewayRequest}
    (hr : r.messages = transcript) (hca : calls.Sublist (env.gateway r).proposedCalls) :
    (calls.map (·.id)).Nodup ∧ ∀ c ∈ calls, c.id ∉ announcedIn transcript := by
  subst hr
  obtain ⟨hn, hnew⟩ := h r
  exact ⟨hn.sublist (hca.map _), fun c hc => hnew c (hca.subset hc)⟩

theorem Move.awaits {c c' : Config} {steps : List LoopStep} (hm : Move env input c steps c')
    (hnew : unique → ProposesNewCalls env)
    (hp : unique → (input.pendingToolCalls.map (·.toolCallId)).Nodup)
    (h : PhaseAwaits unique env input c.state.transcript c.phase) :
    (∀ r, .request r ∈ steps → AwaitsIf unique r.messages []) ∧
      PhaseAwaits unique env input c'.state.transcript c'.phase := by
  cases hm with
  | yield | journal => exact ⟨by simp, h⟩
  | skip phase none =>
    rw [phase] at h
    refine ⟨by simp, ?_⟩
    rcases h with ⟨ha, -⟩ | ⟨haw, -⟩
    · exact ha
    · simpa [PhaseAwaits, none] using haw
  | resume _ phase some pending =>
    rw [phase] at h
    subst pending
    refine ⟨by simp, ?_⟩
    rcases h with ⟨ha, hu⟩ | ⟨haw, hend⟩
    · dsimp only
      rw [if_neg (ha.not_ends (by simpa using some))]
      refine ha.announce "" fun hun => ⟨?_, hu hun⟩
      rw [map_map]
      exact hp hun
    · dsimp only
      rw [if_pos hend]
      exact haw
  | reannounce _ _ _ phase | executed _ phase =>
    rw [phase] at h
    exact ⟨by simp, h⟩
  | resumed _ phase pending =>
    rw [phase] at h
    subst pending
    exact ⟨by simp, h⟩
  | request r phase messages =>
    rw [phase] at h
    refine ⟨fun r' hr' => ?_, messages, h, List.nil_sublist _⟩
    obtain rfl : r' = r := by simpa using hr'
    rw [messages]
    exact h
  | receive _ _ _ phase proposed =>
    rw [phase] at h
    exact ⟨by simp, h.1, h.2.1, proposed⟩
  | respond _ _ phase =>
    rw [phase] at h
    exact ⟨by simp, h.2.1, fun hun => (hnew hun).responded h.1 h.2.2⟩
  | answer result phase =>
    rw [phase] at h
    refine ⟨by simp, ?_⟩
    dsimp only
    split
    · exact h.1.announce _ h.2
    next hnot =>
      have hn : result.toolCalls = [] := by
        by_contra hne
        exact hnot (.inr hne)
      simpa [PhaseAwaits, hn] using h.1
  | askAgain _ _ phase =>
    rw [phase] at h
    exact ⟨by simp, h.1.user rfl⟩
  | reject _ _ _ _ phase =>
    rw [phase] at h
    refine ⟨by simp, ?_⟩
    dsimp only
    split
    · exact AwaitsIf.feedback (AwaitsIf.replyAll h) _
    · trivial
  | suspend => exact ⟨by simp, trivial⟩
  | validate calls phase =>
    rw [phase] at h
    refine ⟨by simp, ?_⟩
    have hc : (prepareCalls env c.state.outcomes [] calls).map (·.call.id) =
        calls.map (·.id) :=
      calc _ = ((prepareCalls env c.state.outcomes [] calls).map (·.call)).map (·.id) := by
            rw [map_map]; rfl
        _ = calls.map (·.id) := by rw [prepareCalls_calls]
    change AwaitsIf unique c.state.transcript
      ((prepareCalls env c.state.outcomes [] calls).map (·.call.id))
    rw [hc]
    exact h
  | replay _ _ _ _ phase | settle _ _ _ _ phase | execute _ _ _ _ _ _ phase
  | executeCheckpointed _ _ _ _ _ _ _ _ phase | executeRolledBack _ _ _ _ _ _ _ phase =>
    rw [phase] at h
    exact ⟨by simp, AwaitsIf.reply h _ _⟩
  | breakAfter _ _ _ _ _ _ _ completion =>
    exact ⟨by cases completion <;> simp, trivial⟩
  | flush _ phase =>
    refine ⟨by simp, ?_⟩
    rcases phase with ⟨hph, rfl⟩ | ⟨-, rfl⟩
    · rw [hph] at h
      exact h
    · trivial
  | _ => exact ⟨by simp, trivial⟩

theorem run_awaits (hnew : unique → ProposesNewCalls env)
    (hp : unique → (input.pendingToolCalls.map (·.toolCallId)).Nodup)
    (hfit : PhaseAwaits unique env input (input.messages.map (redactMessage env.redactor))
      .opening) : ∀ r, .request r ∈ run env input → AwaitsIf unique r.messages [] := by
  have hrun : Admissible remember
      (fun _ step => ∀ r, step = .request r → AwaitsIf unique r.messages []) [] (run env input) := by
    refine run_monitored (fun c _ => PhaseAwaits unique env input c.state.transcript c.phase) ?_ hfit
    intro c steps c' past hm h
    obtain ⟨hreq, hph⟩ := hm.awaits hnew hp h
    exact ⟨admissible_const.2 fun step hs r hr => hreq r (hr ▸ hs), hph⟩
  exact fun r hr => admissible_const.1 hrun _ hr r rfl

def RequestsAnswered : LoopStep → Prop
  | .request r => WellFormedTranscript r.messages
  | _ => True

theorem run_requests (hnew : ProposesNewCalls env)
    (hp : (input.pendingToolCalls.map (·.toolCallId)).Nodup)
    (hfit : FitsResumedCalls (input.messages.map (redactMessage env.redactor))
      (input.pendingToolCalls.map toGateway)) :
    ∀ step ∈ run env input, RequestsAnswered step := by
  have ha := run_awaits (fun _ : True => hnew) (fun _ => hp)
    (hfit.imp (And.imp (And.imp id fun h _ => h) fun h _ => h) (And.imp (And.imp id fun h _ => h) id))
  intro step hs
  cases step with
  | request r => exact (ha r hs).awaits.wellFormed
  | _ => trivial

/-- **The condition**: a load finds a stored conversation that fits the calls it resumes; with a context
builder, the conversation is the one it selected. -/
def LoadsFitting (w : World) : SystemOp → Prop
  | .load g env codec context _ => ∀ a ∈ w.attempts g,
      ∀ stored ∈ (loadMessages codec w.store a.lease (selectCheckpoint w.store a.lease)).toOption,
        FitsResumedCalls
          ((context.elim stored (·.messages)).map (redactMessage env.redactor))
          (w.store.resumedCalls a.lease)
  | _ => True

instance (w : World) : ∀ op : SystemOp, Decidable (LoadsFitting w op)
  | .load g _ codec _ _ => inferInstanceAs (Decidable (∀ a ∈ w.attempts g,
      ∀ stored ∈ (loadMessages codec w.store a.lease (selectCheckpoint w.store a.lease)).toOption,
        FitsResumedCalls _ _))
  | .claim .. | .start .. | .heartbeat .. | .work .. | .interrupt .. | .finish ..
  | .recoverExpired .. | .requestCancel .. | .decide .. | .rewind .. => isTrue trivial

def SystemOp.env? : SystemOp → Option LoopEnv
  | .load _ env _ _ _ => some env
  | _ => none

def World.RequestsWellFormed (w : World) : Prop :=
  ∀ g epoch r, .performed g epoch (.request r) ∈ w.log → WellFormedTranscript r.messages

def World.RequestsTracked (w : World) : Prop :=
  ∀ g a rest x, w.attempts g = some a → a.phase = .running rest x →
    ∀ step ∈ rest, RequestsAnswered step

theorem run_loaded {s : RunStore} {lease : RunLease} {codec : RecoveryCodec} {now : Timestamp}
    {r : RunRecoveryState} {context : Option BuiltContext} (hnew : ProposesNewCalls env)
    (hl : load codec s lease now = .ok r)
    (hfit : ∀ stored ∈ (loadMessages codec s lease (selectCheckpoint s lease)).toOption,
      FitsResumedCalls ((context.elim stored (·.messages)).map (redactMessage env.redactor))
        (s.resumedCalls lease)) :
    ∀ step ∈ run env (loopInput lease r context), RequestsAnswered step := by
  obtain ⟨-, -, messages, _, pending, hms, -, hp, rfl, hval⟩ := load_inv hl
  have hids : (pending.map (·.toolCallId)).Nodup := RunRecoveryState.pending_nodup hval
  refine run_requests hnew hids ?_
  change FitsResumedCalls ((context.elim messages (·.messages)).map (redactMessage env.redactor))
    (pending.map toGateway)
  rw [loadPending_toGateway hp]
  exact hfit messages (by rw [hms]; rfl)

theorem World.RequestsTracked.apply {w : World} {op : SystemOp} (h : w.RequestsTracked)
    (hnew : ∀ env ∈ op.env?, ProposesNewCalls env) (hop : LoadsFitting w op) :
    (w.apply op).RequestsTracked := by
  intro g a rest x ha hph
  cases (w.apply_moves op).runs ha hph with
  | kept _ _ before => exact h g a rest x before hph
  | loaded a₀ env _ _ _ _ _ before load _ _ _ steps =>
      rw [steps]
      exact run_loaded (hnew env rfl) load (hop a₀ before)
  | approved a₀ x₀ _ _ _ _ _ before phase => exact h g a₀ rest x₀ before phase
  | stepped a₀ x₀ _ _ _ _ _ before phase =>
    exact fun step' hs' => h g a₀ _ x₀ before phase step' (mem_cons_of_mem _ hs')

theorem World.RequestsWellFormed.apply {w : World} {op : SystemOp} (ht : w.RequestsTracked)
    (h : w.RequestsWellFormed) : (w.apply op).RequestsWellFormed := by
  intro g epoch r hmem
  obtain ⟨_, hlog, hn⟩ | ⟨_, a, x, _, _, _, _, _, -, ha, hph, -, -, -, hlog⟩ :=
    (w.apply_moves op).performed
  · rw [hlog] at hmem
    rcases mem_append.1 hmem with hold | hnew
    · exact h g epoch r hold
    · exact absurd hnew (hn g epoch _)
  · rw [hlog] at hmem
    rcases mem_append.1 hmem with hold | hnew
    · exact h g epoch r hold
    · cases mem_singleton.1 hnew
      exact ht g a _ x ha hph (.request r) (mem_cons_self ..)

def listing (id : String) : GatewayToolCall := { id := id, name := "list_files", arguments := .nil }

def pairEnv (calls : List GatewayToolCall) : LoopEnv :=
  { scriptedEnv 10 (fun name => if name = "list_files" then some .readOnly else none) []
      (fun _ => { items := [.completed .nil] }) with
    gateway := fun r =>
      if announcedIn r.messages = [] then proposing calls
      else { events := [.textDelta "done", .responseCompleted .stop] } }

def LogEntry.request? : LogEntry → Option GatewayRequest
  | .performed _ _ (.request r) => some r
  | _ => none

end AgentPlatform
