/-
**Every save of a persistable attempt is accepted.**
-/

import AgentPlatform.EventPersistence
import AgentPlatform.LoopRefinement

namespace AgentPlatform

open AnsweredCalls EventBody EventFactory GatewayStream Outcomes Persisted ToolOutcome TurnState

open History (Admissible)
open Persisted (Touches TouchesAll)

/-! ### What an attempt needs -/

def AgentLoopInput.resumed (input : AgentLoopInput) : List GatewayToolCall :=
  input.pendingToolCalls.map DurablePendingToolCall.toGateway

structure ResumableRow (env : LoopEnv) (call : GatewayToolCall) (row : ToolCall) : Prop where
  callId : row.id = call.id
  identity : row.identity = (env.argumentHash call.arguments, call.name, 1, call.arguments)
  opened : row.opened
  blank : row.Blank

def ProposesNewRows (env : LoopEnv) (rows : String → Option ToolCall) : Prop :=
  ∀ r, (env.gateway r).callIds.Nodup ∧
    ∀ id ∈ (env.gateway r).callIds, id ∉ announcedIn r.messages ∧ rows id = none

structure RecordsInOrder (env : LoopEnv) : Prop where
  clock : ∀ i j, i ≤ j → env.clock i ≤ env.clock j
  revisions : ∀ call result, (runTool env call false).outcome = .ok result →
    ValidRevision (some result)

structure Persistable (env : LoopEnv) (input : AgentLoopInput) (rows₀ : String → Option ToolCall) :
    Prop where
  ordered : RecordsInOrder env
  newIds : ProposesNewRows env rows₀
  rows : ∀ call ∈ input.resumed, ∃ row, rows₀ call.id = some row ∧ ResumableRow env call row
  nodup : (input.resumed.map (·.id)).Nodup
  unanswered : ∀ q ∈ input.pendingToolCalls, env.tools.effect? q.toolName = some .interaction →
    q.approvalApproved = some true → q.approvalResponse = none
  outcomes : ∀ id, priorOutcomes input.priorToolOutcomes id ≠ none →
    rows₀ id ≠ none ∧ id ∉ input.resumed.map (·.id)

/-! ### Where the loop stands -/

section Phases

variable (env : LoopEnv) (input : AgentLoopInput) (rows₀ : String → Option ToolCall)

def Known (transcript : List GatewayMessage) (arrived : List String) (id : String) : Prop :=
  rows₀ id ≠ none ∨ id ∈ announcedIn transcript ∨ id ∈ arrived

structure ToolOutcome.Failed (o : ToolOutcome) : Prop where
  status : o.status = .failed
  result : o.result = none
  error : o.error ≠ none

theorem ToolOutcome.Failed.terminal {o : ToolOutcome} (h : o.Failed) : o.Terminal :=
  .inr ⟨.inl h.status, h.result, h.error⟩

structure Tracks (arrived : List String) (p : Persisted) (st : TurnState) : Prop where
  records : ∀ id, p.observed id ≠ none ∨ p.rows id ≠ none → Known rows₀ st.transcript arrived id
  outcomes : ∀ id o, st.outcomes id = some o → Known rows₀ st.transcript [] id ∨ o.Failed

structure TurnReady (p : Persisted) (outcomes : Outcomes) (calls left : List GatewayToolCall) :
    Prop where
  ready : ∀ c ∈ left, p.IsReady env.argumentHash c.id
  nodup : (left.map (·.id)).Nodup
  unsettled : ∀ c ∈ left, ∀ o, outcomes c.id = some o → o.Failed
  source : calls = input.resumed ∨ ∀ c ∈ calls, rows₀ c.id = none

def PhasePersists (p : Persisted) (st : TurnState) : LoopPhase → Prop
  | .opening => Tracks rows₀ [] p st ∧ st.emitted = [] ∧ p.turnNumber = 0 ∧ p.rows = rows₀ ∧
      ∀ c ∈ input.resumed, st.outcomes c.id = none
  | .idle => Tracks rows₀ [] p st ∧ st.emitted = []
  | .resuming done => Tracks rows₀ [] p st ∧ st.emitted = [] ∧ p.turnNumber = 0 ∧
      (∀ c ∈ done, p.IsReady env.argumentHash c.id) ∧
      (∀ id, id ∉ done.map (·.id) → p.rows id = rows₀ id) ∧
      ∀ c ∈ input.resumed, st.outcomes c.id = none
  | .streaming r arrived => Tracks rows₀ (arrived.map (·.id)) p st ∧ st.emitted = [] ∧
      r.messages = st.transcript ∧ arrived.Sublist (env.gateway r).proposedCalls ∧
      ∀ c ∈ arrived, p.IsReady env.argumentHash c.id
  | .responded result => Tracks rows₀ (result.toolCalls.map (·.id)) p st ∧ st.emitted = [] ∧
      TurnReady env input rows₀ p st.outcomes result.toolCalls result.toolCalls ∧
      ∀ i ∈ result.invalidToolCalls, p.observed i.toolCallId = none
  | .proposed calls invalid => Tracks rows₀ [] p st ∧ st.emitted = [] ∧
      TurnReady env input rows₀ p st.outcomes calls calls ∧
      ∀ i ∈ invalid, p.observed i.toolCallId = none
  | .executing calls rest => Tracks rows₀ [] p st ∧
      TurnReady env input rows₀ p st.outcomes calls (rest.map (·.call))
  | .settled => Tracks rows₀ [] p st
  | .closing => True

def ConfigPersists (lease : RunLease) (c : Config) (p : Persisted) : Prop :=
  ∃ p', p.saveAll env.argumentHash lease c.state.emitted = .ok p' ∧
    PhasePersists env input rows₀ p' c.state c.phase

end Phases

section Move

variable {env : LoopEnv} {input : AgentLoopInput} {rows₀ : String → Option ToolCall}
  {lease : RunLease} {p p' : Persisted}

theorem announcedIn_append (t ms : List GatewayMessage) :
    announcedIn (t ++ ms) = announcedIn t ++ announcedIn ms := by
  simp [announcedIn, announced]

variable {ms : List GatewayMessage} {id : String} {st st' : TurnState} {event : AgentEvent}
    {steps : List LoopStep} {c' : Config}

theorem Known.append {t : List GatewayMessage} {arrived : List String}
    (h : Known rows₀ t arrived id) : Known rows₀ (t ++ ms) arrived id := by
  rcases h with h | h | h
  · exact .inl h
  · refine .inr (.inl ?_)
    rw [announcedIn_append]
    exact mem_append_left _ h
  · exact .inr (.inr h)

theorem Tracks.grow {p p' : Persisted} {arrived arrived' ids : List String}
    (h : Tracks rows₀ arrived p st) (ht : st'.transcript = st.transcript ++ ms)
    (hids : ∀ id ∈ ids, Known rows₀ st'.transcript arrived' id)
    (hr : ∀ id ∈ arrived, Known rows₀ st'.transcript arrived' id)
    (hto : TouchesAll ids p p') (hout : ∀ id o, st'.outcomes id = some o →
      st.outcomes id = some o ∨ Known rows₀ st'.transcript [] id ∨ o.Failed) :
    Tracks rows₀ arrived' p' st' where
  records := by
    intro id hid
    by_cases hmem : id ∈ ids
    · exact hids id hmem
    rw [hto.observed id hmem, hto.rows id hmem] at hid
    rcases h.records id hid with h₀ | ha | har
    · exact .inl h₀
    · refine .inr (.inl ?_)
      rw [ht, announcedIn_append]
      exact mem_append_left _ ha
    · exact hr id har
  outcomes := by
    intro id o ho
    rcases hout id o ho with hold | hnew
    · rcases h.outcomes id o hold with hk | hf
      · rw [ht]
        exact .inl hk.append
      · exact .inr hf
    · exact hnew

theorem transcript_same {t t' : List GatewayMessage} (h : t' = t) : t' = t ++ [] := by
  rw [h, append_nil]

theorem TouchesAll.refl (p : Persisted) : TouchesAll [] p p := ⟨fun _ _ => rfl, fun _ _ => rfl⟩

theorem Persisted.Touches.one (h : Touches id p p') : TouchesAll [id] p p' :=
  h.all (TouchesAll.refl p')

theorem Tracks.say (h : Tracks rows₀ [] p st) (ht : st'.transcript = st.transcript ++ ms)
    (ho : st'.outcomes = st.outcomes) :
    Tracks rows₀ [] p st' :=
  h.grow ht (by simp) (by simp) (TouchesAll.refl p) fun id o hid => .inl (by rw [← ho]; exact hid)

theorem Tracks.congr {arrived : List String} (h : Tracks rows₀ arrived p st)
    (ht : st'.transcript = st.transcript) (ho : st'.outcomes = st.outcomes) :
    Tracks rows₀ arrived p st' :=
  ⟨by rw [ht]; exact h.records, by rw [ht, ho]; exact h.outcomes⟩

theorem Tracks.known_of_ready (h : Tracks rows₀ [] p st) (hr : p.IsReady env.argumentHash id)
    : Known rows₀ st.transcript [] id := by
  obtain ⟨_, _, hr⟩ := hr
  exact h.records id (.inl (by rw [hr.observed]; simp))

variable {calls : List GatewayToolCall} {p₁ : Persisted}

theorem PhasePersists.next {item : PreparedCall} {rest : List PreparedCall}
    (h : PhasePersists env input rows₀ p st (.executing calls (item :: rest)))
    (hto : Touches item.call.id p p') (ht : st'.transcript = st.transcript ++ ms)
    (ho : ∀ id, id ≠ item.call.id → st'.outcomes id = st.outcomes id) :
    PhasePersists env input rows₀ p' st' (.executing calls rest) := by
  obtain ⟨htr, htu⟩ := h
  have hi : item.call ∈ (item :: rest).map (·.call) := mem_cons_self ..
  have hk : Known rows₀ st'.transcript [] item.call.id := by
    rw [ht]
    exact (htr.known_of_ready (htu.ready _ hi)).append
  have hn : item.call.id ∉ (rest.map (·.call)).map (·.id) ∧
      ((rest.map (·.call)).map (·.id)).Nodup := List.nodup_cons.1 htu.nodup
  have hot : ∀ c ∈ rest.map (·.call), c.id ≠ item.call.id := by
    intro c hc heq
    exact hn.1 (heq ▸ mem_map_of_mem hc)
  refine ⟨htr.grow ht (by simpa using hk) (by simp) hto.one ?_, ?_⟩
  · intro id o hid
    by_cases heq : id = item.call.id
    · rw [heq]
      exact .inr (.inl hk)
    · exact .inl (by rw [← ho id heq]; exact hid)
  · refine ⟨fun c hc => ?_, hn.2, fun c hc o hco => ?_, htu.source⟩
    · exact hto.isReady (hot c hc) (htu.ready c (mem_cons_of_mem _ hc))
    · rw [ho c.id (hot c hc)] at hco
      exact htu.unsettled c (mem_cons_of_mem _ hc) o hco

theorem GatewayStream.proposedCalls_ids (stream : GatewayStream) :
    (stream.proposedCalls.map (·.id)).Sublist stream.callIds := by
  unfold proposedCalls callIds
  induction stream.events with
  | nil => exact List.Sublist.refl _
  | cons event _ ih =>
    cases event with
    | toolCall =>
      simp only [filterMap_cons, GatewayEvent.call?, GatewayEvent.callId?, map_cons]
      exact ih.cons_cons _
    | invalidToolCall =>
      simp only [filterMap_cons, GatewayEvent.call?, GatewayEvent.callId?]
      exact ih.cons _
    | textDelta delta | responseCompleted reason | invalid =>
      simpa only [filterMap_cons, GatewayEvent.call?, GatewayEvent.callId?] using ih

theorem ProposesNewRows.unknown (hnew : ProposesNewRows env rows₀) {r : GatewayRequest}
    (hid : id ∈ (env.gateway r).callIds) : ¬ Known rows₀ r.messages [] id := by
  obtain ⟨hms, hrow⟩ := (hnew r).2 id hid
  rintro (h | h | h)
  · exact h hrow
  · exact hms h
  · cases h

theorem PhasePersists.receive {r : GatewayRequest} {arrived : List GatewayToolCall}
    {call : GatewayToolCall} (ha : Persistable env input rows₀)
    (h : PhasePersists env input rows₀ p st (.streaming r arrived))
    (hp : (arrived ++ [call]).Sublist (env.gateway r).proposedCalls) (hb : event.body =
      .toolCallReceived r.modelCallId call (env.argumentHash call.arguments))
    (ht : st'.transcript = st.transcript) (ho : st'.outcomes = st.outcomes)
    (he : st'.emitted = st.emitted) : ∃ p', p.save env.argumentHash lease event = .ok p' ∧
      PhasePersists env input rows₀ p' st' (.streaming r (arrived ++ [call])) := by
  obtain ⟨htr, hem, hms, -, hr⟩ := h
  have hids := (hp.map (·.id)).trans (env.gateway r).proposedCalls_ids
  have hca : call.id ∈ (env.gateway r).callIds := hids.subset (by simp)
  have hn : ((arrived ++ [call]).map (·.id)).Nodup := (ha.newIds r).1.sublist hids
  have hnot : call.id ∉ arrived.map (·.id) := by
    rw [map_append, nodup_append] at hn
    exact fun hmem => hn.2.2 _ hmem _ (by simp) rfl
  -- a row of the call would make it known
  have hnew : p.rows call.id = none := by
    by_contra hne
    have hu := ha.newIds.unknown hca
    rw [hms] at hu
    rcases htr.records call.id (.inr hne) with h₀ | h₀ | h₀
    · exact hu (.inl h₀)
    · exact hu (.inr (.inl h₀))
    · exact hnot h₀
  obtain ⟨p', hs, hto, hcR⟩ :=
    @Persisted.save_received_new _ lease _ _ _ _ hb hnew
  refine ⟨p', hs, ?_, he.trans hem, hms.trans ht.symm, hp, ?_⟩
  · refine htr.grow (transcript_same ht) ?_ ?_ hto.one fun id o hid =>
      .inl (by rw [← ho]; exact hid)
    · intro id hid
      exact .inr (.inr (by simp [mem_singleton.1 hid]))
    · intro id hid
      exact .inr (.inr (by simp only [map_append, mem_append]; exact .inl hid))
  · intro c hc
    rcases mem_append.1 hc with hc | hc
    · refine hto.isReady (fun heq => hnot ?_) (hr c hc)
      exact heq ▸ mem_map_of_mem hc
    · rw [mem_singleton.1 hc]
      exact hcR

theorem PhasePersists.respond {r : GatewayRequest} {result : ModelTurnResult}
    (ha : Persistable env input rows₀)
    (h : PhasePersists env input rows₀ p st (.streaming r result.toolCalls))
    (hp : List.Subperm result.callIds (env.gateway r).callIds) :
    PhasePersists env input rows₀ p st (.responded result) := by
  obtain ⟨ht, he, hms, -, hr⟩ := h
  have hn : result.callIds.Nodup := by
    obtain ⟨_, hpe, hsub⟩ := hp
    exact hpe.nodup_iff.1 ((ha.newIds r).1.sublist hsub)
  have hu : ∀ id ∈ result.callIds, ¬ Known rows₀ st.transcript [] id := by
    intro id hid
    rw [← hms]
    exact ha.newIds.unknown (hp.subset hid)
  have hca : ∀ c ∈ result.toolCalls, c.id ∈ result.callIds := fun c hc =>
    mem_append_left _ (mem_map_of_mem hc)
  obtain ⟨hval, -, hd⟩ := nodup_append.1 hn
  refine ⟨ht, he, ⟨hr, hval, ?_, .inr ?_⟩, ?_⟩
  · intro c hc o ho
    exact (ht.outcomes c.id o ho).resolve_left (hu _ (hca c hc))
  · intro c hc
    by_contra hne
    exact hu _ (hca c hc) (.inl hne)
  · intro i hi
    have hmem : i.toolCallId ∈ result.invalidToolCalls.map (·.toolCallId) := mem_map_of_mem hi
    have hinv := hu i.toolCallId (mem_append_right _ hmem)
    by_contra hne
    rcases ht.records _ (.inl hne) with h₀ | h₀ | h₀
    · exact hinv (.inl h₀)
    · exact hinv (.inr (.inl h₀))
    · exact hd _ h₀ _ hmem rfl

theorem PhasePersists.answer {result : ModelTurnResult}
    (h : PhasePersists env input rows₀ p st (.responded result)) (ht : st'.transcript =
      if result.text ≠ "" ∨ result.toolCalls ≠ [] then
        st.transcript ++ [assistantMessage result.text result.toolCalls]
      else st.transcript) (ho : st'.outcomes = st.outcomes) (he : st'.emitted = st.emitted) :
    PhasePersists env input rows₀ p st' (.proposed result.toolCalls result.invalidToolCalls) := by
  obtain ⟨htr, hem, htu, hinv⟩ := h
  refine ⟨?_, he.trans hem, by rw [ho]; exact htu, hinv⟩
  by_cases ha : result.text ≠ "" ∨ result.toolCalls ≠ []
  · rw [if_pos ha] at ht
    refine htr.grow ht (by simp) ?_ (TouchesAll.refl p) fun id o hid =>
      .inl (by rw [← ho]; exact hid)
    intro id hid
    refine .inr (.inl ?_)
    rw [ht, announcedIn_append]
    exact mem_append_right _ (by simpa [announcedIn, announced] using hid)
  · rw [if_neg ha] at ht
    have hn : result.toolCalls = [] := by
      by_contra hne
      exact ha (.inr hne)
    rw [hn] at htr
    exact htr.congr ht ho

theorem PhasePersists.reannounce {done rest : List GatewayToolCall} {call : GatewayToolCall}
    (ha : Persistable env input rows₀) (h : PhasePersists env input rows₀ p st (.resuming done))
    (hp : input.resumed = done ++ call :: rest) (hb : event.body =
      .toolCallReceived "approval-resume" call (env.argumentHash call.arguments))
    (ht : st'.transcript = st.transcript) (ho : st'.outcomes = st.outcomes)
    (he : st'.emitted = st.emitted) : ∃ p', p.save env.argumentHash lease event = .ok p' ∧
      PhasePersists env input rows₀ p' st' (.resuming (done ++ [call])) := by
  obtain ⟨htr, hem, htu, hr, hrw, _⟩ := h
  have hn := ha.nodup
  rw [hp, map_append, map_cons, nodup_append] at hn
  have hnot : call.id ∉ done.map (·.id) := fun hmem =>
    hn.2.2 _ hmem _ (mem_cons_self ..) rfl
  obtain ⟨row, hrow, hre⟩ := ha.rows call (by rw [hp]; simp)
  have hs : p.rows call.id = some row := (hrw _ hnot).trans hrow
  obtain ⟨p', hsa, hto, hca⟩ := @Persisted.save_received_again _ lease _ _ _ _ _ hb
    hs hre.callId (by rw [htu]; exact hre.identity) hre.opened
    hre.blank
  refine ⟨p', hsa, ?_, he.trans hem, hto.turnNumber.trans htu, ?_, ?_, by rwa [ho]⟩
  · refine htr.grow (transcript_same ht) ?_ (by simp) hto.one fun id o hid =>
      .inl (by rw [← ho]; exact hid)
    intro id hid
    rw [mem_singleton.1 hid]
    exact .inl (by rw [hrow]; simp)
  · intro c hc
    rcases mem_append.1 hc with hc | hc
    · refine hto.isReady (fun heq => hnot ?_) (hr c hc)
      exact heq ▸ mem_map_of_mem hc
    · rw [mem_singleton.1 hc]
      exact hca
  · intro id hid
    simp only [map_append, map_cons, map_nil, mem_append, mem_singleton, not_or] at hid
    rw [hto.rows id hid.2]
    exact hrw id hid.1

theorem Persistable.not_answered (ha : Persistable env input rows₀) {call : GatewayToolCall}
    (hs : calls = input.resumed ∨ ∀ c ∈ calls, rows₀ c.id = none) (hc : call ∈ calls)
    (he : env.tools.effect? call.name = some .interaction) {q : DurablePendingToolCall}
    (hq : q ∈ input.pendingToolCalls) (hid : q.toolCallId = call.id)
    (hap : q.approvalApproved = some true) : q.approvalResponse = none := by
  have hr : q.toGateway ∈ input.resumed := mem_map_of_mem hq
  rcases hs with rfl | hnew
  · have hsa : call = q.toGateway := inj_on_of_nodup_map ha.nodup hc hr hid.symm
    rw [hsa] at he
    exact ha.unanswered q hq he hap
  · obtain ⟨_, hrow, -⟩ := ha.rows _ hr
    rw [show q.toGateway.id = call.id from hid, hnew call hc] at hrow
    cases hrow

theorem PhasePersists.reject {failed : List (GatewayToolCall × ErrorDetail)}
    {rejected : List (InvalidToolCall × ErrorDetail)} {ending : Option ErrorDetail}
    {outcomes : Outcomes} (h : PhasePersists env input rows₀ p st
      (.proposed (failed.map Prod.fst) (rejected.map Prod.fst)))
    (hk : ∀ id, outcomes id = st.outcomes id ∨
      st.outcomes id = none ∧ ∃ o, outcomes id = some o ∧ o.status = .failed ∧ o.result = none ∧
        o.error ≠ none) : ∃ p', p.saveAll env.argumentHash lease (st.factory.makeAll env
        (failed.map (fun f => .toolCompleted f.1.id .failed none (some f.2)) ++
          rejected.map (fun f => .toolCompleted f.1.toolCallId .failed none (some f.2)) ++
          ending.toList.map .runFailed)).1 = .ok p' ∧
      ∀ (st' : TurnState) (ms : List GatewayMessage), st'.transcript = st.transcript ++ ms →
        st'.outcomes = outcomes → Tracks rows₀ [] p' st' := by
  obtain ⟨htr, -, htu, hinv⟩ := h
  have hre : ∀ f ∈ failed, p.IsReady env.argumentHash f.1.id := fun f hf =>
    htu.ready f.1 (mem_map_of_mem hf)
  have hn : (failed.map (·.1.id)).Nodup := by
    have := htu.nodup
    rwa [map_map] at this
  obtain ⟨p', hfa, hto⟩ := @Persisted.saveAll_distinct env.argumentHash lease env _
    (fun f : GatewayToolCall × ErrorDetail => f.1.id)
    (fun f => .toolCompleted f.1.id .failed none (some f.2))
    (fun q f event hr hbo => hr.save_failed hbo) failed p st.factory hn hre
  have hu : ∀ i ∈ rejected, p'.observed i.1.toolCallId = none := by
    intro i hi
    have hno := hinv i.1 (mem_map_of_mem hi)
    rw [hto.observed _ ?_]
    · exact hno
    · intro hmem
      obtain ⟨f, hf, heq⟩ := mem_map.1 hmem
      obtain ⟨_, _, hr⟩ := hre f hf
      rw [← heq, hr.observed] at hno
      cases hno
  refine ⟨p', ?_, ?_⟩
  · rw [makeAll_append, makeAll_append, append_assoc,
      saveAll_append hfa, saveAll_append
        (saveAll_unobserved hu)]
    refine saveAll_unsaved fun b hb => ?_
    obtain ⟨_, -, rfl⟩ := mem_map.1 hb
    rfl
  · intro st' ms ht ho
    refine htr.grow ht ?_ (by simp) hto ?_
    · intro id hid
      obtain ⟨f, hf, rfl⟩ := mem_map.1 hid
      rw [ht]
      exact (htr.known_of_ready (hre f hf)).append
    · intro id o hid
      rw [ho] at hid
      rcases hk id with hsa | ⟨-, o', ho', hs, hr, he⟩
      · exact .inl (hsa.symm.trans hid)
      · rw [hid] at ho'
        cases ho'
        exact .inr (.inr ⟨hs, hr, he⟩)

theorem PhasePersists.suspend {awaiting : List PreparedCall}
    (h : PhasePersists env input rows₀ p st (.proposed calls []))
    (hsub : awaiting.Sublist (prepareCalls env st.outcomes [] calls)) :
    ∃ p', p.saveAll env.argumentHash lease
      (st.factory.makeAll env (approvalEvents env awaiting)).1 = .ok p' := by
  obtain ⟨-, -, ht, -⟩ := h
  have hc : (awaiting.map (·.call)).Sublist calls := by
    have := hsub.map (·.call)
    rwa [prepareCalls_calls] at this
  obtain ⟨p', hs, -⟩ := @Persisted.saveAll_distinct env.argumentHash lease env _
    (fun item : PreparedCall => item.call.id)
    (fun item => .toolApprovalRequired (env.newApprovalId item.call.id) item.call item.argumentHash
      (approvalReason item.call.name (item.effect.getD .readOnly)))
    (fun q item event hr hb => hr.save_approval rfl hb) awaiting p st.factory
    (by
      have := ht.nodup.sublist (hc.map (·.id))
      rwa [map_map] at this)
    (fun item hi => ht.ready _ (hc.subset (mem_map_of_mem hi)))
  exact ⟨p', hs⟩

theorem accepts_quiet (h : ∀ step ∈ steps, ∀ event, step ≠ .emit event) :
    Admissible (Persisted.step env.argumentHash lease) (Persisted.Accepts env.argumentHash lease) p
        steps ∧ steps.foldl (Persisted.step env.argumentHash lease) p = p := by
  induction steps with
  | nil => exact ⟨trivial, rfl⟩
  | cons step _ ih =>
    have hst : p.step env.argumentHash lease step = p ∧ p.Accepts env.argumentHash lease step := by
      cases step with
      | emit event => exact absurd rfl (h _ (mem_cons_self ..) event)
      | _ => exact ⟨rfl, trivial⟩
    obtain ⟨hr, hf⟩ := ih fun s hs => h s (mem_cons_of_mem _ hs)
    refine ⟨⟨hst.2, ?_⟩, ?_⟩
    · rw [hst.1]
      exact hr
    · rw [foldl_cons, hst.1]
      exact hf

theorem accepts_one (h : p.save env.argumentHash lease event = .ok p') :
    Admissible (Persisted.step env.argumentHash lease) (Persisted.Accepts env.argumentHash lease) p
        [.emit event] ∧
      [LoopStep.emit event].foldl (Persisted.step env.argumentHash lease) p = p' := by
  have hall : p.saveAll env.argumentHash lease [event] = .ok p' := by
    rw [saveAll_cons h]
    rfl
  exact saveAll_admissible hall

def Persists (env : LoopEnv) (input : AgentLoopInput) (rows₀ : String → Option ToolCall)
    (lease : RunLease) (p : Persisted) (steps : List LoopStep) (c' : Config) : Prop :=
  Admissible (Persisted.step env.argumentHash lease) (Persisted.Accepts env.argumentHash lease) p
      steps ∧ ConfigPersists env input rows₀ lease c'
      (steps.foldl (Persisted.step env.argumentHash lease) p)

theorem Persists.quiet {before events : List AgentEvent} {p₂ : Persisted}
    (hq : ∀ step ∈ steps, ∀ event, step ≠ .emit event)
    (hc : p.saveAll env.argumentHash lease before = .ok p₁)
    (he : c'.state.emitted = before ++ events)
    (hs : p₁.saveAll env.argumentHash lease events = .ok p₂)
    (hph : PhasePersists env input rows₀ p₂ c'.state c'.phase) :
    Persists env input rows₀ lease p steps c' := by
  obtain ⟨ha, hf⟩ := @accepts_quiet env lease p steps hq
  refine ⟨ha, p₂, ?_, hph⟩
  rw [hf, he, saveAll_append hc]
  exact hs

theorem Persists.silent (hq : ∀ step ∈ steps, ∀ event, step ≠ .emit event)
    (hc : p.saveAll env.argumentHash lease c'.state.emitted = .ok p₁)
    (hph : PhasePersists env input rows₀ p₁ c'.state c'.phase) :
    Persists env input rows₀ lease p steps c' :=
  Persists.quiet hq hc (append_nil _).symm rfl hph

theorem Persists.emit (hs : p.save env.argumentHash lease event = .ok p')
    (he : c'.state.emitted = []) (hph : PhasePersists env input rows₀ p' c'.state c'.phase) :
    Persists env input rows₀ lease p [.emit event] c' := by
  obtain ⟨ha, hf⟩ := accepts_one hs
  refine ⟨ha, p', ?_, hph⟩
  rw [hf, he]
  rfl

theorem PhasePersists.congr {phase : LoopPhase} (h : PhasePersists env input rows₀ p st phase)
    (ht : st'.transcript = st.transcript) (ho : st'.outcomes = st.outcomes)
    (he : st'.emitted = st.emitted) : PhasePersists env input rows₀ p st' phase := by
  cases phase with
  | closing => trivial
  | settled => exact Tracks.congr h ht ho
  | executing => exact ⟨h.1.congr ht ho, by rw [ho]; exact h.2⟩
  | opening | idle | resuming | streaming | responded | proposed =>
    exact ⟨h.1.congr ht ho, by simpa only [he, ht, ho] using h.2⟩

theorem saveAll_checkpointed {k : CheckpointRequest}
    (h : p.saveAll env.argumentHash lease st.emitted = .ok p₁) :
    p.saveAll env.argumentHash lease (st.checkpointed env k).emitted = .ok p₁ := by
  rw [checkpointed, emit_emitted]
  change p.saveAll env.argumentHash lease (st.emitted ++ _) = _
  rw [saveAll_append h]
  exact saveAll_unsaved (by simp [unsaved])

theorem Outcomes.set_of_ne {o : Outcomes} {id' : String} {x : ToolOutcome} (h : id' ≠ id) :
    o.set id x id' = o id' := by
  simp [Outcomes.set, h]

theorem validRevision_of_completed {o : ToolOutcome} {revision : String}
    (hval : validWorkspaceRevision revision)
    (h : o.result.bind (·.get? "workspace_revision") = some (.str revision)) :
    ValidRevision o.result := by
  simp only [validWorkspaceRevision, and_eq_true, decide_eq_true_eq] at hval
  obtain ⟨⟨⟨hs, -⟩, hpos⟩, hlen⟩ := hval
  refine ⟨some revision, ?_⟩
  have hr : resultRevision o.result = some revision := by
    simp only [resultRevision, h]
  have hide : identifierString? revision = some revision := by
    have hstrip : stripWhitespace revision = revision := by
      rw [hs, stripWhitespace_pythonStrip]
    simp only [identifierString?, hstrip]
    exact if_pos ⟨hpos, hlen⟩
  simp only [hr, normalizedVersion, hide]

theorem Move.persists {c : Config} (hm : Move env input c steps c')
    (ha : Persistable env input rows₀) (h : ConfigPersists env input rows₀ lease c p) :
    Persists env input rows₀ lease p steps c' := by
  obtain ⟨p₁, hc, h⟩ := h
  have now : c.state.emitted = [] → p₁ = p := by
    intro he
    rw [he] at hc
    cases hc
    rfl
  have nothing : ∀ b ∈ ([] : List EventBody), b.unsaved = true := by simp
  have fails : ∀ e : ErrorDetail, ∀ b ∈ [runFailed e], b.unsaved = true := by
    simp [unsaved]
  cases hm with
  | yield body plain =>
    obtain ⟨had, hf⟩ := @accepts_one env lease p p (c.state.factory.make env body).1
      (save_unsaved (unsaved_of_plain plain))
    exact ⟨had, p₁, by rw [hf]; exact hc, h.congr rfl rfl rfl⟩
  | journal => exact .silent (by simp) hc (h.congr rfl rfl rfl)
  | close | conclude => exact .silent (by simp) hc trivial
  | skip phase =>
    rw [phase] at h
    exact .silent (by simp) hc ⟨h.1, h.2.1⟩
  | resume _ phase =>
    rw [phase] at h
    obtain ⟨ht, he, htu, hrow, hn⟩ := h
    refine .silent (by simp) hc ⟨?_, he, htu, by simp, by simp [hrow], hn⟩
    dsimp only
    split
    · exact ht.congr rfl rfl
    · exact ht.say rfl rfl
  | reannounce done call rest phase pending =>
    rw [phase] at h
    obtain rfl := now h.2.1
    let body : EventBody :=
      .toolCallReceived "approval-resume" call (env.argumentHash call.arguments)
    obtain ⟨p', hsa, hph⟩ := @PhasePersists.reannounce env input rows₀ lease _ c.state
      (c.stamped env body).state (c.state.factory.make env body).1 done rest call ha h pending
      rfl rfl rfl rfl
    exact .emit hsa h.2.1 hph
  | resumed calls phase pending =>
    rw [phase] at h
    obtain ⟨ht, he, -, hre, -, hn⟩ := h
    have hca : calls = input.resumed := pending
    subst hca
    refine .silent (by simp) hc
      ⟨ht, he, ⟨hre, ha.nodup, ?_, .inl rfl⟩, by simp⟩
    intro call hcl o ho
    rw [hn call hcl] at ho
    cases ho
  | request r phase messages =>
    rw [phase] at h
    obtain ⟨ht, he⟩ := h
    obtain rfl := now he
    let body : EventBody := .modelRequestStarted r.modelCallId r.requestId input.routeName
    have hsa : p₁.save env.argumentHash lease (c.state.factory.make env body).1 =
        .ok { p₁ with turnNumber := p₁.turnNumber + 1 } := save_request rfl
    have hph : PhasePersists env input rows₀ { p₁ with turnNumber := p₁.turnNumber + 1 }
        (c.stamped env body).state (.streaming r []) :=
      ⟨⟨ht.records, ht.outcomes⟩, he, messages, List.nil_sublist _, by simp⟩
    obtain ⟨had, hco⟩ := @Persists.emit env input rows₀ lease p₁ _ _
      { c.stamped env body with phase := .streaming r [] } hsa he hph
    exact ⟨⟨had.1, trivial, trivial⟩, hco⟩
  | receive r arrived call phase proposed =>
    rw [phase] at h
    obtain rfl := now h.2.1
    let body : EventBody :=
      .toolCallReceived r.modelCallId call (env.argumentHash call.arguments)
    obtain ⟨p', hsa, hph⟩ := @PhasePersists.receive env input rows₀ lease _ c.state
      (c.stamped env body).state (c.state.factory.make env body).1 r arrived call ha h proposed
      rfl rfl rfl rfl
    exact .emit hsa h.2.1 hph
  | respond _ _ phase proposed =>
    rw [phase] at h
    exact .silent (by simp) hc (h.respond ha proposed)
  | answer _ phase =>
    rw [phase] at h
    exact .silent (by simp) hc (h.answer rfl rfl rfl)
  | askAgain _ _ phase empty =>
    rw [phase] at h
    obtain ⟨ht, he, -⟩ := h
    rw [empty] at ht
    exact .silent (by simp) hc ⟨ht.say rfl rfl, he⟩
  | reject _ _ ending _ phase kept =>
    rw [phase] at h
    obtain ⟨p', hsa, ht⟩ := @PhasePersists.reject env input rows₀ lease _ _ _ _ ending _
      h kept
    refine .quiet (by simp) hc rfl hsa ?_
    dsimp only
    split
    · exact ht _ _ (append_assoc _ _ _) rfl
    · trivial
  | suspend _ _ phase prepared =>
    rw [phase] at h
    obtain ⟨p', hsa⟩ := h.suspend prepared
    exact .quiet (by simp) hc rfl hsa trivial
  | validate _ phase =>
    rw [phase] at h
    obtain ⟨ht, -, htu, -⟩ := h
    refine .silent (by simp) hc ⟨ht, ?_⟩
    rw [prepareCalls_calls]
    exact htu
  | replay _ item _ prior phase _ known =>
    rw [phase] at h
    -- a call of the turn that has an outcome was rejected before
    have hfa := h.2.unsettled item.call (mem_cons_self ..) prior known
    obtain ⟨p', hsa, hto⟩ := (h.2.ready item.call (mem_cons_self ..)).saveAll_ended
      hfa.terminal (by rw [hfa.status]; simp) nothing
    exact .quiet (by simp) hc rfl hsa (h.next hto rfl fun _ _ => rfl)
  | settle _ item _ o phase prepared _ terminal interaction =>
    rw [phase] at h
    have hnot : o.status ≠ .completed := by
      intro hcm
      obtain ⟨hef, _, hq, hid, hap, hrs⟩ := interaction hcm
      exact hrs (ha.not_answered h.2.source prepared.mem hef hq hid hap)
    obtain ⟨p', hsa, hto⟩ := (h.2.ready item.call (mem_cons_self ..)).saveAll_ended
      terminal hnot nothing
    exact .quiet (by simp) hc rfl hsa
      (h.next hto rfl fun id hid => set_of_ne hid)
  | execute _ item _ _ _ o phase _ _ _ _ outputs terminal returned =>
      rw [phase] at h
      have hrv : ValidRevision o.result := by
        cases hr : o.result with
        | none => exact validRevision_none
        | some result => exact ha.ordered.revisions _ _ (returned result hr)
      obtain ⟨p', hsa, hto⟩ := (h.2.ready item.call (mem_cons_self ..)).saveAll_executed
        ha.ordered.clock outputs terminal hrv nothing
      exact .quiet (by simp) hc (append_assoc _ _ _) hsa
        (h.next hto rfl fun id hid => set_of_ne hid)
  | executeCheckpointed _ item _ _ _ _ _ _ phase _ _ _ _ outputs _ _ terminal revision =>
      rw [phase] at h
      obtain ⟨p', hsa, hto⟩ := (h.2.ready item.call (mem_cons_self ..)).saveAll_executed
        ha.ordered.clock outputs terminal (validRevision_of_completed revision.1 revision.2) nothing
      exact .quiet (by simp) (saveAll_checkpointed hc) (append_assoc _ _ _) hsa
        (h.next hto rfl fun id hid => set_of_ne hid)
  | executeRolledBack _ item _ _ _ o _ phase _ _ _ _ outputs _ failed terminal =>
      rw [phase] at h
      have hrv : ValidRevision o.result := by
        rcases terminal with ⟨hs, -⟩ | ⟨-, hr, -⟩
        · rw [failed] at hs
          cases hs
        · rw [hr]
          exact validRevision_none
      obtain ⟨p', hsa, hto⟩ := (h.2.ready item.call (mem_cons_self ..)).saveAll_executed
        ha.ordered.clock outputs terminal hrv nothing
      exact .quiet (by simp) (saveAll_checkpointed hc) (append_assoc _ _ _) hsa
        (h.next hto rfl fun id hid => set_of_ne hid)
  | breakBefore _ item _ error phase =>
    rw [phase] at h
    obtain ⟨p', hsa, -⟩ := (h.2.ready item.call (mem_cons_self ..)).saveAll_ended
      (o := failedWith error) terminal_failed (by simp [failedWith]) (fails error)
    exact .quiet (by simp) hc rfl hsa trivial
  | breakAfter _ item _ _ _ error _ completion _ phase _ _ _ _ outputs =>
      rw [phase] at h
      obtain ⟨p', hsa, -⟩ := (h.2.ready item.call (mem_cons_self ..)).saveAll_executed
        ha.ordered.clock outputs (o := failedWith error) terminal_failed
        validRevision_none (fails error)
      exact .quiet (by cases completion <;> simp) (saveAll_checkpointed hc)
        (append_assoc _ _ _) hsa trivial
  | executed _ phase =>
    rw [phase] at h
    exact .silent (by simp) hc h.1
  | flush _ phase =>
    obtain ⟨had, hf⟩ := saveAll_admissible hc
    refine ⟨had, p₁, ?_, ?_⟩
    · rw [hf]
      rfl
    · rcases phase with ⟨hph, rfl⟩ | ⟨-, rfl⟩
      · rw [hph] at h
        exact ⟨Tracks.congr h rfl rfl, rfl⟩
      · trivial

theorem run_persists (ha : Persistable env input rows₀) :
    Admissible (Persisted.step env.argumentHash lease) (Persisted.Accepts env.argumentHash lease)
      { observed := fun _ => none, rows := rows₀, turnNumber := 0 } (run env input) := by
  obtain ⟨c', hp⟩ := run_path env input
  have hs : ConfigPersists env input rows₀ lease (.initial env input)
      { observed := fun _ => none, rows := rows₀, turnNumber := 0 } := by
    refine ⟨_, rfl, ⟨?_, ?_⟩, rfl, rfl, rfl, ?_⟩
    · rintro id (hid | hid)
      · exact absurd rfl hid
      · exact .inl hid
    · intro id o ho
      have hpr : priorOutcomes input.priorToolOutcomes id = some o := ho
      exact .inl (.inl (ha.outcomes id (by rw [hpr]; simp)).1)
    · intro call hc
      by_contra hne
      exact (ha.outcomes call.id hne).2 (mem_map_of_mem hc)
  exact (hp.admissible (fun c steps c' p hm h => Move.persists hm ha h) hs).1

end Move

end AgentPlatform
