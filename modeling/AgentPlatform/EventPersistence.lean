/-
**Which events the durable tool state machine accepts.**
-/

import AgentPlatform.Executor
import AgentPlatform.RecoveredTranscript

namespace AgentPlatform

open EventFactory Executor ToolCall ToolCallStatus

open History (Admissible)

structure ToolCall.Blank (c : ToolCall) : Prop where
  workspaceVersion : c.workspaceVersion = none
  result : c.result = none
  error : c.error = none
  startedAt : c.startedAt = none
  completedAt : c.completedAt = none

def ToolCall.opened (c : ToolCall) : Prop := c.status = .received ∨ c.status = .waitingApproval

instance (c : ToolCall) : Decidable c.opened := inferInstanceAs (Decidable (_ ∨ _))

structure ToolCall.WellIdentified (hash : JsonObject → String) (c : ToolCall) : Prop where
  turn : 1 ≤ c.turnNumber
  argumentHash : c.argumentHash = hash c.arguments

section Valid

variable {hash : JsonObject → String} {c : ToolCall}

theorem ToolCall.Blank.validate (hb : c.Blank) (hw : c.WellIdentified hash) (ho : c.opened) :
    c.validate hash = .ok c := by
  have ht : ¬ c.turnNumber < 1 := not_lt.2 hw.turn
  have hval : c.invalidity hash = none := by
    rcases ho with hs | hs <;>
      simp [invalidity, completedBeforeStart, hw.argumentHash, hb.result, hb.error,
        hb.completedAt, hs, terminal]
  have hsa : { c with workspaceVersion := none } = c := by
    rw [← hb.workspaceVersion]
  simp only [ToolCall.validate, ht, if_false, hb.workspaceVersion, normalizedVersion, hsa, hval]

theorem ToolCall.Blank.validate_started (hb : c.Blank) (hw : c.WellIdentified hash) (t : Timestamp) :
    ({ c with status := .running, startedAt := some t } : ToolCall).validate hash =
      .ok { c with status := .running, startedAt := some t } := by
  have ht : ¬ c.turnNumber < 1 := not_lt.2 hw.turn
  simp [ToolCall.validate, ht, hb.workspaceVersion, normalizedVersion, invalidity,
    completedBeforeStart, hw.argumentHash, hb.result, hb.error, hb.completedAt,
    terminal]

def ValidRevision (result : Option JsonObject) : Prop :=
  ∃ version, normalizedVersion (resultRevision result) = .ok version

theorem validRevision_none : ValidRevision none := ⟨none, rfl⟩

def ToolCall.ended (c : ToolCall) (o : ToolOutcome) (t : Timestamp) : ToolCall :=
  { c with
    status := o.status, workspaceVersion := resultRevision o.result, result := o.result,
    error := o.error, completedAt := some t }

theorem ToolCall.validate_ended (hw : c.WellIdentified hash) {o : ToolOutcome} {t : Timestamp}
    (ho : o.Terminal) (hre : ValidRevision o.result)
    (hst : o.status = .completed → c.startedAt ≠ none)
    (hor : ∀ t₀, c.startedAt = some t₀ → t₀ ≤ t) : ∃ version, (c.ended o t).validate hash =
      .ok { c.ended o t with workspaceVersion := version } := by
  obtain ⟨version, hv⟩ := hre
  refine ⟨version, ?_⟩
  have ht : ¬ (c.ended o t).turnNumber < 1 := not_lt.2 hw.turn
  have hb : ({ c.ended o t with workspaceVersion := version } : ToolCall).completedBeforeStart =
      false := by
    simp only [completedBeforeStart, ended]
    cases hs : c.startedAt with
    | none => rfl
    | some t₀ => exact decide_eq_false (not_lt.2 (hor t₀ hs))
  have hval : ({ c.ended o t with workspaceVersion := version } : ToolCall).invalidity hash =
      none := by
    simp only [invalidity, hb]
    rcases ho with ⟨hs, hr, he⟩ | ⟨hs, hr, he⟩
    · simp [ended, hw.argumentHash, hs, hr, he, hst hs, terminal]
    · rcases hs with hs | hs <;>
        simp [ended, hw.argumentHash, hs, hr, he, terminal]
  have hn : normalizedVersion (c.ended o t).workspaceVersion = .ok version := hv
  simp only [validate, ht, if_false, hn, hval]

end Valid

theorem saveToolCallRow_advance {row c : ToolCall} (hid : row.identity = c.identity)
    (ht : c.status ∈ row.status.transitions) :
    saveToolCallRow (some row) c = .ok (c, row.overwrite c) := by
  have hlt := rank_lt_of_mem_transitions ht
  have hm : row.rowMatches c = false := by
    have hne : row.status ≠ c.status := fun h => by rw [h] at hlt; exact lt_irrefl _ hlt
    simp [rowMatches, hne]
  have hp : c.status ∉ row.status.predecessors := by
    rw [mem_predecessors_iff]
    omega
  simp [saveToolCallRow, hid, hm, hp, ht]

structure Persisted where
  observed : String → Option ToolCall
  rows : String → Option ToolCall
  turnNumber : ℕ

open Persisted

def Persisted.executor (p : Persisted) : Executor :=
  { observed := p.observed, turnNumber := p.turnNumber }

def Persisted.set (p : Persisted) (id : String) (record row : ToolCall) : Persisted :=
  { p with
    observed := fun i => if i = id then some record else p.observed i
    rows := fun i => if i = id then some row else p.rows i }

section Save

variable (hash : JsonObject → String) (lease : RunLease)

/-- `_persist_tool_state` for one event. -/
def Persisted.save (p : Persisted) (event : AgentEvent) : Except Failure Persisted :=
  let counted := { p with turnNumber := (p.executor.counted event).turnNumber }
  match (p.executor.counted event).savedCall hash lease event with
  | .error f => .error f
  | .ok none => .ok counted
  | .ok (some c) =>
    match saveToolCallRow (p.rows c.id) c with
    | .error f => .error f
    | .ok (returned, row) => .ok (counted.set c.id returned row)

def Persisted.saveAll : Persisted → List AgentEvent → Except Failure Persisted
  | p, [] => .ok p
  | p, event :: rest =>
    match p.save hash lease event with
    | .error f => .error f
    | .ok p' => p'.saveAll rest

def Persisted.step (p : Persisted) : LoopStep → Persisted
  | .emit event => (p.save hash lease event).toOption.getD p
  | _ => p

def Persisted.Accepts (p : Persisted) : LoopStep → Prop
  | .emit event => ∃ p', p.save hash lease event = .ok p'
  | _ => True

end Save

variable {hash : JsonObject → String} {lease : RunLease} {p p' p'' : Persisted}

theorem Persisted.saveAll_cons {event : AgentEvent} {rest : List AgentEvent}
    (h : p.save hash lease event = .ok p') :
    p.saveAll hash lease (event :: rest) = p'.saveAll hash lease rest := by
  simp only [saveAll, h]

theorem Persisted.saveAll_append {events events' : List AgentEvent}
    (h : p.saveAll hash lease events = .ok p') :
    p.saveAll hash lease (events ++ events') = p'.saveAll hash lease events' := by
  induction events generalizing p with
  | nil =>
    cases h
    rfl
  | cons event _ ih =>
    simp only [saveAll] at h
    cases hs : p.save hash lease event with
    | error =>
      rw [hs] at h
      cases h
    | ok =>
      rw [hs] at h
      rw [cons_append, saveAll_cons hs]
      exact ih h

theorem Persisted.saveAll_admissible {events : List AgentEvent}
    (h : p.saveAll hash lease events = .ok p') :
    Admissible (Persisted.step hash lease) (Persisted.Accepts hash lease) p (events.map .emit) ∧
      (events.map LoopStep.emit).foldl (Persisted.step hash lease) p = p' := by
  induction events generalizing p with
  | nil =>
    cases h
    exact ⟨trivial, rfl⟩
  | cons event _ ih =>
    cases hs : p.save hash lease event with
    | error =>
      simp only [saveAll, hs] at h
      cases h
    | ok q =>
      rw [saveAll_cons hs] at h
      have hst : p.step hash lease (.emit event) = q := by
        simp [Persisted.step, hs, Except.toOption]
      obtain ⟨ha, hf⟩ := ih h
      refine ⟨⟨⟨q, hs⟩, ?_⟩, ?_⟩
      · rw [hst]
        exact ha
      · rw [map_cons, foldl_cons, hst]
        exact hf

structure Persisted.Ready (hash : JsonObject → String) (p : Persisted) (id : String) (c row : ToolCall) :
    Prop where
  observed : p.observed id = some c
  stored : p.rows id = some row
  callId : c.id = id
  identity : row.identity = c.identity
  status : row.status = c.status
  identified : c.WellIdentified hash
  opened : c.opened
  blank : c.Blank

structure Persisted.Started (hash : JsonObject → String) (p : Persisted) (id : String) (t : Timestamp)
    (c row : ToolCall) : Prop where
  observed : p.observed id = some c
  stored : p.rows id = some row
  callId : c.id = id
  identity : row.identity = c.identity
  running : row.status = .running
  identified : c.WellIdentified hash
  startedAt : c.startedAt = some t

def Persisted.IsReady (hash : JsonObject → String) (p : Persisted) (id : String) : Prop :=
  ∃ c row, p.Ready hash id c row

structure Persisted.Touches (id : String) (p p' : Persisted) : Prop where
  observed : ∀ i, i ≠ id → p'.observed i = p.observed i
  rows : ∀ i, i ≠ id → p'.rows i = p.rows i
  turnNumber : p'.turnNumber = p.turnNumber

theorem Persisted.Touches.refl (id : String) (p : Persisted) : Touches id p p :=
  ⟨fun _ _ => rfl, fun _ _ => rfl, rfl⟩

theorem Persisted.Touches.trans {id : String} (h : Touches id p p') (h' : Touches id p' p'') :
    Touches id p p'' where
  observed i hi := (h'.observed i hi).trans (h.observed i hi)
  rows i hi := (h'.rows i hi).trans (h.rows i hi)
  turnNumber := h'.turnNumber.trans h.turnNumber

theorem Persisted.touches_set (p : Persisted) (id : String) (c row : ToolCall) :
    Touches id p (p.set id c row) where
  observed i hi := by simp [Persisted.set, hi]
  rows i hi := by simp [Persisted.set, hi]
  turnNumber := rfl

theorem Persisted.Touches.isReady {id id' : String} (h : Touches id p p') (hne : id' ≠ id)
    (hr : p.IsReady hash id') : p'.IsReady hash id' := by
  obtain ⟨c, row, hr⟩ := hr
  exact ⟨c, row, { hr with
    observed := (h.observed id' hne).trans hr.observed
    stored := (h.rows id' hne).trans hr.stored }⟩

def EventBody.unsaved : EventBody → Bool
  | .toolCallReceived .. | .toolApprovalRequired .. | .toolStarted .. | .toolCompleted ..
  | .modelRequestStarted .. => false
  | _ => true

theorem EventBody.unsaved_of_plain {body : EventBody} (h : body.plain) :
    body.unsaved := by
  cases body <;> first | rfl | cases h

section Events

variable {event : AgentEvent}

theorem Persisted.save_unsaved (h : event.body.unsaved) :
    p.save hash lease event = .ok p := by
  have hc : p.executor.counted event = p.executor := by
    unfold counted
    cases hb : event.body <;> first | rfl | (rw [hb] at h; cases h)
  have hrec : p.executor.eventRecord lease event = none := by
    unfold eventRecord
    cases hb : event.body <;> first | rfl | (rw [hb] at h; cases h)
  simp only [save, hc, savedCall, hrec]
  rfl

variable {m : String} {call : GatewayToolCall} {o : ToolOutcome}

theorem Persisted.save_request {r route : String} (h : event.body = .modelRequestStarted m r route)
    : p.save hash lease event = .ok { p with turnNumber := p.turnNumber + 1 } := by
  simp only [save, counted, h, savedCall, eventRecord]
  rfl

variable {c row : ToolCall} {id : String}

theorem Persisted.save_eq {record returned : ToolCall}
    (ht : p.executor.counted event = p.executor)
    (hrec : p.executor.eventRecord lease event = some record) (hval : record.validate hash = .ok c)
    (hs : saveToolCallRow (p.rows c.id) c = .ok (returned, row)) :
    p.save hash lease event = .ok (p.set c.id returned row) := by
  simp only [save, ht, savedCall, hrec, hval, Except.map, hs]
  rfl

theorem Persisted.save_received_new
    (hb : event.body = .toolCallReceived m call (hash call.arguments))
    (hnew : p.rows call.id = none) :
    ∃ p', p.save hash lease event = .ok p' ∧ Touches call.id p p' ∧ p'.IsReady hash call.id := by
  let record := receivedRecord lease p.turnNumber call (hash call.arguments)
  have hbl : record.Blank := ⟨rfl, rfl, rfl, rfl, rfl⟩
  have hide : record.WellIdentified hash := ⟨le_max_left _ _, rfl⟩
  have hs : saveToolCallRow (p.rows record.id) record = .ok (record, record) := by
    rw [show p.rows record.id = none from hnew]
    rfl
  refine ⟨_, save_eq ?_ ?_ (hbl.validate hide (.inl rfl)) hs,
    p.touches_set _ _ _, record, record, ?_⟩
  · simp [counted, hb]
  · simp only [eventRecord, hb]
    rfl
  · exact ⟨by simp [Persisted.set, record, receivedRecord],
      by simp [Persisted.set, record, receivedRecord], rfl, rfl, rfl, hide, .inl rfl, hbl⟩

theorem Persisted.save_received_again
    (hb : event.body = .toolCallReceived m call (hash call.arguments))
    (hrow : p.rows call.id = some row) (hid : row.id = call.id)
    (hide : row.identity = (hash call.arguments, call.name, max 1 p.turnNumber, call.arguments))
    (ho : row.opened) (hbl : row.Blank) :
    ∃ p', p.save hash lease event = .ok p' ∧ Touches call.id p p' ∧ p'.IsReady hash call.id := by
  let record := receivedRecord lease p.turnNumber call (hash call.arguments)
  have hrec : record.Blank := ⟨rfl, rfl, rfl, rfl, rfl⟩
  have hd : record.WellIdentified hash := ⟨le_max_left _ _, rfl⟩
  have hsa : row.identity = record.identity := hide
  have hr : row.WellIdentified hash := by
    simp only [identity, Prod.mk.injEq] at hide
    obtain ⟨hh, -, ht, ha⟩ := hide
    exact ⟨by rw [ht]; exact le_max_left _ _, by rw [hh, ha]⟩
  have hsv : saveToolCallRow (p.rows record.id) record = .ok (row, row) := by
    rw [show p.rows record.id = some row from hrow]
    simp only [saveToolCallRow, hsa, ne_eq, not_true_eq_false, if_false]
    rcases ho with hs | hs
    · have hm : row.rowMatches record := by
        simp [rowMatches, hs, hbl.workspaceVersion, hbl.result, hbl.error, record,
          receivedRecord]
      simp [hm]
    · have hbe : record.status ∈ row.status.predecessors := by
        rw [hs]
        simp [predecessors, record, receivedRecord]
      simp [hbe]
  refine ⟨_, save_eq ?_ ?_ (hrec.validate hd (.inl rfl)) hsv,
    p.touches_set _ _ _, row, row, ?_⟩
  · simp [counted, hb]
  · simp only [eventRecord, hb]
    rfl
  · exact ⟨by simp [Persisted.set, record, receivedRecord],
      by simp [Persisted.set, record, receivedRecord], hid, rfl, rfl, hr, ho, hbl⟩

theorem Persisted.Ready.advance {record c' : ToolCall} (h : p.Ready hash id c row)
    (htu : p.executor.counted event = p.executor)
    (hrec : p.executor.eventRecord lease event = some record)
    (hval : record.validate hash = .ok c') (hid : c'.id = id)
    (hide : c'.identity = c.identity) (ht : c'.status ∈ c.status.transitions) :
    p.save hash lease event = .ok (p.set id c' (row.overwrite c')) := by
  have hs : saveToolCallRow (p.rows c'.id) c' = .ok (c', row.overwrite c') := by
    rw [hid, h.stored]
    refine saveToolCallRow_advance (h.identity.trans hide.symm) ?_
    rw [h.status]
    exact ht
  rw [save_eq htu hrec hval hs, hid]

theorem ToolCall.opened.mem_transitions (h : c.opened) {s : ToolCallStatus}
    (hs : s = .running ∨ s = .failed ∨ s = .cancelled) : s ∈ c.status.transitions := by
  rcases h with hc | hc <;> rcases hs with rfl | rfl | rfl <;> rw [hc] <;> decide

theorem Persisted.IsReady.save_approval {reason argHash : String} {approvalId : Uuid}
    (h : p.IsReady hash id) (hc : call.id = id)
    (hb : event.body = .toolApprovalRequired approvalId call argHash reason) :
    ∃ p', p.save hash lease event = .ok p' ∧ Touches id p p' := by
  obtain ⟨c, _, h⟩ := h
  have ht : p.executor.counted event = p.executor := by simp [counted, hb]
  have ho : p.executor.observed call.id = some c := by
    rw [hc]
    exact h.observed
  rcases h.opened with hs | hs
  · have hw : ({ c with status := .waitingApproval } : ToolCall).Blank :=
      { h.blank with }
    have hide : ({ c with status := .waitingApproval } : ToolCall).WellIdentified hash :=
      { h.identified with }
    refine ⟨_, h.advance ht ?_ (hw.validate hide (.inr rfl)) h.callId rfl ?_,
      p.touches_set _ _ _⟩
    · simp only [eventRecord, hb, ho, hs, if_true]
    · rw [hs]
      simp [transitions]
  · have hn : p.executor.eventRecord lease event = none := by
      simp [eventRecord, hb, ho, hs]
    refine ⟨p, ?_, Touches.refl _ _⟩
    simp only [save, ht, savedCall, hn]
    rfl

theorem Persisted.IsReady.save_started {name : String} (h : p.IsReady hash id)
    (hb : event.body = .toolStarted id name) :
    ∃ p', p.save hash lease event = .ok p' ∧ Touches id p p' ∧
      ∃ c row, p'.Started hash id event.createdAt c row := by
  obtain ⟨c, row, h⟩ := h
  let c' : ToolCall := { c with status := .running, startedAt := some event.createdAt }
  have hrec : p.executor.eventRecord lease event = some c' := by
    have ho : p.executor.observed id = some c := h.observed
    simp only [eventRecord, hb, ho]
    exact if_pos h.opened
  have hs : p.save hash lease event = .ok (p.set id c' (row.overwrite c')) :=
    h.advance (by simp [counted, hb]) hrec
      (h.blank.validate_started h.identified _) h.callId rfl (h.opened.mem_transitions (.inl rfl))
  exact ⟨_, hs, p.touches_set _ _ _, c', row.overwrite c', by simp [Persisted.set],
    by simp [Persisted.set], h.callId, h.identity, rfl, { h.identified with }, rfl⟩

theorem Executor.eventRecord_completed {x : Executor} (ho : x.observed id = some c)
    (hb : event.body = .toolCompleted id o.status o.result o.error) :
    x.eventRecord lease event = some (c.ended o event.createdAt) := by
  simp only [eventRecord, hb, ho]
  rfl

theorem Persisted.IsReady.save_ended (h : p.IsReady hash id)
    (hb : event.body = .toolCompleted id o.status o.result o.error) (ho : o.Terminal)
    (hnot : o.status ≠ .completed) : ∃ p', p.save hash lease event = .ok p' ∧ Touches id p p' := by
  obtain ⟨_, _, h⟩ := h
  have hf : (o.status = .failed ∨ o.status = .cancelled) ∧ o.result = none := by
    rcases ho with ⟨hs, -⟩ | ⟨hs, hr, -⟩
    · exact absurd hs hnot
    · exact ⟨hs, hr⟩
  obtain ⟨_, hval⟩ := validate_ended (t := event.createdAt) h.identified ho
    (by rw [hf.2]; exact validRevision_none) (fun hc => absurd hc hnot)
    (by rw [h.blank.startedAt]; simp)
  exact ⟨_, h.advance (by simp [counted, hb])
    (eventRecord_completed h.observed hb) hval h.callId rfl
    (h.opened.mem_transitions (.inr hf.1)), p.touches_set _ _ _⟩

def failedWith (error : ErrorDetail) : ToolOutcome :=
  { toolName := "", argumentHash := none, status := .failed, error := some error }

theorem Persisted.IsReady.save_failed {error : ErrorDetail} (h : p.IsReady hash id)
    (hb : event.body = .toolCompleted id .failed none (some error)) :
    ∃ p', p.save hash lease event = .ok p' ∧ Touches id p p' :=
  h.save_ended (o := failedWith error) hb ToolOutcome.terminal_failed (by simp [failedWith])

theorem Persisted.Started.save_ended {t : Timestamp} (h : p.Started hash id t c row)
    (hb : event.body = .toolCompleted id o.status o.result o.error) (ho : o.Terminal)
    (hr : ValidRevision o.result) (hor : t ≤ event.createdAt) :
    ∃ p', p.save hash lease event = .ok p' ∧ Touches id p p' := by
  obtain ⟨version, hval⟩ := validate_ended (t := event.createdAt) h.identified ho
    hr (fun _ => by simp [h.startedAt])
    (fun t₀ ht₀ => by rw [h.startedAt] at ht₀; cases ht₀; exact hor)
  let c' : ToolCall := { c.ended o event.createdAt with workspaceVersion := version }
  have hid : c'.id = id := h.callId
  have hsa : saveToolCallRow (p.rows c'.id) c' = .ok (c', row.overwrite c') := by
    rw [hid, h.stored]
    refine saveToolCallRow_advance h.identity ?_
    rw [h.running]
    have hst : c'.status = o.status := rfl
    rw [hst]
    rcases ho with ⟨hs, -⟩ | ⟨hs | hs, -⟩ <;> rw [hs] <;> decide
  refine ⟨p.set id c' (row.overwrite c'), ?_, p.touches_set _ _ _⟩
  rw [← hid]
  exact save_eq (by simp [counted, hb])
    (eventRecord_completed h.observed hb) hval hsa

theorem Persisted.save_unobserved {status : ToolCallStatus} {result : Option JsonObject}
    {error : Option ErrorDetail} (hb : event.body = .toolCompleted id status result error)
    (hn : p.observed id = none) : p.save hash lease event = .ok p := by
  have ht : p.executor.counted event = p.executor := by simp [counted, hb]
  have hrec : p.executor.eventRecord lease event = none := by
    have ho : p.executor.observed id = none := hn
    simp [eventRecord, hb, ho]
  simp only [save, ht, savedCall, hrec]
  rfl

end Events

section Collected

variable {env : LoopEnv} {f : EventFactory}

theorem Persisted.saveAll_unsaved {bodies : List EventBody} (h : ∀ b ∈ bodies, b.unsaved = true) :
    p.saveAll hash lease (f.makeAll env bodies).1 = .ok p := by
  induction bodies generalizing f with
  | nil => rfl
  | cons body _ ih =>
    have hbo : ((f.make env body).1).body.unsaved := h body (mem_cons_self ..)
    rw [makeAll_cons, saveAll_cons (save_unsaved hbo)]
    exact ih fun b hb => h b (mem_cons_of_mem _ hb)

variable {id : String}

theorem Persisted.IsReady.saveAll_started {name : String} (h : p.IsReady hash id)
    {output : List EventBody} (hout : ∀ b ∈ output, OutputOf id b) :
    ∃ p', p.saveAll hash lease (f.makeAll env (.toolStarted id name :: output)).1 = .ok p' ∧
      Touches id p p' ∧ ∃ c row, p'.Started hash id (env.clock f.reads) c row := by
  obtain ⟨p', hs, ht, hst⟩ :=
    @Persisted.IsReady.save_started hash lease p (f.make env (.toolStarted id name)).1 _ _ h rfl
  refine ⟨p', ?_, ht, hst⟩
  rw [makeAll_cons, saveAll_cons hs]
  refine saveAll_unsaved fun b hb => ?_
  obtain ⟨_, _, _, rfl⟩ := hout b hb
  rfl

theorem Persisted.IsReady.saveAll_executed (hcl : ∀ i j, i ≤ j → env.clock i ≤ env.clock j)
    {name : String} (h : p.IsReady hash id) {output closing : List EventBody}
    (hout : ∀ b ∈ output, OutputOf id b) {o : ToolOutcome} (ho : o.Terminal)
    (hr : ValidRevision o.result) (hc : ∀ b ∈ closing, b.unsaved = true) :
    let started := f.makeAll env (.toolStarted id name :: output)
    let ended := started.2.makeAll env (.toolCompleted id o.status o.result o.error :: closing)
    ∃ p', p.saveAll hash lease (started.1 ++ ended.1) = .ok p' ∧ Touches id p p' := by
  intro started ended
  obtain ⟨p₁, hs, ht₁, _, _, hst⟩ :=
    @Persisted.IsReady.saveAll_started hash lease p env f id name h output hout
  have hor : env.clock f.reads ≤ env.clock started.2.reads := by
    refine hcl _ _ ?_
    rw [makeAll_reads]
    exact Nat.le_add_right _ _
  obtain ⟨p₂, hend, ht₂⟩ := @Persisted.Started.save_ended hash lease p₁
    (started.2.make env (.toolCompleted id o.status o.result o.error)).1 _ _ _ _ _ hst rfl ho
    hr hor
  refine ⟨p₂, ?_, ht₁.trans ht₂⟩
  rw [saveAll_append hs]
  change p₁.saveAll hash lease (started.2.makeAll env _).1 = _
  rw [makeAll_cons, saveAll_cons hend]
  exact saveAll_unsaved hc

theorem Persisted.IsReady.saveAll_ended (h : p.IsReady hash id) {o : ToolOutcome} (ho : o.Terminal)
    (hnot : o.status ≠ .completed) {closing : List EventBody}
    (hc : ∀ b ∈ closing, b.unsaved = true) : ∃ p', p.saveAll hash lease
        (f.makeAll env (.toolCompleted id o.status o.result o.error :: closing)).1 = .ok p' ∧
      Touches id p p' := by
  obtain ⟨p', hend, ht⟩ := @Persisted.IsReady.save_ended hash lease p
    (f.make env (.toolCompleted id o.status o.result o.error)).1 _ _ h rfl ho hnot
  refine ⟨p', ?_, ht⟩
  rw [makeAll_cons, saveAll_cons hend]
  exact saveAll_unsaved hc

structure Persisted.TouchesAll (ids : List String) (p p' : Persisted) : Prop where
  observed : ∀ i, i ∉ ids → p'.observed i = p.observed i
  rows : ∀ i, i ∉ ids → p'.rows i = p.rows i

theorem Persisted.Touches.all {ids : List String} (h : Touches id p p') (h' : TouchesAll ids p' p'')
    : TouchesAll (id :: ids) p p'' where
  observed i hi := by
    obtain ⟨hne, hnot⟩ := not_or.1 (mem_cons.not.1 hi)
    exact (h'.observed i hnot).trans (h.observed i hne)
  rows i hi := by
    obtain ⟨hne, hnot⟩ := not_or.1 (mem_cons.not.1 hi)
    exact (h'.rows i hnot).trans (h.rows i hne)

theorem Persisted.saveAll_distinct {α : Type} (id : α → String) (body : α → EventBody)
    (hsv : ∀ (q : Persisted) (a : α) (event : AgentEvent), q.IsReady hash (id a) →
      event.body = body a → ∃ q', q.save hash lease event = .ok q' ∧ Touches (id a) q q') :
    ∀ {as : List α} {p : Persisted} {f : EventFactory}, (as.map id).Nodup →
      (∀ a ∈ as, p.IsReady hash (id a)) →
      ∃ p', p.saveAll hash lease (f.makeAll env (as.map body)).1 = .ok p' ∧
        TouchesAll (as.map id) p p' := by
  intro as
  induction as with
  | nil => exact fun _ _ => ⟨_, rfl, fun _ _ => rfl, fun _ _ => rfl⟩
  | cons a as ih =>
    intro p f hn hr
    obtain ⟨hnew, hn⟩ := List.nodup_cons.1 hn
    obtain ⟨p₁, hs, ht⟩ := hsv p a (f.make env (body a)).1
      (hr a (mem_cons_self ..)) rfl
    have hr₁ : ∀ b ∈ as, p₁.IsReady hash (id b) := by
      intro b hb
      refine ht.isReady ?_ (hr b (mem_cons_of_mem _ hb))
      exact fun heq => hnew (heq ▸ mem_map_of_mem hb)
    obtain ⟨p₂, hre, hto⟩ := ih (f := (f.make env (body a)).2) hn hr₁
    refine ⟨p₂, ?_, ht.all hto⟩
    rw [map_cons, makeAll_cons, saveAll_cons hs]
    exact hre

theorem Persisted.saveAll_unobserved {invalid : List (InvalidToolCall × ErrorDetail)}
    (h : ∀ i ∈ invalid, p.observed i.1.toolCallId = none) : p.saveAll hash lease (f.makeAll env
      (invalid.map fun i => .toolCompleted i.1.toolCallId .failed none (some i.2))).1 = .ok p := by
  induction invalid generalizing f with
  | nil => rfl
  | cons i _ ih =>
    have hs : p.save hash lease
        (f.make env (.toolCompleted i.1.toolCallId .failed none (some i.2))).1 = .ok p :=
      save_unobserved rfl (h i (mem_cons_self ..))
    rw [map_cons, makeAll_cons, saveAll_cons hs]
    exact ih fun j hj => h j (mem_cons_of_mem _ hj)

end Collected

end AgentPlatform
