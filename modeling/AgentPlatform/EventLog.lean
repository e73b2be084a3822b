/-
**A run's event log, from the transactions that append to the clients that follow it.**

`PostgresEventStore` (`event_store/postgres.py`) numbers the events of a run by a column of the
run's row.  `stream` reads pages after its cursor while other transactions go on.

Main definitions:

* `FleetRun.apply` — the transactions on a run, some of which append to its log
* `EventClient` — a client of `stream`, which takes events page by page

Main results:

* `event_log_append_only` — the log is numbered without gaps, only grows, and has no key twice
* `stream_follows_log` — what a client has received is always where the log after its cursor begins
-/

import AgentPlatform.EventPaging
import AgentPlatform.Fleet

namespace AgentPlatform

open List

/-- The row that `append` and `_append_idempotent` insert. -/
def FleetRun.insertEvent (r : FleetRun) (key : Option String) (body : EventBody)
    (createdAt : Timestamp) : FleetRun :=
  { r with
    events := r.events ++ [
      { executionEpoch := r.store.run.executionEpoch, sequence := r.nextEventSequence
        deliveryKey := key, body := body, createdAt := createdAt }]
    nextEventSequence := r.nextEventSequence + 1 }

def FleetRun.deliver (r : FleetRun) (key : String) (body : EventBody) (createdAt : Timestamp) :
    FleetRun :=
  match r.appendIdempotent key body createdAt with
  | .ok (_, r') => r'
  | .error _ => r

/-- The transactions on a run: appends with and without a delivery key or a lease, and all others. -/
inductive LogOp where
  | append (body : EventBody) (createdAt : Timestamp)
  | appendIdempotent (key : String) (body : EventBody) (createdAt : Timestamp)
  | appendIdempotentFenced (lease : RunLease) (now : Timestamp) (key : String) (body : EventBody)
      (createdAt : Timestamp)
  | other (op : StoreOp)

def FleetRun.apply (r : FleetRun) : LogOp → FleetRun
  | .append body at' => r.insertEvent none body at'
  | .appendIdempotent key body at' => r.deliver key body at'
  | .appendIdempotentFenced lease now key body at' =>
    match assertActiveRunLease r.store lease now with
    | .error _ => r
    | .ok () => r.deliver key body at'
  | .other op => { r with store := r.store.apply op }

/-- What a transaction does to the log: nothing, or one event whose key is new in its epoch. -/
inductive FleetRun.LogStep (r : FleetRun) : FleetRun → Prop
  | kept (s : RunStore) : LogStep r { r with store := s }
  | inserted {key : Option String} (body : EventBody) (createdAt : Timestamp)
      (new : ∀ e ∈ r.events, ¬ (e.executionEpoch = r.store.run.executionEpoch ∧
        e.deliveryKey = key ∧ key ≠ none)) : LogStep r (r.insertEvent key body createdAt)

structure FleetRun.Logged (r : FleetRun) : Prop where
  sequences : r.events.map (·.sequence) = List.range' 1 r.events.length
  next : r.nextEventSequence = r.events.length + 1
  keys : r.events.Pairwise fun e e' => ¬ (e.executionEpoch = e'.executionEpoch ∧
    e.deliveryKey = e'.deliveryKey ∧ e'.deliveryKey ≠ none)

namespace FleetRun

variable {r r' : FleetRun} {key : String}

theorem deliver_step (r : FleetRun) (key : String) (body : EventBody) (at' : Timestamp) :
    r.LogStep (r.deliver key body at') := by
  unfold deliver appendIdempotent
  generalize hfind : r.events.find? _ = found
  cases found with
  | some existing =>
    dsimp only
    split_ifs <;> exact .kept r.store
  | none =>
    refine .inserted body at' fun e he h => ?_
    simpa [h.1, h.2.1] using find?_eq_none.1 hfind e he

theorem apply_step (r : FleetRun) (op : LogOp) : r.LogStep (r.apply op) := by
  cases op with
  | append body at' => exact .inserted body at' fun _ _ h => h.2.2 rfl
  | appendIdempotent key body at' => exact r.deliver_step key body at'
  | appendIdempotentFenced lease now key body at' =>
    simp only [FleetRun.apply]
    split
    · exact .kept r.store
    · exact r.deliver_step key body at'
  | other op => exact .kept _

theorem LogStep.events (h : r.LogStep r') : r.events <+: r'.events := by
  cases h with
  | kept => exact prefix_refl _
  | inserted => exact prefix_append ..

theorem Logged.step (h : r.Logged) (hs : r.LogStep r') : r'.Logged := by
  cases hs with
  | kept => exact ⟨h.sequences, h.next, h.keys⟩
  | inserted body at' new =>
    refine ⟨?_, ?_, ?_⟩ <;> unfold insertEvent <;> dsimp only
    · rw [map_append, h.sequences, length_append, length_singleton, range'_1_concat, h.next,
        Nat.add_comm]
      rfl
    · rw [h.next, length_append, length_singleton]
    · refine pairwise_append.2 ⟨h.keys, pairwise_singleton .., ?_⟩
      intro e he e' he'
      cases mem_singleton.1 he'
      exact new e he

theorem Logged.foldl (h : r.Logged) (ops : List LogOp) :
    (ops.foldl FleetRun.apply r).Logged ∧ r.events <+: (ops.foldl FleetRun.apply r).events := by
  induction ops generalizing r with
  | nil => exact ⟨h, prefix_refl _⟩
  | cons op ops ih =>
    obtain ⟨hlogged, hkept⟩ := ih (h.step (r.apply_step op))
    exact ⟨hlogged, (r.apply_step op).events.trans hkept⟩

theorem logged_submit (x : Submission) : Logged { store := submit x } := ⟨rfl, rfl, .nil⟩

/-- The key of a stored event finds that event. -/
theorem Logged.find? (h : r.Logged) {e : AgentEventRecord} (he : e ∈ r.events)
    (hkey : e.deliveryKey = some key) (hepoch : e.executionEpoch = r.store.run.executionEpoch) :
    r.events.find? (fun e => e.executionEpoch = r.store.run.executionEpoch &&
      e.deliveryKey = some key) = some e := by
  generalize hfind : r.events.find? _ = found
  cases found with
  | none => simpa [hepoch, hkey] using find?_eq_none.1 hfind e he
  | some e' =>
    have hmatch := find?_some hfind
    rw [and_eq_true, decide_eq_true_eq, decide_eq_true_eq] at hmatch
    by_contra hne
    have : Std.Symm fun e e' : AgentEventRecord => ¬ (e.executionEpoch = e'.executionEpoch ∧
        e.deliveryKey = e'.deliveryKey ∧ e'.deliveryKey ≠ none) :=
      ⟨fun _ _ h hsame => h ⟨hsame.1.symm, hsame.2.1.symm, hsame.2.1 ▸ hsame.2.2⟩⟩
    exact h.keys.forall he (mem_of_find?_eq_some hfind) (fun heq => hne (heq ▸ rfl))
      (by simp [hepoch, hkey, hmatch])

end FleetRun

/-- **The event log of a run is numbered without gaps, only grows, and holds one event for each
delivery key of an epoch**: the key delivered again can only return that event. -/
theorem event_log_append_only (x : Submission) (ops later : List LogOp) :
    let r := ops.foldl FleetRun.apply { store := submit x }
    r.events.map (·.sequence) = range' 1 r.events.length ∧
      r.events <+: (later.foldl FleetRun.apply r).events ∧
      ∀ e ∈ r.events, ∀ key, e.deliveryKey = some key →
        e.executionEpoch = r.store.run.executionEpoch → ∀ body at', r.deliver key body at' = r ∧
          ∀ out, r.appendIdempotent key body at' = .ok out → out = (e, r) := by
  intro r
  have h : r.Logged := ((FleetRun.logged_submit x).foldl ops).1
  refine ⟨h.sequences, (h.foldl later).2, fun e he key hkey hepoch body at' => ?_⟩
  unfold FleetRun.deliver FleetRun.appendIdempotent
  rw [h.find? he hkey hepoch]
  dsimp only
  split_ifs
  · exact ⟨rfl, by simp [domainError]⟩
  · exact ⟨rfl, fun _ hout => (Except.ok.inj hout).symm⟩

section Streaming

def EventBody.storedType : EventBody → EventType
  | .runStarted .. => .runStarted
  | .contextBuildStarted .. => .contextBuildStarted
  | .modelRequestStarted .. => .modelRequestStarted
  | .modelTextDelta .. => .modelTextDelta
  | .toolCallReceived .. | .toolCallRejected .. => .modelToolCallReceived
  | .toolApprovalRequired .. => .toolApprovalRequired
  | .toolStarted .. => .toolStarted
  | .toolOutput _ _ _ stderr => if stderr then .toolStderr else .toolStdout
  | .toolCompleted .. => .toolCompleted
  | .checkpointCreated .. => .checkpointCreated
  | .runRetryScheduled .. => .runRetryScheduled
  | .runCompleted .. => .runCompleted
  | .runFailed .. => .runFailed

-- `payload` is `to_json_object` of an event's payload, `header` the size of its other fields
variable (reader : EventReader) (payload : EventBody → PyValue .fields)
  (header : AgentEventRecord → { size : ℕ // size ≤ 1024 })

/-- A row with the payload that its JSONB column gives back. -/
def AgentEventRecord.stored (e : AgentEventRecord) : StoredEvent :=
  ⟨e.sequence, e.body.storedType, (payload e.body).stored, (header e).1, (header e).2⟩

/-- A client of `stream`, with what it has received. -/
structure EventClient where
  run : FleetRun
  cursor : ℕ
  received : List StoredEvent := []

def EventClient.log (c : EventClient) : List StoredEvent :=
  c.run.events.map (AgentEventRecord.stored payload header)

/-- A transaction of the run, or a page of which the client takes the first events before it goes
on, or comes back, with the sequence of the last one. -/
inductive StreamOp where
  | transaction (op : LogOp)
  | poll (limit taken : ℕ)

def EventClient.apply (c : EventClient) : StreamOp → EventClient
  | .transaction op => { c with run := c.run.apply op }
  | .poll limit taken =>
    match reader.readPage (c.log payload header) limit c.cursor with
    | .error _ => c
    | .ok page =>
      let events := page.events.take taken
      { c with
        cursor := (events.getLast?.map StoredEvent.sequence).getD c.cursor
        received := c.received ++ events }

theorem contiguous_of_range' {es : List StoredEvent} {n : ℕ}
    (h : es.map StoredEvent.sequence = range' n es.length) : Contiguous n es := by
  induction es generalizing n with
  | nil => trivial
  | cons e es ih =>
    rw [map_cons, length_cons, range'_succ] at h
    injection h with hhead htail
    exact ⟨hhead, ih htail⟩

/-- What the client has received is where the log after the cursor it started from begins. -/
structure EventClient.Follows (after : ℕ) (c : EventClient) : Prop where
  logged : c.run.Logged
  received : c.received <+: (c.log payload header).filter (after < ·.sequence)
  cursor : c.cursor = after + c.received.length

variable {reader payload header} {c : EventClient} {after : ℕ}

theorem EventClient.Follows.contiguous (h : c.Follows payload header after) : Contiguous 1 (c.log payload header) := by
  apply contiguous_of_range'
  rw [EventClient.log, map_map, length_map]
  exact h.logged.sequences

theorem EventClient.Follows.rest (h : c.Follows payload header after) :
    (c.log payload header).filter (after < ·.sequence) =
      c.received ++ (c.log payload header).filter (c.cursor < ·.sequence) := by
  obtain ⟨rest, hrest⟩ := h.received
  rw [h.cursor, h.contiguous.next hrest.symm, hrest]

theorem EventClient.Follows.apply (h : c.Follows payload header after) (op : StreamOp) :
    (c.apply reader payload header op).Follows payload header after := by
  cases op with
  | transaction op =>
    have hstep := c.run.apply_step op
    exact ⟨h.logged.step hstep, h.received.trans ((hstep.events.map _).filter _), h.cursor⟩
  | poll limit taken =>
    unfold EventClient.apply
    dsimp only
    split
    next => exact h
    next page hread =>
      obtain ⟨-, -, es', hrows, -⟩ := EventReader.readPage_ok h.contiguous hread
      have hes := hrows ▸ h.contiguous.later (Nat.zero_le c.cursor)
      rw [← take_append_drop taken page.events, append_assoc] at hes hrows
      refine ⟨h.logged, ?_, ?_⟩
      · show _ <+: (c.log payload header).filter _
        rw [h.rest, hrows, ← append_assoc]
        exact prefix_append ..
      · show _ = after + (c.received ++ _).length
        rw [(contiguous_append.1 hes).1.cursor, h.cursor, length_append, Nat.add_assoc]

variable (reader payload header)

/-- **A client that follows a run receives its log, without a gap, a repetition or a change of order**,
whatever is appended meanwhile and wherever it stops within a page; when the events it still lacks
validate again as they are read, its next poll delivers some. -/
theorem stream_follows_log (x : Submission) (after : ℕ) (ops : List StreamOp) :
    let c := ops.foldl (EventClient.apply reader payload header) ⟨{ store := submit x }, after, []⟩
    let log := (c.log payload header).filter (after < ·.sequence)
    c.received <+: log ∧ c.cursor = after + c.received.length ∧
      ((∀ e ∈ log, c.cursor < e.sequence → reader.payloadIssue e.eventType e.payload = none) →
        c.received ≠ log → ∀ limit, 1 ≤ limit ∧ limit ≤ 1000 → ∃ page, page.events ≠ [] ∧
          reader.readPage (c.log payload header) limit c.cursor = .ok page ∧
            c.received ++ page.events <+: log) := by
  intro c log
  have h : c.Follows payload header after := by
    refine foldlRecOn ops _ ⟨FleetRun.logged_submit x, List.nil_prefix, rfl⟩ ?_
    exact fun c h op _ => h.apply op
  refine ⟨h.received, h.cursor, fun hvalid hbehind limit hlim => ?_⟩
  have hlog : log = c.received ++ (c.log payload header).filter (c.cursor < ·.sequence) := h.rest
  obtain ⟨page, hread, hprogress⟩ := reader.readPage_valid h.contiguous hlim fun e he =>
    hvalid e (hlog ▸ mem_append_right _ he) (of_decide_eq_true (mem_filter.1 he).2)
  obtain ⟨-, -, es', hrows, -⟩ := EventReader.readPage_ok h.contiguous hread
  refine ⟨page, hprogress fun hnone => hbehind ?_, hread, ?_⟩
  · rw [hlog, hnone, append_nil]
  · rw [hlog, hrows, ← append_assoc]
    exact prefix_append ..

end Streaming

end AgentPlatform
