/-
**Reading the event log in pages.**

`PostgresEventStore._read_page` (`event_store/postgres.py`) builds a `StoredEvent` from every row it
reads, which validates the payload again as the JSONB column gives it back, and cuts a page by the
number of its events and by their size.

Main definitions:

* `EventReader.payloadIssue` — the checks of a typed payload: its argument hash and its size
* `EventReader.readPage` — one page
* `EventReader.Delivers` — page after page, what a reader gets

Main results:

* `EventReader.readPage_ok`, `EventReader.readPage_valid` — what a page holds, and when there is one
* `paging_lossless_iff` — a reader gets every later event exactly when they all validate again
-/

import AgentPlatform.ArgumentHash

namespace AgentPlatform

open List

/-! ### Events -/

inductive EventType where
  | runStarted | contextBuildStarted | modelRequestStarted | modelTextDelta | modelToolCallReceived
  | toolApprovalRequired | toolStarted | toolStdout | toolStderr | toolCompleted | checkpointCreated
  | runRetryScheduled | runCompleted | runFailed
  deriving DecidableEq

/-- The payloads with arguments and their hash. -/
def EventType.checksHash : EventType → Bool
  | .modelToolCallReceived | .toolApprovalRequired => true
  | _ => false

/-- A row as the reader gets it, and the `StoredEvent` that is built from it.  `header` is the size
of all of its JSON but the payload: of a UUID, an epoch, a sequence, a type and a time. -/
structure StoredEvent where
  sequence : ℕ
  eventType : EventType
  payload : PyValue .fields
  header : ℕ
  header_le : header ≤ 1024

structure EventPage where
  events : List StoredEvent
  nextAfter : ℕ
  hasMore : Bool

/-- The reader of a run.  `jsonSize` is the size of what `model_dump_json` writes for a payload. -/
structure EventReader where
  runId : Uuid
  sha256 : List Char → String
  jsonSize : PyValue .fields → ℕ
  maxPageBytes : ℕ
  in_range : 1114112 ≤ maxPageBytes ∧ maxPageBytes ≤ 4194304
  envelope : ℕ → Bool → ℕ
  envelope_le : ∀ nextAfter hasMore, envelope nextAfter hasMore ≤ 1024

def Contiguous : ℕ → List StoredEvent → Prop
  | _, [] => True
  | n, e :: es => e.sequence = n ∧ Contiguous (n + 1) es

instance : ∀ (n : ℕ) (es : List StoredEvent), Decidable (Contiguous n es)
  | _, [] => isTrue trivial
  | n, _ :: es => @instDecidableAnd _ _ _ (instDecidableContiguous (n + 1) es)

namespace EventReader

variable (r : EventReader)

/-- `validate_outcome`, `validate_argument_hash` and `validate_concrete_event` of a typed event. -/
def payloadIssue (eventType : EventType) (payload : PyValue .fields) : Option String :=
  let sizeIssue :=
    if 1048576 < r.jsonSize payload then
      some "serialized event payload exceeds 1048576-byte limit"
    else none
  match eventType.checksHash, payload.get? "arguments", payload.get? "argument_hash" with
  | true, some (.object arguments), some (.str argumentHash) =>
    if argumentHash ≠ canonicalArgumentHash r.sha256 arguments then
      some "argument_hash does not match canonical arguments"
    else sizeIssue
  | _, _, _ => sizeIssue

/-- The row of an event that `append` has accepted. -/
def Appended (e : StoredEvent) : Prop :=
  ∃ payload : PyValue .fields, r.payloadIssue e.eventType payload = none ∧
    payload.jsonb = .ok e.payload

/-- `_stored_event`: the payload is checked again. -/
def storedEvent (row : StoredEvent) : Except Failure StoredEvent :=
  match r.payloadIssue row.eventType row.payload with
  | some message => .error (.validation message)
  | none => .ok row

def Valid (row : StoredEvent) : Prop := r.payloadIssue row.eventType row.payload = none

def size (e : StoredEvent) : ℕ := e.header + r.jsonSize e.payload

def validate (page : EventPage) : Except Failure EventPage :=
  let sizes := page.events.map r.size
  if 1000 < page.events.length then
    .error (.validation "Tuple should have at most 1000 items after validation")
  else if ¬ page.events.Pairwise (·.sequence < ·.sequence) then
    .error (.validation "event page sequences must be strictly increasing")
  else if ¬ Contiguous ((page.events.head?.map StoredEvent.sequence).getD 0) page.events then
    .error (.validation "event page sequences must be contiguous")
  else if page.events ≠ [] ∧ some page.nextAfter ≠ page.events.getLast?.map (·.sequence) then
    .error (.validation "next_after must equal the final event sequence")
  else if page.events.isEmpty ∧ page.hasMore then
    .error (.validation "an empty event page may not report more events")
  else if 4194304 < r.envelope page.nextAfter page.hasMore + sizes.sum + (sizes.length - 1) then
    .error (.validation "serialized event page exceeds 4194304-byte limit")
  else .ok page

/-- The loop of `_read_page`. -/
def retain (limit : ℕ) : List StoredEvent → ℕ → List StoredEvent → ℕ →
    Except Failure (List StoredEvent × Bool)
  | [], _, retained, _ => .ok (retained, false)
  | row :: rows, expected, retained, bytes =>
    match r.storedEvent row with
    | .error f => .error f
    | .ok event =>
      if event.sequence ≠ expected then
        domainError "event_sequence_gap" "the durable event sequence is not contiguous" true
          (.ofList [("run_id", .str (uuidText r.runId)),
            ("expected_sequence", .num expected.repr)])
      else if limit ≤ retained.length ∨ r.maxPageBytes < bytes + (r.size event + 1) then
        .ok (retained, true)
      else retain limit rows (expected + 1) (retained ++ [event]) (bytes + (r.size event + 1))

def readPage (log : List StoredEvent) (limit after : ℕ) : Except Failure EventPage :=
  if limit < 1 ∨ 1000 < limit then .error (.validation "limit must be in [1, 1000]")
  else
    match r.retain limit ((log.filter (after < ·.sequence)).take (limit + 1)) (after + 1) [] 1024 with
    | .error e => .error e
    | .ok (events, hasMore) =>
      r.validate ⟨events, (events.getLast?.map StoredEvent.sequence).getD after, hasMore⟩

/-- The events that a reader gets page after page, each from the cursor of the one before. -/
inductive Delivers (log : List StoredEvent) (limit : ℕ) : ℕ → List StoredEvent → Prop
  | last {after : ℕ} {page : EventPage} (read : r.readPage log limit after = .ok page)
      (ended : page.hasMore = false) : Delivers log limit after page.events
  | more {after : ℕ} {page : EventPage} {rest : List StoredEvent}
      (read : r.readPage log limit after = .ok page) (more : page.hasMore = true)
      (progress : page.events ≠ []) (next : Delivers log limit page.nextAfter rest) :
      Delivers log limit after (page.events ++ rest)

end EventReader

/-! ### What a page holds -/

section
variable {r : EventReader} {log rows es es' : List StoredEvent} {limit after n bytes : ℕ}

theorem Contiguous.bounds (h : Contiguous n es) :
    ∀ e ∈ es, n ≤ e.sequence ∧ e.sequence < n + es.length := by
  induction es generalizing n with
  | nil => simp
  | cons e es ih =>
    obtain ⟨hseq, hes⟩ := h
    intro e' he'
    rw [length_cons]
    rcases mem_cons.1 he' with rfl | he'
    · omega
    · have := ih hes e' he'
      omega

theorem Contiguous.pairwise (h : Contiguous n es) : es.Pairwise (·.sequence < ·.sequence) := by
  induction es generalizing n with
  | nil => exact .nil
  | cons e es ih => exact .cons (fun e' he' => h.1 ▸ (h.2.bounds e' he').1) (ih h.2)

theorem contiguous_append :
    Contiguous n (es ++ es') ↔ Contiguous n es ∧ Contiguous (n + es.length) es' := by
  induction es generalizing n with
  | nil => simp [Contiguous]
  | cons e es ih => simp [Contiguous, ih, and_assoc, Nat.add_assoc, Nat.add_comm 1]

theorem Contiguous.later (h : Contiguous (n + 1) log) (hn : n ≤ after) :
    Contiguous (after + 1) (log.filter (after < ·.sequence)) := by
  induction log generalizing n with
  | nil => trivial
  | cons e es ih =>
    by_cases hlt : after < e.sequence
    · obtain rfl : n = after := by have := h.1; omega
      rwa [filter_eq_self.2]
      exact fun e' he' => decide_eq_true (h.bounds e' he').1
    · rw [filter_cons_of_neg (by simpa using hlt)]
      exact ih h.2 (by have := h.1; omega)

theorem Contiguous.next (h : Contiguous 1 log) (hs : log.filter (after < ·.sequence) = es ++ es') :
    log.filter (after + es.length < ·.sequence) = es' := by
  have hc := h.later (Nat.zero_le after)
  rw [hs, contiguous_append] at hc
  calc log.filter (after + es.length < ·.sequence)
      = (log.filter (after < ·.sequence)).filter (after + es.length < ·.sequence) := by
        rw [filter_filter]
        exact filter_congr fun e _ => by grind
    _ = es' := by
        rw [hs, filter_append, filter_eq_nil_iff.2, filter_eq_self.2, nil_append]
        · exact fun e he => decide_eq_true (by have := hc.2.bounds e he; omega)
        · exact fun e he => by have := hc.1.bounds e he; simp; omega

theorem EventReader.Valid.storedEvent {e : StoredEvent} (h : r.Valid e) : r.storedEvent e = .ok e := by
  rw [EventReader.storedEvent, h]

theorem EventReader.storedEvent_ok {row e : StoredEvent} (h : r.storedEvent row = .ok e) :
    row = e ∧ r.Valid row := by
  unfold EventReader.storedEvent at h
  split at h
  · cases h
  next hissue => exact ⟨Except.ok.inj h, hissue⟩

/-- The limit of a payload leaves room for its event in every page. -/
theorem EventReader.Valid.fits {e : StoredEvent} (h : r.Valid e) :
    1024 + (r.size e + 1) ≤ r.maxPageBytes := by
  have hsize : r.jsonSize e.payload ≤ 1048576 := by
    by_contra hlarge
    unfold EventReader.Valid payloadIssue at h
    dsimp only at h
    rw [if_pos (by omega)] at h
    split at h
    · split at h <;> cases h
    · cases h
  have := e.header_le
  have := r.in_range.1
  rw [EventReader.size]
  omega

theorem EventReader.retain_ok {kept out : List StoredEvent} {more : Bool} (hk : kept.length ≤ limit)
    (h : r.retain limit rows n kept bytes = .ok (out, more)) :
    ∃ es es', rows = es ++ es' ∧ out = kept ++ es ∧ more = !es'.isEmpty ∧ out.length ≤ limit ∧
      ∀ e ∈ es, r.Valid e := by
  induction rows generalizing n kept bytes with
  | nil =>
    cases h
    exact ⟨[], [], rfl, (append_nil _).symm, rfl, hk, by simp⟩
  | cons row rows ih =>
    rw [retain] at h
    split at h
    · cases h
    next event hevent =>
      obtain ⟨rfl, hvalid⟩ := EventReader.storedEvent_ok hevent
      split at h
      · cases h
      · split at h
        · cases h
          exact ⟨[], row :: rows, rfl, (append_nil _).symm, rfl, hk, by simp⟩
        next hcut =>
          obtain ⟨es, es', rfl, rfl, hmore, hlen, hes⟩ := ih (by simp; omega) h
          exact ⟨row :: es, es', rfl, by simp, hmore, hlen, forall_mem_cons.2 ⟨hvalid, hes⟩⟩

theorem EventReader.retain_valid (r : EventReader) (kept : List StoredEvent) (bytes : ℕ)
    (h : Contiguous n rows) (hk : kept.length ≤ limit) (hv : ∀ e ∈ rows, r.Valid e) :
    ∃ es es', rows = es ++ es' ∧
      r.retain limit (rows.take (limit - kept.length + 1)) n kept bytes =
        .ok (kept ++ es, !es'.isEmpty) ∧
      (kept ++ es).length ≤ limit ∧
      (es ≠ [] → bytes + (es.map fun e => r.size e + 1).sum ≤ r.maxPageBytes) ∧
      ∀ e ∈ es'.head?, limit ≤ (kept ++ es).length ∨
        r.maxPageBytes < bytes + (es.map fun e => r.size e + 1).sum + (r.size e + 1) := by
  induction rows generalizing n kept bytes with
  | nil => exact ⟨[], [], rfl, by simp [retain], by simpa using hk, by simp, by simp⟩
  | cons e rows ih =>
    obtain ⟨hseq, hrows⟩ := h
    obtain ⟨hvalid, hv⟩ := forall_mem_cons.1 hv
    rw [take_succ_cons]
    by_cases hcut : limit ≤ kept.length ∨ r.maxPageBytes < bytes + (r.size e + 1)
    · exact ⟨[], e :: rows, rfl, by simp [retain, hvalid.storedEvent, hseq, hcut],
        by simpa using hk, by simp, by simpa using hcut⟩
    · obtain ⟨hroom, hfit⟩ := not_or.1 hcut
      have hlen' : limit - kept.length = limit - (kept ++ [e]).length + 1 := by simp; omega
      obtain ⟨es, es', rfl, hret, hlen, hsum, hnext⟩ :=
        ih (kept ++ [e]) (bytes + (r.size e + 1)) hrows (by simp; omega) hv
      refine ⟨e :: es, es', rfl, ?_, by simpa using hlen, fun _ => ?_, fun e' he' => ?_⟩
      · rw [hlen']
        simpa [retain, hvalid.storedEvent, hseq, hcut] using hret
      · cases es with
        | nil => simpa using hfit
        | cons a l =>
          have := hsum (by simp)
          simp only [map_cons, sum_cons] at this ⊢
          omega
      · simpa [Nat.add_assoc] using hnext e' he'

theorem Contiguous.cursor (h : Contiguous (after + 1) es) :
    (es.getLast?.map StoredEvent.sequence).getD after = after + es.length := by
  cases es using reverseRecOn with
  | nil => rfl
  | append_singleton es e =>
    have he : e.sequence = _ := (contiguous_append.1 h).2.1
    simp [he]
    omega

theorem EventReader.validate_ok {more : Bool} (h : Contiguous (after + 1) es)
    (hlen : es.length ≤ 1000)
    (hsum : es ≠ [] → 1024 + (es.map fun e => r.size e + 1).sum ≤ r.maxPageBytes)
    (hmore : es = [] → more = false) :
    r.validate ⟨es, after + es.length, more⟩ = .ok ⟨es, after + es.length, more⟩ := by
  have hsizes : 1024 + (es.map r.size).sum + es.length ≤ 4194304 := by
    rcases eq_or_ne es [] with rfl | hes
    · simp
    · have := (hsum hes).trans r.in_range.2
      simp only [sum_map_add, map_const', sum_replicate] at this
      grind
  have henv := r.envelope_le (after + es.length) more
  have hcur := h.cursor
  unfold validate
  dsimp only
  rw [if_neg (by omega), if_neg (not_not_intro h.pairwise), if_neg, if_neg, if_neg, if_neg]
  · rw [length_map]
    omega
  · rintro ⟨hes, rfl⟩
    cases hmore (List.isEmpty_iff.1 hes)
  · rintro ⟨hes, h'⟩
    obtain ⟨e, he⟩ := Option.ne_none_iff_exists'.1 (mt getLast?_eq_none_iff.1 hes)
    simp_all
  · cases es with
    | nil => exact not_not_intro trivial
    | cons e es =>
      refine not_not_intro ?_
      rw [← h.1] at h
      exact h

/-- A page begins the events after its cursor, and every one of its events has been validated. -/
theorem EventReader.readPage_ok {page : EventPage} (h : Contiguous 1 log)
    (hread : r.readPage log limit after = .ok page) :
    1 ≤ limit ∧ limit ≤ 1000 ∧ ∃ es', log.filter (after < ·.sequence) = page.events ++ es' ∧
      page.nextAfter = after + page.events.length ∧ page.hasMore = !es'.isEmpty ∧
      ∀ e ∈ page.events, r.Valid e := by
  unfold readPage at hread
  split at hread
  · cases hread
  next hlim =>
    split at hread
    · cases hread
    next events more hret =>
      obtain ⟨es, es', hrows, hes, rfl, hlen, hvalid⟩ := EventReader.retain_ok (Nat.zero_le _) hret
      obtain rfl : events = es := hes
      rename' events => es
      have hpage : page = ⟨es, (es.getLast?.map StoredEvent.sequence).getD after, !es'.isEmpty⟩ := by
        unfold validate at hread
        dsimp only at hread
        split_ifs at hread
        exact (Except.ok.inj hread).symm
      subst hpage
      set later := log.filter (after < ·.sequence) with hlater
      have hsplit : later = es ++ (es' ++ later.drop (limit + 1)) := by
        rw [← append_assoc, ← hrows, take_append_drop]
      have hc := h.later (Nat.zero_le after)
      rw [← hlater, hsplit, contiguous_append] at hc
      refine ⟨by omega, by omega, _, hsplit, hc.1.cursor, ?_, hvalid⟩
      cases es' with
      | cons => rfl
      | nil =>
        -- the page ended with the rows that were read, which are fewer than were asked for
        have : later.length ≤ limit := by
          have := congrArg length hrows
          simp only [length_take, append_nil] at this hlen
          omega
        simp [drop_eq_nil_of_le (this.trans (Nat.le_succ _))]

/-- Where all later events validate again there is a page, with an event if there is a later one. -/
theorem EventReader.readPage_valid (r : EventReader) (h : Contiguous 1 log)
    (hlim : 1 ≤ limit ∧ limit ≤ 1000)
    (hv : ∀ e ∈ log.filter (after < ·.sequence), r.Valid e) :
    ∃ page, r.readPage log limit after = .ok page ∧
      (log.filter (after < ·.sequence) ≠ [] → page.events ≠ []) := by
  have hc := h.later (Nat.zero_le after)
  obtain ⟨es, es', hrows, hret, hlen, hsum, hnext⟩ :=
    r.retain_valid [] 1024 hc (Nat.zero_le limit) hv
  rw [hrows, contiguous_append] at hc
  simp only [nil_append, length_nil, Nat.sub_zero] at hret hlen hnext
  have hprogress : es = [] → es' = [] := by
    rintro rfl
    cases es' with
    | nil => rfl
    | cons e rest =>
      have hbig := (hnext e rfl).resolve_left (by simp; omega)
      have hfits := (hv e (by rw [hrows]; simp)).fits
      simp only [map_nil, sum_nil] at hbig
      omega
  refine ⟨⟨es, after + es.length, !es'.isEmpty⟩, ?_, ?_⟩
  · unfold readPage
    rw [if_neg (by omega), hret]
    simp only [hc.1.cursor]
    exact EventReader.validate_ok hc.1 (hlen.trans hlim.2) hsum (by simpa using hprogress)
  · rintro hne rfl
    exact hne (by rw [hrows, hprogress rfl, append_nil])

theorem EventReader.Delivers.valid (h : Contiguous 1 log) (hd : r.Delivers log limit after es) :
    ∀ e ∈ es, r.Valid e := by
  have page_valid {after : ℕ} {page : EventPage} (hr : r.readPage log limit after = .ok page) :
      ∀ e ∈ page.events, r.Valid e := by
    obtain ⟨-, -, -, -, -, -, hvalid⟩ := EventReader.readPage_ok h hr
    exact hvalid
  induction hd with
  | last read _ => exact page_valid read
  | more read _ _ _ ih => exact fun e he => (mem_append.1 he).elim (page_valid read e) (ih e)

theorem EventReader.delivers_of_valid (h : Contiguous 1 log) (hlim : 1 ≤ limit ∧ limit ≤ 1000)
    (hv : ∀ e ∈ log.filter (after < ·.sequence), r.Valid e) :
    r.Delivers log limit after (log.filter (after < ·.sequence)) := by
  -- on the number of events that are still to be read
  induction hk : (log.filter (after < ·.sequence)).length using Nat.strong_induction_on
    generalizing after with
  | _ k ih =>
    obtain ⟨page, hread, hprogress⟩ := r.readPage_valid h hlim hv
    obtain ⟨-, -, es', hs, hnextAfter, hmore, -⟩ := EventReader.readPage_ok h hread
    rw [hs] at hv hk hprogress ⊢
    cases es' with
    | nil =>
      rw [append_nil]
      exact .last hread hmore
    | cons e rest =>
      have hes : page.events ≠ [] := hprogress (by simp)
      have hnext := h.next hs
      refine .more hread hmore hes ?_
      rw [hnextAfter, ← hnext]
      refine ih _ ?_ (fun e he => hv e (mem_append_right _ (hnext ▸ he))) rfl
      have := length_pos_iff.2 hes
      rw [hnext, ← hk, length_append]
      omega

/-- **Paging delivers every later event, once and in order, exactly when they all validate again.** -/
theorem paging_lossless_iff (r : EventReader) (log : List StoredEvent) (limit after : ℕ)
    (hlog : Contiguous 1 log) (hlim : 1 ≤ limit ∧ limit ≤ 1000) :
    r.Delivers log limit after (log.filter (after < ·.sequence)) ↔
      ∀ e ∈ log, after < e.sequence → r.payloadIssue e.eventType e.payload = none := by
  refine ⟨fun hd e he hlt => hd.valid hlog e (mem_filter.2 ⟨he, decide_eq_true hlt⟩), ?_⟩
  intro hv
  refine EventReader.delivers_of_valid hlog hlim fun e he => ?_
  exact hv e (mem_filter.1 he).1 (of_decide_eq_true (mem_filter.1 he).2)

end

def smallReader : EventReader :=
  ⟨7, String.ofList, fun _ => 200, 1114112, by decide, fun _ _ => 60, fun _ _ => by decide⟩

/-- A received call with the given arguments. -/
def receivedCall (arguments : PyValue .fields) : PyValue .fields :=
  .field "model_call_id" (.str "model-1") (.field "tool_call_id" (.str "call-1")
    (.field "tool_name" (.str "read_file") (.field "arguments" (.object arguments)
      (.field "argument_hash" (.str (canonicalArgumentHash String.ofList arguments))
        (.field "error" .null .noFields)))))

def receivedEvent (sequence : ℕ) (arguments : PyValue .fields) : StoredEvent :=
  ⟨sequence, .modelToolCallReceived, (receivedCall arguments).stored, 260, by decide⟩

theorem paging_small_log :
    let log := [receivedEvent 1 halfWidth, receivedEvent 2 halfWidth]
    smallReader.Delivers log 1 0 log :=
  (paging_lossless_iff smallReader [receivedEvent 1 halfWidth, receivedEvent 2 halfWidth] 1 0
    (by decide) (by decide)).2 (by decide +kernel)

/-- An event with the arguments `{"n": 1e16}`, which `append` accepts, stops every reader before it. -/
theorem paging_stuck :
    ¬ ∀ (r : EventReader) (log : List StoredEvent) (limit after : ℕ), Contiguous 1 log →
      (∀ e ∈ log, r.Appended e) → 1 ≤ limit ∧ limit ≤ 1000 →
        r.Delivers log limit after (log.filter (after < ·.sequence)) := by
  intro h
  have happended : ∀ e ∈ [receivedEvent 1 largeFloat], smallReader.Appended e := by
    rintro e he
    cases mem_singleton.1 he
    exact ⟨receivedCall largeFloat, by decide +kernel, if_pos (by decide)⟩
  have hvalid := (h smallReader [receivedEvent 1 largeFloat] 1 0 (by decide) happended
    (by decide)).valid (by decide) (receivedEvent 1 largeFloat) mem_cons_self
  have hissue : smallReader.payloadIssue .modelToolCallReceived (receivedCall largeFloat).stored =
      some "argument_hash does not match canonical arguments" := by decide +kernel
  cases hissue.symm.trans hvalid

end AgentPlatform
