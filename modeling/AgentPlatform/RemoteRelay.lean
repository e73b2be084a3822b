/-
**The remote sandbox relay: events as lines of JSON over HTTP.**
-/

import AgentPlatform.JsonText
import AgentPlatform.LineFraming
import AgentPlatform.LoopTypes

namespace AgentPlatform

open Json JsonObject LineFraming ToolOutputChannel List

/-- The line boundaries of `str.splitlines`. -/
def lineBoundaries : LineFraming.Boundaries Char where
  boundary c := [10, 11, 12, 13, 28, 29, 30, 133, 8232, 8233].contains c.toNat
  joined b c := b.toNat = 13 && c.toNat = 10
  joined_boundary := by
    intro b c h
    simp only [and_eq_true, decide_eq_true_eq] at h
    rw [h.2]
    rfl

def isOpenBoundary (c : Char) : Bool := [133, 8232, 8233].contains c.toNat

theorem boundary_iff_of_printable {c : Char} (h : 32 ≤ c.toNat) :
    lineBoundaries.boundary c = isOpenBoundary c := by
  simp only [lineBoundaries, isOpenBoundary, contains_cons, contains_nil]
  have hne : ∀ n < 32, (c.toNat == n) = false := by
    intro n hn
    rw [beq_eq_false_iff_ne]
    omega
  simp [hne 10 (by decide), hne 11 (by decide), hne 12 (by decide), hne 13 (by decide),
    hne 28 (by decide), hne 29 (by decide), hne 30 (by decide)]

theorem le_of_isOpenBoundary {c : Char} (h : isOpenBoundary c) : 128 ≤ c.toNat := by
  simp only [isOpenBoundary, contains_cons, contains_nil, or_eq_true,
    beq_iff_eq, Bool.or_false] at h
  omega

theorem not_mem_ascii {c : Char} (hc : 128 ≤ c.toNat) (s : String)
    (hs : s.toList.all (fun d => d.toNat < 128) = true) : c ∉ s.toList := by
  intro hmem
  have hlt := all_eq_true.1 hs c hmem
  simp only [decide_eq_true_eq] at hlt
  omega

def utf8Bytes (line : List Char) : ℕ := (line.map Char.utf8Size).sum

structure NodeAgentError where
  code : String
  message : String
  retryable : Bool := false
  deriving DecidableEq

structure EventFormat (E : Type) where
  fields : E → JsonObject
  terminal : E → Bool
  texts : E → List String
  numeric : ∀ e, (fields e).numeric = true
  injective : Function.Injective fields
  texts_iff : ∀ e, ∀ c : Char, 128 ≤ c.toNat →
    ((∃ s ∈ (fields e).texts, c ∈ s.toList) ↔ ∃ s ∈ texts e, c ∈ s.toList)

inductive StreamEnvelope (E : Type) where
  | event (event : E)
  | error (error : NodeAgentError)

section Envelopes

variable {E : Type} (F : EventFormat E)

def eventEnvelope (e : E) : Json :=
  .obj (.ofList [("type", .str "event"), ("event", .obj (F.fields e))])

def eventLine (e : E) : List Char := (eventEnvelope F e).render

def errorLine (e : NodeAgentError) : List Char :=
  (Json.obj (.ofList
    [("type", .str "error"), ("error", .obj (.ofList
        [("code", .str e.code), ("message", .str e.message), ("retryable", .bool e.retryable)]))])).render

/-- `TypeAdapter(…).validate_json` on the lines of a stream. -/
structure EnvelopeReader where
  decode : List Char → Option (StreamEnvelope E)
  decode_event : ∀ e, decode (eventLine F e) = some (.event e)
  decode_incomplete : ∀ e line, line <+: eventLine F e → line ≠ eventLine F e → decode line = none

theorem eventEnvelope_numeric (e : E) : (eventEnvelope F e).numeric := by
  simp [eventEnvelope, Json.numeric, ofList, JsonObject.numeric, F.numeric]

theorem eventLine_ne_nil (e : E) : eventLine F e ≠ [] := by
  simp [eventLine, eventEnvelope, Json.render]

variable {e : E} {rest : List (List Char)} {events : List E}

theorem eventLine_append_inj {e' : E} {rest : List Char}
    (h : eventLine F e ++ rest = eventLine F e') : e = e' ∧ rest = [] := by
  have h' : (eventEnvelope F e).render ++ rest = (eventEnvelope F e').render ++ [] := by
    rw [append_nil]
    exact h
  obtain ⟨he, hrest⟩ := render_append_inj _ _ (eventEnvelope_numeric F e)
    (eventEnvelope_numeric F e') (.inl rfl) h'
  simp only [eventEnvelope, ofList, obj.injEq, JsonObject.cons.injEq, true_and,
    and_true] at he
  exact ⟨F.injective he, hrest⟩

open Classical in
/-- **There is such a reader**. -/
noncomputable def EnvelopeReader.canonical : EnvelopeReader F where
  decode line := if h : ∃ e, eventLine F e = line then some (.event h.choose) else none
  decode_event := by
    intro e
    have h : ∃ e', eventLine F e' = eventLine F e := ⟨e, rfl⟩
    have hchosen : eventLine F h.choose ++ [] = eventLine F e := by
      rw [append_nil]
      exact h.choose_spec
    rw [dif_pos h, (eventLine_append_inj F hchosen).1]
  decode_incomplete := by
    rintro e line ⟨rest, hrest⟩ hne
    rw [dif_neg]
    rintro ⟨e', rfl⟩
    obtain ⟨rfl, -⟩ := eventLine_append_inj F hrest
    exact hne rfl

inductive HandlerEnd where
  | done
  | failed (error : NodeAgentError)

/-- The lines of the node agent's `stream()`. -/
def nodeLines (after missing : String) (ending : HandlerEnd) : Bool → List E → List (List Char)
  | terminal, [] =>
    match ending with
    | .failed error => [errorLine error]
    | .done =>
      if terminal then []
      else [errorLine { code := "sandbox_protocol_error", message := missing }]
  | terminal, e :: rest =>
    if terminal then [errorLine { code := "sandbox_protocol_error", message := after }]
    else eventLine F e :: nodeLines after missing ending (F.terminal e) rest

def nodeText (after missing : String) (ending : HandlerEnd) (events : List E) : List Char :=
  LineFraming.frame '\n' (nodeLines F after missing ending false events)

structure RelayErrors where
  limitCode : String
  limitMessage : String
  protocolCode : String
  afterMessage : String
  missingMessage : String
  failedMessage : String
  failedDetails : JsonObject := .nil

variable {F}

def receive (reader : EnvelopeReader F) (errors : RelayErrors) (limit : ℕ) :
    Bool → ℕ → List (List Char) → List E × Option ErrorDetail
  | terminal, _, [] =>
    ([], if terminal then none
      else some
        { code := errors.protocolCode, message := errors.missingMessage, retryable := true
          details := .nil })
  | terminal, observed, line :: rest =>
    if line = [] then receive reader errors limit terminal observed rest
    else
      let observed' := observed + (utf8Bytes line + 1)
      if limit < observed' then
        ([], some
          { code := errors.limitCode, message := errors.limitMessage, retryable := false
            details := .nil })
      else
        match reader.decode line with
        | none =>
          ([], some
            { code := "sandbox_node_unavailable", message := errors.failedMessage
              retryable := true, details := errors.failedDetails })
        | some (.error e) =>
          ([], some
            { code := e.code, message := e.message, retryable := e.retryable
              details := .nil })
        | some (.event e) =>
          if terminal then
            ([], some
              { code := errors.protocolCode, message := errors.afterMessage
                retryable := false, details := .nil })
          else
            let (events, ended) := receive reader errors limit (F.terminal e) observed' rest
            (e :: events, ended)

def wireBytes (F : EventFormat E) (events : List E) : ℕ :=
  (events.map fun e => utf8Bytes (eventLine F e) + 1).sum

def LineSafe (F : EventFormat E) (e : E) : Prop :=
  ∀ s ∈ F.texts e, ∀ c ∈ s.toList, isOpenBoundary c = false

def Complete (F : EventFormat E) (events : List E) : Prop :=
  ∃ before last, events = before ++ [last] ∧ (∀ e ∈ before, F.terminal e = false) ∧
    F.terminal last = true

theorem nodeLines_complete (h : Complete F events) (after missing : String) :
    nodeLines F after missing .done false events = events.map (eventLine F) := by
  obtain ⟨before, _, rfl, hb, hl⟩ := h
  induction before with
  | nil => simp [nodeLines, hl]
  | cons e _ ih =>
    have he : F.terminal e = false := hb e (mem_cons_self ..)
    have ht := ih fun x hx => hb x (mem_cons_of_mem _ hx)
    simp only [cons_append, nodeLines, false_eq_true, if_false, he, ht, map_cons]

theorem mem_eventLine_iff {c : Char} (hc : 128 ≤ c.toNat) :
    c ∈ eventLine F e ↔ ∃ s ∈ F.texts e, c ∈ s.toList := by
  rw [eventLine, mem_render_iff (eventEnvelope_numeric F e) hc, ← F.texts_iff e c hc]
  have ht : c ∉ "type".toList := not_mem_ascii hc _ (by decide)
  have he : c ∉ "event".toList := not_mem_ascii hc _ (by decide)
  simp only [eventEnvelope, Json.texts, ofList, JsonObject.texts, append_nil,
    mem_cons, mem_append, not_mem_nil, or_false, exists_eq_or_imp, ht, he, false_or]

theorem clean_eventLine_iff : LineFraming.Clean lineBoundaries (eventLine F e) ↔ LineSafe F e := by
  have hp : ∀ c ∈ eventLine F e, 32 ≤ c.toNat := fun c hc =>
    (Json.fromTexts_render _ c (eventEnvelope_numeric F e) hc).1
  constructor
  · intro hcl s hs c hc
    rw [eq_false_iff]
    intro ho
    have hmem : c ∈ eventLine F e :=
      (mem_eventLine_iff (le_of_isOpenBoundary ho)).2 ⟨s, hs, hc⟩
    have hf := hcl c hmem
    rw [boundary_iff_of_printable (hp c hmem), ho] at hf
    cases hf
  · intro hsa c hc
    rw [boundary_iff_of_printable (hp c hc), eq_false_iff]
    intro ho
    obtain ⟨s, hs, hcs⟩ := (mem_eventLine_iff (le_of_isOpenBoundary ho)).1 hc
    rw [hsa s hs c hcs] at ho
    cases ho

variable {reader : EnvelopeReader F} {errors : RelayErrors} {limit : ℕ}

theorem receive_event {observed : ℕ} (h : observed + (utf8Bytes (eventLine F e) + 1) ≤ limit) :
    receive reader errors limit false observed (eventLine F e :: rest) =
      (e :: (receive reader errors limit (F.terminal e)
          (observed + (utf8Bytes (eventLine F e) + 1)) rest).1,
        (receive reader errors limit (F.terminal e)
          (observed + (utf8Bytes (eventLine F e) + 1)) rest).2) := by
  rw [receive, if_neg (eventLine_ne_nil F e)]
  dsimp only
  rw [if_neg (Nat.not_lt.2 h), reader.decode_event e]
  rfl

theorem receive_complete (h : Complete F events) :
    ∀ observed : ℕ, observed + wireBytes F events ≤ limit →
      receive reader errors limit false observed (events.map (eventLine F)) = (events, none) := by
  obtain ⟨before, last, rfl, hb, hl⟩ := h
  induction before with
  | nil =>
    intro observed hli
    have hfit : observed + (utf8Bytes (eventLine F last) + 1) ≤ limit := by
      simpa [wireBytes] using hli
    simp [receive_event hfit, hl, receive]
  | cons e _ ih =>
    intro observed hli
    have he : F.terminal e = false := hb e (mem_cons_self ..)
    simp only [cons_append, wireBytes, map_cons, sum_cons] at hli
    have hfit : observed + (utf8Bytes (eventLine F e) + 1) ≤ limit := by omega
    have ht := ih (fun x hx => hb x (mem_cons_of_mem _ hx))
      (observed + (utf8Bytes (eventLine F e) + 1)) (by simp only [wireBytes]; omega)
    rw [cons_append, map_cons, receive_event hfit, he, ht]

theorem receive_event_cases {observed : ℕ} {terminal : Bool} :
    (receive reader errors limit terminal observed (eventLine F e :: rest)).2 ≠ none ∨
      observed + (utf8Bytes (eventLine F e) + 1) ≤ limit ∧
        (receive reader errors limit terminal observed (eventLine F e :: rest)).2 =
          (receive reader errors limit (F.terminal e)
            (observed + (utf8Bytes (eventLine F e) + 1)) rest).2 := by
  by_cases hfit : observed + (utf8Bytes (eventLine F e) + 1) ≤ limit
  · cases terminal with
    | false =>
      right
      rw [receive_event hfit]
      exact ⟨hfit, rfl⟩
    | true =>
      left
      rw [receive, if_neg (eventLine_ne_nil F e)]
      dsimp only
      rw [if_neg (Nat.not_lt.2 hfit), reader.decode_event e]
      simp
  · left
    rw [receive, if_neg (eventLine_ne_nil F e)]
    dsimp only
    rw [if_pos (Nat.not_le.1 hfit)]
    simp

theorem receive_over : ∀ {observed : ℕ} {terminal : Bool}, limit < observed + wireBytes F events →
      observed ≤ limit → (receive reader errors limit terminal observed
        (events.map (eventLine F) ++ rest)).2 ≠ none := by
  induction events with
  | nil =>
    intro observed terminal ho hw
    simp only [wireBytes, map_nil, sum_nil] at ho
    omega
  | cons e _ ih =>
    intro observed terminal ho hw
    simp only [wireBytes, map_cons, sum_cons] at ho
    rw [map_cons, cons_append]
    rcases @receive_event_cases E F e _ reader errors limit observed terminal with
      hf | ⟨hfit, hg⟩
    · exact hf
    · rw [hg]
      exact ih (by simp only [wireBytes]; omega) hfit

theorem receive_cut {line : List Char} (hne : line ≠ []) (hl : reader.decode line = none) :
    ∀ {observed : ℕ} {terminal : Bool}, (receive reader errors limit terminal observed
        (events.map (eventLine F) ++ line :: rest)).2 ≠ none := by
  induction events with
  | nil =>
    intro observed terminal
    rw [map_nil, nil_append, receive, if_neg hne]
    dsimp only
    split
    · simp
    · rw [hl]
      simp
  | cons e _ ih =>
    intro observed terminal
    rw [map_cons, cons_append]
    rcases @receive_event_cases E F e _ reader errors limit observed terminal with
      hf | ⟨-, hg⟩
    · exact hf
    · rw [hg]
      exact ih

theorem receive_nodeText_iff (h : Complete F events) (after missing : String) :
    receive reader errors limit false 0
        (splitLines lineBoundaries (nodeText F after missing .done events)) =
      (events, none) ↔ (∀ e ∈ events, LineSafe F e) ∧ wireBytes F events ≤ limit := by
  have ht : lineBoundaries.boundary '\n' := by decide
  have hwo : ∀ {es : List E}, (∀ e ∈ es, LineSafe F e) →
      ∀ w ∈ es.map (eventLine F), w ≠ [] ∧ LineFraming.Clean lineBoundaries w := by
    intro es hes w hw
    obtain ⟨e, he, rfl⟩ := mem_map.1 hw
    exact ⟨eventLine_ne_nil F e, clean_eventLine_iff.2 (hes e he)⟩
  rw [nodeText, nodeLines_complete h]
  constructor
  · intro hrec
    have hend := congrArg Prod.snd hrec
    dsimp only at hend
    by_cases hs : ∀ e ∈ events, LineSafe F e
    · refine ⟨hs, ?_⟩
      by_contra ho
      rw [splitLines_frame ht (hwo hs), ← append_nil
        (List.map (eventLine F) events)] at hend
      exact receive_over (by simpa using ho) (Nat.zero_le _) hend
    · exfalso
      push Not at hs
      obtain ⟨before, e, rest, rfl, hbe, he⟩ := exists_first hs
      have hu : ∃ c ∈ eventLine F e, ¬ lineBoundaries.boundary c = false := by
        have hne := mt clean_eventLine_iff.1 he
        simpa [LineFraming.Clean] using hne
      obtain ⟨word, b, tail, hln, hwr, hb⟩ := exists_first hu
      have hne : word ≠ [] := by
        rintro rfl
        have hh : (eventLine F e).head? = some '\x7b' := rfl
        rw [hln] at hh
        cases hh
        exact hb (by decide)
      have hte : frame '\n' ((before ++ e :: rest).map (eventLine F)) =
          frame '\n' (before.map (eventLine F)) ++
            (word ++ b :: (tail ++ '\n' :: frame '\n' (rest.map (eventLine F)))) := by
        simp [frame, hln]
      obtain ⟨_, hl⟩ := splitLines_cut ht (by simpa using hb)
        (hwo hbe) hne hwr (tail ++ '\n' :: frame '\n' (rest.map (eventLine F)))
      rw [hte, hl] at hend
      have hc : reader.decode word = none := by
        apply reader.decode_incomplete e word
        · exact ⟨b :: tail, hln.symm⟩
        · rw [hln]
          simp
      exact receive_cut hne hc hend
  · rintro ⟨hs, hli⟩
    rw [splitLines_frame ht (hwo hs)]
    exact receive_complete h 0 (by simpa using hli)

end Envelopes

def nonEmptyString? (value : String) : Option String :=
  let stripped := stripWhitespace value
  if 0 < stripped.length then some stripped else none

def ToolOutputChannel.value : ToolOutputChannel → String
  | .stdout => "stdout"
  | .stderr => "stderr"

structure CommandOutput where
  sequence : ℕ
  channel : ToolOutputChannel
  chunk : String
  sequence_pos : 1 ≤ sequence
  chunk_valid : nonEmptyString? chunk = some chunk

inductive CommandEvent where
  | output (output : CommandOutput)
  | completed (exitCode : ℤ) (timedOut outputTruncated : Bool)

def CommandEvent.fields : CommandEvent → JsonObject
  | .output o =>
    .ofList [("type", .str "output"), ("sequence", .num o.sequence.repr),
      ("channel", .str o.channel.value), ("chunk", .str o.chunk)]
  | .completed exitCode timedOut outputTruncated =>
    .ofList [("type", .str "completed"), ("exit_code", .int exitCode),
      ("timed_out", .bool timedOut), ("output_truncated", .bool outputTruncated)]

theorem ToolOutputChannel.value_injective : Function.Injective value := by
  intro a b h
  cases a <;> cases b <;> first | rfl | exact absurd h (by decide)

theorem CommandEvent.fields_injective : Function.Injective CommandEvent.fields := by
  intro a b h
  cases a with
  | output o =>
    cases b with
    | output o' =>
      simp only [CommandEvent.fields, ofList, JsonObject.cons.injEq,
        str.injEq, num.injEq, true_and, and_true] at h
      obtain ⟨hsequence, hchannel, hc⟩ := h
      cases o
      cases o'
      cases natRepr_injective hsequence
      cases value_injective hchannel
      cases hc
      rfl
    | completed => simp [CommandEvent.fields, ofList] at h
  | completed =>
    cases b with
    | output => simp [CommandEvent.fields, ofList] at h
    | completed =>
      simp only [CommandEvent.fields, ofList, JsonObject.cons.injEq,
        Json.bool.injEq, true_and, and_true] at h
      obtain ⟨he, rfl, rfl⟩ := h
      cases int_injective he
      rfl

def commandFormat : EventFormat CommandEvent where
  fields := CommandEvent.fields
  terminal
    | .output _ => false
    | .completed .. => true
  texts
    | .output o => [o.chunk]
    | .completed .. => []
  numeric := by
    intro e
    cases e with
    | output o =>
      have hsequence := numeric_natRepr o.sequence
      simp [CommandEvent.fields, JsonObject.ofList, JsonObject.numeric, Json.numeric] at hsequence ⊢
      exact hsequence
    | completed =>
      simp [CommandEvent.fields, JsonObject.ofList, JsonObject.numeric, Json.numeric,
        Json.numeric_int]
  injective := CommandEvent.fields_injective
  texts_iff := by
    intro e c hc
    have hascii := not_mem_ascii hc
    cases e with
    | output o =>
      have hchannel : c ∉ o.channel.value.toList := by
        cases o.channel <;> exact hascii _ (by decide)
      simp only [CommandEvent.fields, JsonObject.ofList, JsonObject.texts, Json.texts,
        append_nil, cons_append, nil_append, mem_cons, not_mem_nil,
        or_false, exists_eq_or_imp, exists_eq_left, hascii "type" (by decide),
        hascii "output" (by decide), hascii "sequence" (by decide),
        hascii "channel" (by decide), hchannel, hascii "chunk" (by decide), false_or]
    | completed =>
      simp only [CommandEvent.fields, JsonObject.ofList, JsonObject.texts, Json.texts, Json.int,
        append_nil, cons_append, nil_append, mem_cons, not_mem_nil,
        or_false, exists_eq_or_imp, exists_eq_left, hascii "type" (by decide),
        hascii "completed" (by decide), hascii "exit_code" (by decide),
        hascii "timed_out" (by decide), hascii "output_truncated" (by decide), or_self,
        false_and, exists_false]

def maxProtocolOverheadBytes : ℕ := 1024 * 1024

/-- The errors of `RemoteSandbox.execute`. -/
def commandErrors : RelayErrors :=
  { limitCode := "sandbox_protocol_limit"
    limitMessage := "the node-agent command stream exceeded its byte limit"
    protocolCode := "sandbox_protocol_error"
    afterMessage := "the node agent emitted data after command completion"
    missingMessage := "the node agent command ended without a terminal result"
    failedMessage := "the sandbox node request failed" }

def executeCommand (ending : HandlerEnd) (events : List CommandEvent) : List Char :=
  nodeText commandFormat "the sandbox emitted data after its terminal result"
    "the sandbox command ended without a terminal result" ending events

def RemoteSandbox.execute (reader : EnvelopeReader commandFormat) (maxOutputBytes : ℕ)
    (response : List Char) : List CommandEvent × Option ErrorDetail :=
  receive reader commandErrors (maxOutputBytes + maxProtocolOverheadBytes) false 0
    (LineFraming.splitLines lineBoundaries response)

/-- The payload bytes of a command's output. -/
def commandOutputBytes (events : List CommandEvent) : ℕ :=
  (events.map fun e =>
    match e with
    | .output o => utf8Bytes o.chunk.toList
    | .completed .. => 0).sum

inductive ToolExecutionEvent where
  | output (channel : ToolOutputChannel) (chunk : String) (nonempty : chunk ≠ "")
  | completed (result : JsonObject) (numeric : result.numeric = true)

def ToolExecutionEvent.fields : ToolExecutionEvent → JsonObject
  | .output channel chunk _ =>
    .ofList [("kind", .str "output"), ("channel", .str channel.value), ("chunk", .str chunk)]
  | .completed result _ => .ofList [("kind", .str "completed"), ("result", .obj result)]

theorem ToolExecutionEvent.fields_injective : Function.Injective ToolExecutionEvent.fields := by
  intro a b h
  cases a with
  | output =>
    cases b with
    | output =>
      simp only [ToolExecutionEvent.fields, ofList, JsonObject.cons.injEq,
        str.injEq, true_and, and_true] at h
      obtain ⟨hchannel, rfl⟩ := h
      cases value_injective hchannel
      rfl
    | completed => simp [ToolExecutionEvent.fields, ofList] at h
  | completed =>
    cases b with
    | output => simp [ToolExecutionEvent.fields, ofList] at h
    | completed =>
      simp only [ToolExecutionEvent.fields, ofList, JsonObject.cons.injEq,
        obj.injEq, true_and, and_true] at h
      cases h
      rfl

def toolFormat : EventFormat ToolExecutionEvent where
  fields := ToolExecutionEvent.fields
  terminal
    | .output .. => false
    | .completed .. => true
  texts
    | .output _ chunk _ => [chunk]
    | .completed result _ => result.texts
  numeric := by
    intro e
    cases e with
    | output =>
      simp [ToolExecutionEvent.fields, JsonObject.ofList, JsonObject.numeric, Json.numeric]
    | completed _ hresult =>
      simp [ToolExecutionEvent.fields, JsonObject.ofList, JsonObject.numeric, Json.numeric, hresult]
  injective := ToolExecutionEvent.fields_injective
  texts_iff := by
    intro e c hc
    have hascii := not_mem_ascii hc
    cases e with
    | output channel =>
      have hchannel : c ∉ channel.value.toList := by
        cases channel <;> exact hascii _ (by decide)
      simp only [ToolExecutionEvent.fields, JsonObject.ofList, JsonObject.texts, Json.texts,
        append_nil, cons_append, nil_append, mem_cons, not_mem_nil,
        or_false, exists_eq_or_imp, exists_eq_left, hascii "kind" (by decide),
        hascii "output" (by decide), hascii "channel" (by decide), hchannel,
        hascii "chunk" (by decide), false_or]
    | completed =>
      simp only [ToolExecutionEvent.fields, JsonObject.ofList, JsonObject.texts, Json.texts,
        append_nil, cons_append, nil_append, mem_cons, exists_eq_or_imp,
        hascii "kind" (by decide), hascii "completed" (by decide), hascii "result" (by decide),
        false_or]

def toolErrors : RelayErrors :=
  { limitCode := "tool_output_limit"
    limitMessage := "the node tool stream exceeded its byte limit"
    protocolCode := "tool_protocol_error"
    afterMessage := "the node emitted data after tool completion"
    missingMessage := "the node tool stream ended without a terminal result"
    failedMessage := "the node tool request failed"
    failedDetails := .ofList [("failure_type", .str "ValidationError")] }

def executeTool (ending : HandlerEnd) (events : List ToolExecutionEvent) : List Char :=
  nodeText toolFormat "the tool emitted data after its terminal result"
    "the tool ended without a terminal result" ending events

def RemoteSandbox.executeTool (reader : EnvelopeReader toolFormat)
    (maxOutputBytes maxResultBytes : ℕ) (response : List Char) :
    List ToolExecutionEvent × Option ErrorDetail :=
  receive reader toolErrors (maxOutputBytes + maxResultBytes + maxProtocolOverheadBytes) false 0
    (LineFraming.splitLines lineBoundaries response)

/-- **The relay is transparent exactly when** no text of an event holds U+0085, U+2028 or U+2029 and
the envelopes fit the worker's limit. -/
theorem relay_transparent_iff (commands : EnvelopeReader commandFormat)
    (tools : EnvelopeReader toolFormat) (maxOutputBytes maxResultBytes : ℕ) :
    (∀ events : List CommandEvent, Complete commandFormat events →
      (RemoteSandbox.execute commands maxOutputBytes (executeCommand .done events) =
          (events, none) ↔ (∀ e ∈ events, LineSafe commandFormat e) ∧
          wireBytes commandFormat events ≤ maxOutputBytes + maxProtocolOverheadBytes)) ∧
      ∀ events : List ToolExecutionEvent, Complete toolFormat events →
        (RemoteSandbox.executeTool tools maxOutputBytes maxResultBytes (executeTool .done events) =
            (events, none) ↔ (∀ e ∈ events, LineSafe toolFormat e) ∧ wireBytes toolFormat events ≤
            maxOutputBytes + maxResultBytes + maxProtocolOverheadBytes) :=
  ⟨fun _ hevents => receive_nodeText_iff hevents _ _,
    fun _ hevents => receive_nodeText_iff hevents _ _⟩

def greeting : List CommandEvent :=
  [.output { sequence := 1, channel := .stdout, chunk := "ready", sequence_pos := by decide
             chunk_valid := by decide },
    .completed 0 false false]

theorem complete_greeting : Complete commandFormat greeting :=
  ⟨greeting.take 1, .completed 0 false false, rfl, by simp [greeting, commandFormat], rfl⟩

theorem relay_transparent_greeting :
    RemoteSandbox.execute (.canonical commandFormat) 1024 (executeCommand .done greeting) =
      (greeting, none) := by
  apply ((relay_transparent_iff (.canonical commandFormat) (.canonical toolFormat) 1024 0).1
    greeting complete_greeting).2
  refine ⟨?_, by decide⟩
  intro e he s hs c hc
  simp only [greeting, mem_cons, not_mem_nil, or_false] at he
  rcases he with rfl | rfl
  · rw [mem_singleton.1 hs] at hc
    have hall : "ready".toList.all (fun c => !isOpenBoundary c) = true := by decide
    simpa using List.all_eq_true.1 hall c hc
  · cases hs

def separated : List CommandEvent :=
  [.output { sequence := 1, channel := .stdout, chunk := "a\u2028b", sequence_pos := by decide
             chunk_valid := by decide },
    .completed 0 false false]

/-- A command that prints `n` single characters. -/
def trickle (n : ℕ) : List CommandEvent :=
  List.replicate n
    (.output { sequence := 1, channel := .stdout, chunk := "x", sequence_pos := by decide
               chunk_valid := by decide }) ++ [.completed 0 false false]

theorem complete_trickle (n : ℕ) : Complete commandFormat (trickle n) := by
  refine ⟨_, _, rfl, ?_, rfl⟩
  intro e he
  rw [eq_of_mem_replicate he]
  rfl

theorem wireBytes_trickle (n : ℕ) : 87 * n ≤ wireBytes commandFormat (trickle n) := by
  have hl : utf8Bytes (eventLine commandFormat
      (.output { sequence := 1, channel := .stdout, chunk := "x", sequence_pos := by decide
                 chunk_valid := by decide })) + 1 = 87 := by decide
  simp only [wireBytes, trickle, map_append, map_replicate, hl, List.sum_append,
    sum_replicate_nat]
  omega

theorem commandOutputBytes_trickle (n : ℕ) : commandOutputBytes (trickle n) = n := by
  have hc : utf8Bytes ['x'] = 1 := by decide
  simp [commandOutputBytes, trickle, hc]

theorem relay_not_transparent :
    (Complete commandFormat separated ∧ commandOutputBytes separated ≤ 1024 ∧
      RemoteSandbox.execute (.canonical commandFormat) 1024 (executeCommand .done separated) ≠
        (separated, none)) ∧
      Complete commandFormat (trickle 20000) ∧ commandOutputBytes (trickle 20000) ≤ 20000 ∧
      RemoteSandbox.execute (.canonical commandFormat) 20000
        (executeCommand .done (trickle 20000)) ≠ (trickle 20000, none) := by
  have hcomplete : Complete commandFormat separated :=
    ⟨separated.take 1, .completed 0 false false, rfl, by simp [separated, commandFormat], rfl⟩
  refine ⟨⟨hcomplete, by decide, ?_⟩, complete_trickle 20000, ?_, ?_⟩
  · intro hrelayed
    have hsafe := ((receive_nodeText_iff hcomplete _ _).1 hrelayed).1 _ (mem_cons_self ..)
    exact absurd (hsafe "a\u2028b" (mem_singleton_self _) (Char.ofNat 8232) (by decide))
      (by decide)
  · exact (commandOutputBytes_trickle 20000).le
  · intro hrelayed
    have hlimit := ((receive_nodeText_iff (complete_trickle 20000) _ _).1 hrelayed).2
    have hbytes := wireBytes_trickle 20000
    simp only [maxProtocolOverheadBytes] at hlimit
    omega

end AgentPlatform
