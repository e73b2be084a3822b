/-
**Events of tool output.**

What a tool prints is bounded by `max_tool_output_bytes` of raw UTF-8 (`_append_bounded_output`),
and every chunk that is kept becomes one `tool.output` event, whose payload is bounded by
`MAX_EVENT_PAYLOAD_BYTES` of JSON text. A control character takes one byte of the first limit and
six of the second, so that the two fit together only for small output limits.

The second half is about the results of checkpointed tools: the reserve that `_run_tool` keeps back
from the result limit has room for the revision the checkpoint adds.

Main definitions:
- `toolOutputEvent`: `LoopEventFactory.tool_output` with the checks of its payload.
- `LoopEnv.EmitsText`: chunks and redacted texts are not empty.

Main results:
- `toolOutputEvent_ok_iff`: the output limits under which every kept chunk becomes an event.
- `completeCheckpointed_within`: a revision never takes a result over its limit.
-/

import AgentPlatform.JsonSize
import AgentPlatform.RunSystem

namespace AgentPlatform

open List String

/-- `ToolOutputPayload`, as `model_dump_json` writes it. -/
def toolOutputPayload (toolCallId : String) (o : BufferedOutput) : List (String × Json) :=
  [("tool_call_id", .str toolCallId), ("chunk", .str o.chunk), ("truncated", .bool o.truncated)]

/-- `LoopEventFactory.tool_output`: the constraint on the chunk is checked before the size. -/
def toolOutputEvent (toolCallId : String) (o : BufferedOutput) : Except Failure EventBody :=
  if o.chunk = "" then .error (.validation "String should have at least 1 character")
  else if maxEventPayloadBytes < serializedSize (.ofList (toolOutputPayload toolCallId o)) then
    .error (.validation "serialized event payload exceeds 1048576-byte limit")
  else .ok (.toolOutput toolCallId o.chunk o.truncated (o.channel = .stderr))

theorem serializedSize_toolOutputPayload (toolCallId : String) (o : BufferedOutput) :
    serializedSize (.ofList (toolOutputPayload toolCallId o)) =
      (if o.truncated then 47 else 48) + jsonStringContentSize toolCallId.toList +
        jsonStringContentSize o.chunk.toList := by
  have hkeys : jsonStringContentSize "tool_call_id".toList = 12 ∧
      jsonStringContentSize "chunk".toList = 5 ∧ jsonStringContentSize "truncated".toList = 9 := by
    decide
  have hstr : ∀ value, textSize (Json.str value).render = jsonStringContentSize value.toList + 2 :=
    textSize_renderString
  have hbool : ∀ b, textSize (Json.bool b).render = if b then 4 else 5 := by decide
  rw [toolOutputPayload, serializedSize_ofList _ (cons_ne_nil _ _)]
  simp only [map_cons, map_nil, sum_cons, sum_nil, fieldSize, hstr, hbool, hkeys]
  split <;> omega

theorem utf8ByteSize_eq_textSize (s : String) : s.utf8ByteSize = textSize s.toList := by
  have hlen : ∀ cs : List Char, utf8Len cs = textSize cs := fun cs => by
    induction cs with
    | nil => rfl
    | cons c cs ih => rw [utf8Len_cons, ih, textSize_cons, Nat.add_comm]
  rw [← hlen, ← utf8ByteSize_ofList, ofList_toList]

theorem textSize_escapeChar (c : Char) : textSize (escapeChar c) ≤ 6 := by
  by_cases hc : 127 ≤ c.toNat
  · rw [escapeChar_of_le hc, textSize_cons]
    exact (Nat.add_le_add_right c.utf8Size_le_four 0).trans (by decide)
  · have hsize : ∀ n ∈ (escapeChar c).map Char.utf8Size, n ≤ 1 := by
      intro n hn
      obtain ⟨d, hd, rfl⟩ := mem_map.1 hn
      have hascii : d.toNat < 127 := by
        by_contra hge
        exact hc ((mem_escapeChar hd).2 (not_lt.1 hge) ▸ not_lt.1 hge)
      exact (Char.utf8Size_eq_one_iff.2 (by rw [UInt32.le_iff_toNat_le]; exact hascii.le)).le
    have hl : (escapeChar c).length ≤ 6 := by
      unfold escapeChar
      split_ifs <;> simp
    have := sum_le_card_nsmul _ _ hsize
    rw [length_map, smul_eq_mul, Nat.mul_one] at this
    exact this.trans hl

theorem jsonStringContentSize_le (cs : List Char) :
    jsonStringContentSize cs ≤ 6 * cs.length := by
  induction cs with
  | nil => exact Nat.zero_le _
  | cons c cs ih =>
    have hc := textSize_escapeChar c
    unfold jsonStringContentSize at ih ⊢
    rw [flatMap_cons, textSize_append, length_cons]
    omega

theorem length_le_textSize (cs : List Char) : cs.length ≤ textSize cs := by
  induction cs with
  | nil => exact le_rfl
  | cons c cs ih =>
    have hpos := c.utf8Size_pos
    rw [length_cons, textSize_cons]
    omega

theorem textSize_utf8PrefixChars (cs : List Char) (limit : ℕ) :
    textSize (utf8PrefixChars cs limit) ≤ limit := by
  induction cs generalizing limit with
  | nil => exact Nat.zero_le _
  | cons c cs ih =>
    rw [utf8PrefixChars]
    split
    · have := ih (limit - c.utf8Size)
      rw [textSize_cons]
      omega
    · exact Nat.zero_le _

/-! ### The chunks that are kept -/

def Chunks (P : String → Prop) (output : List BufferedOutput) : Prop := ∀ o ∈ output, P o.chunk

section Chunks

variable {P : String → Prop} {output items : List BufferedOutput} {limit remaining : ℕ}

theorem Chunks.nil : Chunks P [] := by simp [Chunks]

theorem Chunks.truncate (h : Chunks P output) : Chunks P (truncateLast output) := by
  induction output with
  | nil => exact h
  | cons o rest ih =>
    obtain ⟨ho, hrest⟩ := forall_mem_cons.1 h
    cases rest with
    | nil => simpa [Chunks, truncateLast] using ho
    | cons => exact forall_mem_cons.2 ⟨ho, ih hrest⟩

theorem Chunks.append (h : Chunks P output) {channel : ToolOutputChannel} {chunk : String}
    (hfits : chunk.utf8ByteSize ≤ remaining → P chunk)
    (hcut : utf8Prefix chunk remaining ≠ "" → P (utf8Prefix chunk remaining)) :
    Chunks P (appendBoundedOutput output channel chunk remaining).1 := by
  unfold appendBoundedOutput
  split
  next hle => exact forall_mem_append.2 ⟨h, by simpa using hfits hle⟩
  · dsimp only
    split
    next hkept => exact forall_mem_append.2 ⟨h, by simpa using hcut hkept⟩
    · exact h.truncate

theorem appendBoundedOutput_remaining_le (channel : ToolOutputChannel) (chunk : String) :
    (appendBoundedOutput output channel chunk remaining).2.1 ≤ remaining := by
  unfold appendBoundedOutput
  split
  · exact Nat.sub_le ..
  · dsimp only
    split <;> exact Nat.zero_le _

theorem Chunks.bound {redact : String → String} (h : Chunks P output) (hle : remaining ≤ limit)
    (hP : ∀ o ∈ items, ∀ n ≤ limit, ((redact o.chunk).utf8ByteSize ≤ n → P (redact o.chunk)) ∧
      (utf8Prefix (redact o.chunk) n ≠ "" → P (utf8Prefix (redact o.chunk) n))) :
    Chunks P (boundOutput redact output remaining items) := by
  induction items generalizing output remaining with
  | nil => exact h
  | cons item rest ih =>
    obtain ⟨hitem, hrest⟩ := forall_mem_cons.1 hP
    obtain ⟨hfits, hcut⟩ := hitem remaining hle
    have hkept : Chunks P (appendBoundedOutput output item.channel (redact item.chunk) remaining).1 :=
      h.append hfits hcut
    have hmarked : Chunks P (if item.truncated then
        truncateLast (appendBoundedOutput output item.channel (redact item.chunk) remaining).1
        else (appendBoundedOutput output item.channel (redact item.chunk) remaining).1) := by
      split
      · exact hkept.truncate
      · exact hkept
    rw [boundOutput]
    dsimp only
    split
    · exact hmarked
    · exact ih hmarked ((appendBoundedOutput_remaining_le ..).trans hle) hrest

theorem Chunks.coalesce (h : Chunks (· ≠ "") output) (hitems : Chunks (· ≠ "") items) :
    Chunks (· ≠ "") (coalesceOutput output items) := by
  induction items generalizing output with
  | nil => exact h
  | cons item rest ih =>
    obtain ⟨hitem, hrest⟩ := forall_mem_cons.1 hitems
    rw [coalesceOutput]
    split
    next previous hlast =>
      split
      · refine ih (forall_mem_append.2 ⟨fun o ho => h o (dropLast_subset _ ho), ?_⟩) hrest
        rw [forall_mem_singleton]
        intro hempty
        exact hitem (String.append_eq_empty_iff.1 hempty).2
      · exact ih (forall_mem_append.2 ⟨h, forall_mem_singleton.2 hitem⟩) hrest
    · exact ih (forall_mem_singleton.2 hitem) hrest

theorem Chunks.drain {invalid : String → ErrorDetail} {outputLimit : ErrorDetail}
    {completion : Option JsonObject} {stream : List ToolStreamItem} (h : Chunks (· ≠ "") output)
    (hstream : ∀ channel chunk, .output channel chunk ∈ stream → chunk ≠ "") :
    Chunks (· ≠ "") (toolStreamLoop invalid outputLimit output remaining completion stream).1 := by
  induction stream generalizing output remaining completion with
  | nil => exact h
  | cons item rest ih =>
    have hrest : ∀ channel chunk, .output channel chunk ∈ rest → chunk ≠ "" :=
      fun channel chunk hmem => hstream channel chunk (mem_cons_of_mem _ hmem)
    cases item with
    | output channel chunk =>
      have hkept : Chunks (· ≠ "") (appendBoundedOutput output channel chunk remaining).1 :=
        h.append (fun _ => hstream channel chunk (mem_cons_self ..)) id
      rw [toolStreamLoop]
      split
      · exact h
      · dsimp only
        split
        · exact hkept
        · exact ih hkept hrest
    | completed =>
      rw [toolStreamLoop]
      split
      · exact h
      · exact ih h hrest
    | unsupported =>
      rw [toolStreamLoop]
      split <;> exact h

end Chunks

/-- A `ToolOutputChunk` is not empty, and redaction puts a text in the place of what it hides. -/
structure LoopEnv.EmitsText (env : LoopEnv) (call : GatewayToolCall) : Prop where
  chunks : ∀ channel chunk, .output channel chunk ∈ (env.toolStream call).items → chunk ≠ ""
  redacted : ∀ text, text ≠ "" → env.redactor.redactText text ≠ ""

theorem LoopEnv.EmitsText.output {env : LoopEnv} {call : GatewayToolCall}
    (h : env.EmitsText call) (checkpointed : Bool) :
    Chunks (fun chunk => chunk ≠ "" ∧ textSize chunk.toList ≤ env.config.maxToolOutputBytes)
      (runTool env call checkpointed).output := by
  refine Chunks.nil.bound le_rfl fun o ho n hn => ⟨fun hfits => ?_, fun hne => ?_⟩
  · have hchunk := Chunks.nil.coalesce (Chunks.nil.drain h.chunks) o ho
    rw [utf8ByteSize_eq_textSize] at hfits
    exact ⟨h.redacted _ hchunk, hfits.trans hn⟩
  · refine ⟨hne, ?_⟩
    rw [utf8Prefix, toList_ofList]
    exact (textSize_utf8PrefixChars ..).trans hn

/-! ### The events -/

theorem toolOutputEvent_eq_ok {toolCallId : String} {o : BufferedOutput} (hne : o.chunk ≠ "")
    (hsize : 48 + jsonStringContentSize toolCallId.toList + jsonStringContentSize o.chunk.toList ≤
      maxEventPayloadBytes) :
    toolOutputEvent toolCallId o =
      .ok (.toolOutput toolCallId o.chunk o.truncated (o.channel = .stderr)) := by
  rw [toolOutputEvent, if_neg hne, serializedSize_toolOutputPayload, if_neg]
  split <;> omega

/-- The text of `n` null characters. -/
def nulls (n : ℕ) : String := ofList (List.replicate n (Char.ofNat 0))

theorem utf8ByteSize_nulls (n : ℕ) : (nulls n).utf8ByteSize = n := by
  have hnull : (Char.ofNat 0).utf8Size = 1 := by decide
  rw [nulls, utf8ByteSize_eq_textSize, toList_ofList]
  simp [textSize, hnull]

theorem jsonStringContentSize_nulls (n : ℕ) : jsonStringContentSize (nulls n).toList = 6 * n := by
  have hone : textSize (escapeChar (Char.ofNat 0)) = 6 := by decide
  rw [nulls, toList_ofList]
  induction n with
  | zero => rfl
  | succ n ih =>
    unfold jsonStringContentSize at ih ⊢
    rw [replicate_succ, flatMap_cons, textSize_append, ih, hone]
    omega

theorem nulls_ne_empty {n : ℕ} (h : 0 < n) : nulls n ≠ "" := by
  intro hempty
  have := utf8ByteSize_nulls n
  rw [hempty] at this
  exact h.ne this

/-- A tool that fills the output limit with one chunk of null characters. -/
def nullOutputEnv (config : AgentLoopConfig) : LoopEnv :=
  { scriptedEnv 0 (fun _ => none) [] fun _ =>
      { items := [.output .stdout (nulls config.maxToolOutputBytes), .completed .nil] } with
    config := config }

theorem runTool_nullOutput (config : AgentLoopConfig) (call : GatewayToolCall) :
    (runTool (nullOutputEnv config) call false).output =
      [{ channel := .stdout, chunk := nulls config.maxToolOutputBytes }] := by
  have ha : appendBoundedOutput [] .stdout (nulls config.maxToolOutputBytes)
      config.maxToolOutputBytes =
        ([{ channel := .stdout, chunk := nulls config.maxToolOutputBytes }], 0, false) := by
    rw [appendBoundedOutput, utf8ByteSize_nulls, if_pos le_rfl, Nat.sub_self]
    rfl
  have hkept : ∀ invalid limit, (toolStreamLoop invalid limit [] config.maxToolOutputBytes none
      ((nullOutputEnv config).toolStream call).items).1 =
      [{ channel := .stdout, chunk := nulls config.maxToolOutputBytes }] := by
    intro invalid limit
    simp [nullOutputEnv, scriptedEnv, toolStreamLoop, ha]
  show coalesceAndRedactOutput id config.maxToolOutputBytes (toolStreamLoop _ _ []
    config.maxToolOutputBytes none ((nullOutputEnv config).toolStream call).items).1 = _
  rw [hkept]
  simp [coalesceAndRedactOutput, coalesceOutput, boundOutput, ha]

theorem toolOutputEvent_nulls {n : ℕ} (hn : 0 < n) {toolCallId : String}
    (hlong : maxEventPayloadBytes < 48 + jsonStringContentSize toolCallId.toList + 6 * n) :
    toolOutputEvent toolCallId { channel := .stdout, chunk := nulls n } =
      .error (.validation "serialized event payload exceeds 1048576-byte limit") := by
  rw [toolOutputEvent, if_neg (nulls_ne_empty hn), serializedSize_toolOutputPayload,
    jsonStringContentSize_nulls, if_pos]
  exact hlong

theorem emitsText_nullOutput {config : AgentLoopConfig} (h : 0 < config.maxToolOutputBytes)
    (call : GatewayToolCall) : (nullOutputEnv config).EmitsText call where
  chunks := by simpa [nullOutputEnv, scriptedEnv] using nulls_ne_empty h
  redacted := fun _ h => h

def nullCall : GatewayToolCall := { id := "call", name := "run", arguments := .nil }

/-- **Tool output becomes valid events** for every tool exactly when the event limit has room for
an output limit full of characters that JSON writes with six bytes. -/
theorem toolOutputEvent_ok_iff (config : AgentLoopConfig) (hconfig : 4 ≤ config.maxToolOutputBytes)
    (call : GatewayToolCall) :
    (∀ (env : LoopEnv) (checkpointed : Bool), env.config = config → env.EmitsText call →
      ∀ o ∈ (runTool env call checkpointed).output, toolOutputEvent call.id o =
        .ok (.toolOutput call.id o.chunk o.truncated (o.channel = .stderr))) ↔
    48 + jsonStringContentSize call.id.toList + 6 * config.maxToolOutputBytes ≤
      maxEventPayloadBytes := by
  have hpos : 0 < config.maxToolOutputBytes := by omega
  constructor
  · intro hall
    by_contra hlong
    have hok := hall _ false rfl (emitsText_nullOutput hpos call) _ (runTool_nullOutput config call ▸ mem_singleton_self _)
    rw [toolOutputEvent_nulls hpos (not_le.1 hlong)] at hok
    cases hok
  · rintro hroom env checkpointed rfl htext o ho
    obtain ⟨hne, hsize⟩ := htext.output checkpointed o ho
    have he := jsonStringContentSize_le o.chunk.toList
    have hl := length_le_textSize o.chunk.toList
    exact toolOutputEvent_eq_ok hne (by omega)

theorem toolOutputEvent_ok_small :
    (nullOutputEnv { maxToolOutputBytes := 128 * 1024 }).EmitsText nullCall ∧
    ∀ o ∈ (runTool (nullOutputEnv { maxToolOutputBytes := 128 * 1024 }) nullCall true).output,
      toolOutputEvent "call" o =
        .ok (.toolOutput "call" o.chunk o.truncated (o.channel = .stderr)) :=
  have htext := emitsText_nullOutput (by decide) nullCall
  ⟨htext, (toolOutputEvent_ok_iff { maxToolOutputBytes := 128 * 1024 } (by decide) nullCall).2
    (by decide) _ true rfl htext⟩

theorem toolOutputEvent_invalid : ∃ (env : LoopEnv) (call : GatewayToolCall),
    env.config = {} ∧ env.EmitsText call ∧ ∃ o ∈ (runTool env call false).output,
      toolOutputEvent call.id o =
        .error (.validation "serialized event payload exceeds 1048576-byte limit") := by
  exact ⟨nullOutputEnv {}, nullCall, rfl, emitsText_nullOutput (by decide) nullCall, _,
    runTool_nullOutput _ _ ▸ mem_singleton_self _, toolOutputEvent_nulls (by decide) (by decide)⟩

/-! ### The room for the revision -/

theorem textSize_object_cons (key : String) (value : Json) (rest : JsonObject) :
    textSize (JsonObject.cons key value rest).renderTail =
        fieldSize (key, value) + textSize rest.renderTail ∧
      textSize (JsonObject.cons key value rest).render + 1 =
        fieldSize (key, value) + textSize rest.renderTail := by
  obtain ⟨-, hcolon, hcomma⟩ := utf8Size_quote
  have hkey := textSize_renderString key
  have hrender : textSize (JsonObject.cons key value rest).render + 1 =
      fieldSize (key, value) + textSize rest.renderTail := by
    rw [JsonObject.render, textSize_append, textSize_cons, textSize_append, fieldSize]
    dsimp only
    omega
  refine ⟨?_, hrender⟩
  rw [JsonObject.renderTail, textSize_cons, hcomma, Nat.add_comm, ← JsonObject.render, hrender]

theorem textSize_renderTail_set (key : String) (value : Json) : ∀ o : JsonObject,
    textSize (o.set key value).renderTail ≤ textSize o.renderTail + fieldSize (key, value)
  | .nil => by
    rw [JsonObject.set, (textSize_object_cons ..).1, Nat.add_comm]
  | .cons k v rest => by
    have ih := textSize_renderTail_set key value rest
    rw [JsonObject.set]
    split
    next heq =>
      subst heq
      rw [(textSize_object_cons ..).1, (textSize_object_cons ..).1]
      omega
    · rw [(textSize_object_cons ..).1, (textSize_object_cons ..).1]
      omega

theorem serializedSize_set (o : JsonObject) (key : String) (value : Json) :
    serializedSize (o.set key value) ≤ serializedSize o + fieldSize (key, value) := by
  have htail := textSize_renderTail_set key value o
  have hle : textSize o.renderTail ≤ textSize o.render + 1 := by
    cases o with
    | nil => exact Nat.le_succ _
    | cons k v rest => exact ((textSize_object_cons ..).1.trans (textSize_object_cons ..).2.symm).le
  have hset : textSize (o.set key value).render + 1 = textSize (o.set key value).renderTail := by
    cases o with
    | nil => exact (textSize_object_cons ..).2.trans (textSize_object_cons ..).1.symm
    | cons k v rest =>
      rw [JsonObject.set]
      split <;> exact (textSize_object_cons ..).2.trans (textSize_object_cons ..).1.symm
  unfold serializedSize
  rw [Json.render, Json.render, textSize_cons, textSize_cons]
  omega

theorem two_le_serializedSize (o : JsonObject) : 2 ≤ serializedSize o := by
  have hopen : '\x7b'.utf8Size = 1 := by decide
  rw [serializedSize, Json.render, textSize_cons, hopen]
  cases o with
  | nil => exact le_rfl
  | cons k v rest =>
    have := (textSize_object_cons k v rest).2
    rw [fieldSize] at this
    omega

theorem fieldSize_workspaceRevision {revision : String} (h : validWorkspaceRevision revision) :
    fieldSize ("workspace_revision", .str revision) ≤ workspaceResultMetadataReserveBytes := by
  have hkey : jsonStringContentSize "workspace_revision".toList = 18 := by decide
  have hvalue := jsonStringContentSize_le revision.toList
  simp only [validWorkspaceRevision, and_eq_true, decide_eq_true_eq] at h
  rw [length_toList] at hvalue
  rw [fieldSize, hkey, Json.render, textSize_renderString, workspaceResultMetadataReserveBytes]
  omega

variable {env : LoopEnv} {call : GatewayToolCall} {result : JsonObject}

theorem runTool_size_le {checkpointed : Bool}
    (h : (runTool env call checkpointed).outcome = .ok result) :
    env.jsonSize result ≤ if checkpointed then
      max 1 (env.config.maxToolResultBytes - workspaceResultMetadataReserveBytes)
    else env.config.maxToolResultBytes := by
  unfold runTool at h
  dsimp only at h
  generalize (if checkpointed = true then _ else env.config.maxToolResultBytes) = limit at h ⊢
  split at h
  case h_6 =>
    split_ifs at h with hraw hsafe
    obtain rfl := Except.ok.inj h
    exact not_lt.1 hsafe
  all_goals cases h

/-- The reserve of a checkpointed tool has room for every valid revision, so that its completion is
not undone because of the size. -/
theorem completeCheckpointed_within (hsize : env.jsonSize = serializedSize) {item : PreparedCall}
    (hresult : (runTool env item.call true).outcome = .ok result)
    {coordinator : CheckpointCoordinator} {snapshot : WorkspaceSnapshot}
    (hafter : coordinator.snapshotAfter item.call.id = some snapshot)
    (hvalid : validWorkspaceRevision snapshot.revision) :
    env.jsonSize (result.set "workspace_revision" (.str snapshot.revision)) ≤
        env.config.maxToolResultBytes ∧
      ∀ st c, (completeCheckpointed env st item coordinator c result).steps =
        [.completeCheckpoint c.id item.call.id snapshot] := by
  have hfits := runTool_size_le hresult
  rw [if_pos rfl, hsize] at hfits
  have hle : env.jsonSize (result.set "workspace_revision" (.str snapshot.revision)) ≤
      env.config.maxToolResultBytes := by
    have hset := serializedSize_set result "workspace_revision" (.str snapshot.revision)
    have htwo := two_le_serializedSize result
    have hfield := fieldSize_workspaceRevision hvalid
    rw [hsize]
    omega
  refine ⟨hle, fun st c => ?_⟩
  rw [completeCheckpointed]
  simp only [hafter, hvalid, if_neg (not_lt.2 hle)]
  rfl

def revisionEnv : LoopEnv :=
  { scriptedEnv 0 (fun _ => none) []
      (fun _ => { items := [.completed (.ofList [("workspace_revision", .null)])] }) with
    jsonSize := serializedSize }

theorem completeCheckpointed_within_replaced :
    serializedSize (JsonObject.set (.ofList [("workspace_revision", .null)]) "workspace_revision"
      (.str "r1")) ≤ revisionEnv.config.maxToolResultBytes :=
  let call : GatewayToolCall := { id := "call", name := "write", arguments := .nil }
  let snapshot : WorkspaceSnapshot := ⟨1, "uri", "r1"⟩
  (@completeCheckpointed_within revisionEnv (.ofList [("workspace_revision", .null)]) rfl
    ⟨call, "hash", none, none⟩ (by decide +kernel)
    ⟨fun _ => .ok snapshot, fun _ => some snapshot, fun _ => true⟩ snapshot rfl
    (by decide +kernel)).1

end AgentPlatform
