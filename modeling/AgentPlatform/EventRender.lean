/-
**What the terminal client shows of an event.**
-/

import AgentPlatform.LoopTypes
import AgentPlatform.JsonText

namespace AgentPlatform

open EventBody

open List

inductive Piece where
  | text (s : String)
  | safe (s : String)

def safe (value : String) : List Char := (renderString value).tail.dropLast

def Piece.chars : Piece → List Char
  | .text s => s.toList
  | .safe s => AgentPlatform.safe s

def EventBody.eventType : EventBody → String
  | .runStarted .. => "run.started"
  | .contextBuildStarted .. => "context.build_started"
  | .modelRequestStarted .. => "model.request_started"
  | .modelTextDelta .. => "model.text_delta"
  | .toolCallReceived .. | .toolCallRejected .. => "model.tool_call_received"
  | .toolApprovalRequired .. => "tool.approval_required"
  | .toolStarted .. => "tool.started"
  | .toolOutput _ _ _ false => "tool.stdout"
  | .toolOutput _ _ _ true => "tool.stderr"
  | .toolCompleted .. => "tool.completed"
  | .checkpointCreated .. => "checkpoint.created"
  | .runRetryScheduled .. => "run.retry_scheduled"
  | .runCompleted .. => "run.completed"
  | .runFailed .. => "run.failed"

def EventBody.pieces : EventBody → List Piece
  | .runStarted attempt workerId =>
    [.text " attempt=", .text (Nat.repr attempt), .text " worker=", .safe workerId]
  | .contextBuildStarted messageCount _ => [.text " messages=", .text (Nat.repr messageCount)]
  | .modelRequestStarted modelCallId _ routeName =>
    [.text " route=", .safe routeName, .text " call=", .safe modelCallId]
  | .modelTextDelta _ delta => [.text " ", .safe delta]
  | .toolCallReceived _ call _ =>
    [.text " tool=", .safe call.name, .text " id=", .safe call.id, .text " accepted"]
  | .toolCallRejected _ toolCallId toolName error =>
    [.text " tool=", .safe toolName, .text " id=", .safe toolCallId, .text " rejected=",
      .safe error.code]
  | .toolApprovalRequired _ call _ reason =>
    [.text " tool=", .safe call.name, .text " id=", .safe call.id, .text " reason=", .safe reason]
  | .toolStarted toolCallId toolName =>
    [.text " tool=", .safe toolName, .text " id=", .safe toolCallId]
  | .toolOutput _ chunk truncated _ =>
    [.text " ", .safe chunk, .text (if truncated then " truncated=true" else "")]
  | .toolCompleted toolCallId status _ error =>
    [.text " id=", .safe toolCallId, .text " status=", .text status.value] ++
      error.toList.flatMap fun detail => [.text " error=", .safe detail.code]
  | .checkpointCreated checkpointId toolCallId _ workspaceRevision =>
    [.text " id=", .text (uuidText checkpointId), .text " tool=", .safe toolCallId,
      .text " revision=", .safe workspaceRevision]
  | .runRetryScheduled attempt delaySeconds error =>
    [.text " attempt=", .text (Nat.repr attempt), .text " delay=", .text (Nat.repr delaySeconds),
      .text "s error=", .safe error.code]
  | .runCompleted finalText _ => [.text " ", .safe finalText]
  | .runFailed error => [.text " error=", .safe error.code, .text " message=", .safe error.message]

def AgentEvent.linePrefix (event : AgentEvent) : List Piece :=
  [.text "[", .text (Nat.repr event.sequence), .text " ", .text event.body.eventType, .text "]"]

def renderEvent (event : AgentEvent) : List Char :=
  (event.linePrefix ++ event.body.pieces).flatMap Piece.chars

def EventBody.shown (body : EventBody) : List String :=
  body.pieces.filterMap fun
    | .text _ => none
    | .safe s => some s

def IsUpperControl (c : Char) : Prop := 127 ≤ c.toNat ∧ c.toNat < 160

def IsControl (c : Char) : Prop := c.toNat < 32 ∨ IsUpperControl c

instance (c : Char) : Decidable (IsControl c) := inferInstanceAs (Decidable (_ ∨ _ ∧ _))

def Printable (s : String) : Prop := s.toList.all (fun d => 32 ≤ d.toNat && d.toNat < 127) = true

instance (s : String) : Decidable (Printable s) := inferInstanceAs (Decidable (_ = true))

def Piece.Printable : Piece → Prop
  | .text s => AgentPlatform.Printable s
  | .safe _ => True

theorem printable_natRepr (n : ℕ) : Printable (Nat.repr n) := by
  refine all_eq_true.2 fun c hc => ?_
  have hn := numeric_natRepr n
  simp only [Json.numeric, and_eq_true, all_eq_true] at hn
  simpa using isNumeric_ascii (hn.2 c hc)

theorem printable_eventType (body : EventBody) : Printable body.eventType := by
  unfold eventType
  split <;> decide

theorem printable_status (status : ToolCallStatus) : Printable status.value := by
  cases status <;> decide

theorem safe_eq (s : String) : safe s = s.toList.flatMap escapeChar := by
  have h : ∀ cs : List Char, escapeChars cs = cs.flatMap escapeChar ++ ['"'] := by
    intro cs
    induction cs with
    | nil => rfl
    | cons c cs ih => simp [escapeChars, ih]
  simp [safe, renderString, h]

theorem control_mem_safe (s : String) :
    (∃ c ∈ safe s, IsControl c) ↔ ∃ c ∈ s.toList, IsUpperControl c := by
  rw [safe_eq]
  constructor
  · rintro ⟨d, hd, hctl⟩
    obtain ⟨c, hc, hmem⟩ := mem_flatMap.1 hd
    obtain ⟨hlow, heq⟩ := mem_escapeChar hmem
    have hup : IsUpperControl d := hctl.resolve_left (by omega)
    obtain rfl := heq hup.1
    exact ⟨d, hc, hup⟩
  · rintro ⟨c, hc, hup⟩
    refine ⟨c, mem_flatMap.2 ⟨c, hc, ?_⟩, .inr hup⟩
    rw [escapeChar_of_le hup.1]
    exact mem_singleton_self c

theorem pieces_printable (body : EventBody) : ∀ p ∈ body.pieces, p.Printable := by
  cases body with
  | toolOutput id chunk truncated stderr =>
    cases truncated <;> simp only [pieces, forall_mem_cons, not_mem_nil, false_implies,
      implies_true, Piece.Printable] <;> decide
  | toolCompleted id status result error =>
    cases error <;> simp only [pieces, Option.toList, flatMap_nil, flatMap_cons,
      append_nil, cons_append, nil_append, forall_mem_cons, not_mem_nil, false_implies, implies_true,
      Piece.Printable, printable_status] <;> decide
  | _ =>
    simp only [pieces, forall_mem_cons, not_mem_nil, false_implies, implies_true,
      Piece.Printable, uuidText, printable_natRepr]
    decide

theorem control_mem_pieces {pieces : List Piece} (h : ∀ p ∈ pieces, p.Printable) :
    (∃ c ∈ pieces.flatMap Piece.chars, IsControl c) ↔
      ∃ s, .safe s ∈ pieces ∧ ∃ c ∈ s.toList, IsUpperControl c := by
  constructor
  · rintro ⟨c, hc, hctl⟩
    obtain ⟨p, hp, hmem⟩ := mem_flatMap.1 hc
    cases p with
    | text s =>
      have hprint := ascii_of_mem (h _ hp) hmem
      rcases hctl with hlow | hup
      · omega
      · exact absurd hup.1 (by omega)
    | safe s => exact ⟨s, hp, (control_mem_safe s).1 ⟨c, hmem, hctl⟩⟩
  · rintro ⟨s, hs, hup⟩
    obtain ⟨c, hc, hctl⟩ := (control_mem_safe s).2 hup
    exact ⟨c, mem_flatMap.2 ⟨_, hs, hc⟩, hctl⟩

/-- **A line is free of control characters iff the texts it shows have no DEL and no C1 character.**
-/
theorem render_event_control_iff (event : AgentEvent) :
    (∀ c ∈ renderEvent event, ¬ IsControl c) ↔
      ∀ s ∈ event.body.shown, ∀ c ∈ s.toList, ¬ IsUpperControl c := by
  have hhead : ∀ p ∈ event.linePrefix, p.Printable := by
    simp only [AgentEvent.linePrefix, forall_mem_cons, not_mem_nil, false_implies, implies_true,
      Piece.Printable, printable_natRepr, printable_eventType]
    decide
  have hline := control_mem_pieces (forall_mem_append.2 ⟨hhead, pieces_printable event.body⟩)
  have hshown : ∀ s, .safe s ∈ event.linePrefix ++ event.body.pieces ↔ s ∈ event.body.shown := by
    intro s
    simp only [AgentEvent.linePrefix, EventBody.shown, mem_append, mem_cons, reduceCtorEq,
      not_mem_nil, or_self, false_or, mem_filterMap]
    constructor
    · intro h
      exact ⟨_, h, rfl⟩
    · rintro ⟨p, hp, heq⟩
      cases p <;> cases heq
      exact hp
  have hneg := not_congr hline
  push Not at hneg
  simp only [hshown] at hneg
  exact hneg

theorem render_event_csi :
    ∃ c ∈ renderEvent ⟨1, 0, .modelTextDelta "call" (String.singleton (Char.ofNat 0x9b))⟩,
      IsControl c := by
  refine ⟨Char.ofNat 0x9b, by decide, ?_⟩
  decide

end AgentPlatform
