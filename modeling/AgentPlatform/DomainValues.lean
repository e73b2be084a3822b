/-
**The values that cross the core's boundaries: JSON, errors, statuses, messages.**
-/

import Mathlib

namespace AgentPlatform

open List

export List (mem_map mem_append mem_cons_self mem_cons_of_mem mem_singleton mem_cons not_mem_nil
  append_nil mem_filter append_assoc mem_append_right mem_append_left map_cons cons_append
  any_eq_true mem_map_of_mem nil_append map_map prefix_refl filter_eq_nil_iff map_append
  mem_singleton_self subset_append_left nodup_nil filter_append inj_on_of_nodup_map cons_prefix_cons
  filter_eq_self nodup_append mem_of_find?_eq_some foldl_cons mem_filterMap length_append
  prefix_append length_cons cons_ne_nil map_nil sum_cons singleton_append dropLast_prefix
  foldl_append filter_cons_of_neg nil_prefix filterMap_cons length_singleton mem_insertionSort
  filter_cons_of_pos filter_sublist length_dropLast append_cancel_left filterMap_append
  countP_append filter_nil prefix_rfl length_map dropLast_subset)
export Option (any_some all_some map_eq_some_iff map_some elim_some isSome_iff_ne_none
  bind_eq_some_iff some_injective getD_some isSome_none)
export Bool (and_eq_true or_eq_true false_eq_true eq_false_iff not_eq_true)
export Function (comp_def update_self update_of_ne update_comm update_idem comp_apply)
export String (toList_ofList toList_append ofList_toList length_toList)

mutual
inductive Json where
  | null
  | bool (value : Bool)
  | num (lexeme : String)
  | str (value : String)
  | arr (items : JsonArray)
  | obj (fields : JsonObject)
inductive JsonArray where
  | nil
  | cons (head : Json) (tail : JsonArray)
inductive JsonObject where
  | nil
  | cons (key : String) (value : Json) (rest : JsonObject)
end

deriving instance DecidableEq for Json, JsonArray, JsonObject

instance : Inhabited Json := ⟨.null⟩
instance : Inhabited JsonObject := ⟨.nil⟩

def JsonObject.get? : JsonObject → String → Option Json
  | .nil, _ => none
  | .cons k v rest, key => if k = key then some v else rest.get? key

def JsonObject.set : JsonObject → String → Json → JsonObject
  | .nil, key, entry => .cons key entry .nil
  | .cons k v rest, key, entry =>
    if k = key then .cons k entry rest else .cons k v (rest.set key entry)

def JsonObject.ofList : List (String × Json) → JsonObject
  | [] => .nil
  | (k, v) :: rest => .cons k v (ofList rest)

def JsonArray.ofList : List Json → JsonArray
  | [] => .nil
  | item :: rest => .cons item (ofList rest)

@[simp] theorem JsonObject.get?_set_self :
    ∀ (o : JsonObject) (key : String) (entry : Json), (o.set key entry).get? key = some entry
  | .nil, key, entry => by simp [JsonObject.set, JsonObject.get?]
  | .cons k v rest, key, entry => by
      by_cases hk : k = key
      · simp [JsonObject.set, JsonObject.get?, hk]
      · simp [JsonObject.set, JsonObject.get?, hk, get?_set_self rest key entry]

abbrev Uuid := ℕ

def uuidText (id : Uuid) : String := Nat.repr id

abbrev Timestamp := ℕ

/-- The characters `StringConstraints(strip_whitespace=True)` removes at both ends. -/
def isStripped (c : Char) : Bool :=
  let n := c.toNat
  (9 ≤ n && n ≤ 13) || n = 32 || n = 133 || n = 160 || n = 5760 || (8192 ≤ n && n ≤ 8202) ||
    n = 8232 || n = 8233 || n = 8239 || n = 8287 || n = 12288

def stripWhitespace (value : String) : String :=
  String.ofList (((value.toList.dropWhile isStripped).reverse.dropWhile isStripped).reverse)

theorem rdropWhile_dropWhile_idem {α : Type} (p : α → Bool) (l : List α) :
    rdropWhile p (List.dropWhile p (rdropWhile p (l.dropWhile p))) =
      rdropWhile p (l.dropWhile p) := by
  have hh : List.dropWhile p (rdropWhile p (l.dropWhile p)) =
      rdropWhile p (l.dropWhile p) := by
    rw [dropWhile_eq_self_iff]
    intro hpos
    have hp := List.rdropWhile_prefix p (l.dropWhile p)
    have hlen : 0 < (l.dropWhile p).length := lt_of_lt_of_le hpos hp.length_le
    rw [hp.getElem hpos]
    exact dropWhile_get_zero_not p l hlen
  rw [hh, rdropWhile_idempotent]

/-- Dropping more after dropping less is dropping more at once. -/
theorem rdropWhile_dropWhile_of_imp {α : Type} {p q : α → Bool} (hpq : ∀ x, p x → q x)
    (l : List α) : rdropWhile q (List.dropWhile q (rdropWhile p (l.dropWhile p))) =
      rdropWhile q (l.dropWhile q) := by
  have hleft : List.dropWhile q (l.dropWhile p) = l.dropWhile q := by
    induction l with
    | nil => rfl
    | cons a l ih =>
      by_cases ha : p a
      · rw [List.dropWhile_cons_of_pos ha, ih, List.dropWhile_cons_of_pos (hpq a ha)]
      · rw [List.dropWhile_cons_of_neg ha]
  rw [← hleft]
  -- the right end is dropped one element at a time
  induction l.dropWhile p using List.reverseRecOn with
  | nil => rfl
  | append_singleton l a ih =>
    by_cases ha : p a
    · rw [rdropWhile_concat_pos p l a ha, ih, List.dropWhile_append]
      split
      next hall =>
        rw [List.dropWhile_cons_of_pos (hpq a ha), List.isEmpty_iff.1 hall]
        rfl
      · rw [rdropWhile_concat_pos q _ a (hpq a ha)]
    · rw [rdropWhile_concat_neg p l a ha]

theorem stripWhitespace_idem (value : String) :
    stripWhitespace (stripWhitespace value) = stripWhitespace value := by
  have h := rdropWhile_dropWhile_idem isStripped value.toList
  simp only [rdropWhile] at h
  simp only [stripWhitespace, String.toList_ofList, h]

/-- `str.strip` removes four separators more than the validation does. -/
def isSpace (c : Char) : Bool := isStripped c || (28 ≤ c.toNat && c.toNat ≤ 31)

def pythonStrip (value : String) : String :=
  String.ofList ((value.toList.dropWhile isSpace).rdropWhile isSpace)

theorem pythonStrip_stripWhitespace (value : String) :
    pythonStrip (stripWhitespace value) = pythonStrip value := by
  have h := rdropWhile_dropWhile_of_imp (p := isStripped) (q := isSpace)
    (fun c hc => by simp [isSpace, hc]) value.toList
  rw [pythonStrip, stripWhitespace, String.toList_ofList]
  exact congrArg String.ofList h

theorem pythonStrip_idem (value : String) : pythonStrip (pythonStrip value) = pythonStrip value := by
  simp only [pythonStrip, String.toList_ofList, rdropWhile_dropWhile_idem]

theorem length_pythonStrip_le (value : String) :
    (pythonStrip value).length ≤ (stripWhitespace value).length := by
  rw [← pythonStrip_stripWhitespace, pythonStrip, String.length_ofList, ← String.length_toList]
  exact ((List.rdropWhile_prefix _ _).length_le).trans (List.dropWhile_suffix _).length_le

theorem stripWhitespace_pythonStrip (value : String) :
    stripWhitespace (pythonStrip value) = pythonStrip value := by
  have hlen : (pythonStrip value).length ≤ (stripWhitespace (pythonStrip value)).length := by
    simpa only [pythonStrip_idem] using length_pythonStrip_le (pythonStrip value)
  have hsub : (stripWhitespace (pythonStrip value)).toList <+ (pythonStrip value).toList := by
    rw [stripWhitespace, String.toList_ofList]
    exact (List.rdropWhile_prefix isStripped _).sublist.trans (List.dropWhile_suffix _).sublist
  exact String.toList_injective (hsub.eq_of_length_le hlen)

def identifierString? (value : String) : Option String :=
  let stripped := stripWhitespace value
  if 0 < stripped.length ∧ stripped.length ≤ 255 then some stripped else none

theorem stripWhitespace_identifierString? {given value : String}
    (h : identifierString? given = some value) : stripWhitespace value = value := by
  simp only [identifierString?, Option.ite_none_right_eq_some, Option.some.injEq] at h
  obtain ⟨-, rfl⟩ := h
  exact stripWhitespace_idem given

theorem identifierString?_pythonStrip {value : String} (h : (identifierString? value).isSome)
    (hne : pythonStrip value ≠ "") :
    identifierString? (pythonStrip value) = some (pythonStrip value) := by
  simp only [identifierString?, Option.isSome_ite] at h
  simp only [identifierString?, stripWhitespace_pythonStrip]
  refine if_pos ⟨?_, (length_pythonStrip_le value).trans h.2⟩
  rw [← String.length_toList]
  exact List.length_pos_iff.2 (mt String.toList_eq_nil_iff.1 hne)

theorem ite_some_eq_none {c : Prop} [Decidable c] {α : Type} {x : α} {o : Option α} :
    (if c then some x else o) = none ↔ ¬ c ∧ o = none := by
  split <;> simp [*]

structure ErrorDetail where
  code : String
  message : String
  retryable : Bool := false
  details : JsonObject := .nil
  deriving DecidableEq

/-- What an operation raises: a `DomainOperationError`, a `ValidationError` or an `IntegrityError`.
-/
inductive Failure where
  | domain (error : ErrorDetail)
  | validation (message : String)
  | integrity (constraint : String)
  deriving DecidableEq

def domainError {α : Type} (code message : String) (retryable : Bool := false)
    (details : JsonObject := .nil) : Except Failure α :=
  .error (.domain ⟨code, message, retryable, details⟩)

theorem except_bind_ok {ε α β : Type} {x : Except ε α} {f : α → Except ε β} {r : β}
    (h : x >>= f = .ok r) : ∃ a, x = .ok a ∧ f a = .ok r := by
  cases x with
  | error => cases h
  | ok a => exact ⟨a, rfl, h⟩

theorem except_map_ok {α β : Type} {x : Except Failure α} {g : α → β} {b : β}
    (h : x.map g = .ok b) : ∃ a, x = .ok a ∧ g a = b := by
  cases x with
  | error => cases h
  | ok a => exact ⟨a, rfl, Except.ok.inj h⟩

inductive RunStatus where
  | queued | leased | running | waitingApproval | retryPending | completed | failed | cancelled
  | lost
  deriving DecidableEq

def RunStatus.value : RunStatus → String
  | .queued => "queued"
  | .leased => "leased"
  | .running => "running"
  | .waitingApproval => "waiting_approval"
  | .retryPending => "retry_pending"
  | .completed => "completed"
  | .failed => "failed"
  | .cancelled => "cancelled"
  | .lost => "lost"

inductive ToolCallStatus where
  | received | waitingApproval | running | completed | failed | cancelled
  deriving DecidableEq

def ToolCallStatus.value : ToolCallStatus → String
  | .received => "received"
  | .waitingApproval => "waiting_approval"
  | .running => "running"
  | .completed => "completed"
  | .failed => "failed"
  | .cancelled => "cancelled"

def ToolCallStatus.terminal : ToolCallStatus → Bool
  | .completed | .failed | .cancelled => true
  | .received | .waitingApproval | .running => false

inductive ApprovalStatus where
  | pending | approved | rejected
  deriving DecidableEq

inductive ApprovalMode where
  | requireAll | requireSensitive | autoApprove
  deriving DecidableEq

inductive ToolEffect where
  | readOnly | workspaceMutation | command | interaction | controlMutation
  deriving DecidableEq

/-- The effects a checkpoint is taken for. -/
def ToolEffect.sideEffecting : ToolEffect → Bool
  | .workspaceMutation | .command => true
  | .readOnly | .interaction | .controlMutation => false

inductive MessageRole where
  | system | user | assistant | tool
  deriving DecidableEq

structure GatewayToolCall where
  id : String
  name : String
  arguments : JsonObject
  deriving DecidableEq

inductive MessageContent where
  | text (value : String)
  | toolResult (result : JsonObject)
  | toolError (error : ErrorDetail)
  | rejectedCalls (calls : List (String × String × ErrorDetail))
  deriving DecidableEq

structure GatewayMessage where
  role : MessageRole
  content : MessageContent := .text ""
  toolCallId : Option String := none
  toolCalls : List GatewayToolCall := []
  deriving DecidableEq

def assistantMessage (text : String) (calls : List GatewayToolCall) : GatewayMessage :=
  { role := .assistant, content := .text text, toolCalls := calls }

def toolMessage (toolCallId : String) (result : Option JsonObject) (error : Option ErrorDetail) :
    GatewayMessage :=
  { role := .tool
    toolCallId := some toolCallId
    content :=
      match error with
      | some e => .toolError e
      | none => .toolResult (result.getD .nil) }

def invalidCallFeedback (calls : List (String × String × ErrorDetail)) : GatewayMessage :=
  { role := .user, content := .rejectedCalls calls }

@[simp] theorem toolMessage_role (id : String) (r : Option JsonObject) (e : Option ErrorDetail) :
    (toolMessage id r e).role = .tool := rfl

@[simp] theorem toolMessage_toolCallId (id : String) (r : Option JsonObject)
    (e : Option ErrorDetail) : (toolMessage id r e).toolCallId = some id := rfl

@[simp] theorem toolMessage_toolCalls (id : String) (r : Option JsonObject)
    (e : Option ErrorDetail) : (toolMessage id r e).toolCalls = [] := rfl

@[simp] theorem assistantMessage_role (text : String) (calls : List GatewayToolCall) :
    (assistantMessage text calls).role = .assistant := rfl

@[simp] theorem assistantMessage_toolCalls (text : String) (calls : List GatewayToolCall) :
    (assistantMessage text calls).toolCalls = calls := rfl

@[simp] theorem invalidCallFeedback_role (calls : List (String × String × ErrorDetail)) :
    (invalidCallFeedback calls).role = .user := rfl

@[simp] theorem invalidCallFeedback_toolCalls (calls : List (String × String × ErrorDetail)) :
    (invalidCallFeedback calls).toolCalls = [] := rfl

def GatewayMessage.announcedCalls (m : GatewayMessage) : List String :=
  if m.role = .assistant then m.toolCalls.map (·.id) else []

def GatewayMessage.answeredCall (m : GatewayMessage) : Option String :=
  if m.role = .tool then m.toolCallId else none

@[simp] theorem announcedCalls_assistantMessage (text : String) (calls : List GatewayToolCall) :
    (assistantMessage text calls).announcedCalls = calls.map (·.id) := rfl

@[simp] theorem answeredCall_assistantMessage (text : String) (calls : List GatewayToolCall) :
    (assistantMessage text calls).answeredCall = none := rfl

@[simp] theorem announcedCalls_toolMessage (id : String) (r : Option JsonObject)
    (e : Option ErrorDetail) : (toolMessage id r e).announcedCalls = [] := rfl

@[simp] theorem answeredCall_toolMessage (id : String) (r : Option JsonObject)
    (e : Option ErrorDetail) : (toolMessage id r e).answeredCall = some id := rfl

end AgentPlatform
