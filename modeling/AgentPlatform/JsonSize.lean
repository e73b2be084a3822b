/-
**The size of a JSON text.**
-/

import AgentPlatform.JsonText

namespace AgentPlatform

def textSize (text : List Char) : ℕ := (text.map Char.utf8Size).sum

@[simp] theorem textSize_nil : textSize [] = 0 := rfl

@[simp] theorem textSize_cons (c : Char) (text : List Char) :
    textSize (c :: text) = c.utf8Size + textSize text := by
  simp [textSize]

@[simp] theorem textSize_append (a b : List Char) : textSize (a ++ b) = textSize a + textSize b := by
  simp [textSize]

theorem utf8Size_quote : '"'.utf8Size = 1 ∧ ':'.utf8Size = 1 ∧ ','.utf8Size = 1 := by decide

def jsonStringContentSize (value : List Char) : ℕ := textSize (value.flatMap escapeChar)

theorem textSize_escapeChars (cs : List Char) :
    textSize (escapeChars cs) = jsonStringContentSize cs + 1 := by
  induction cs with
  | nil => rfl
  | cons c cs ih => simp [escapeChars, jsonStringContentSize, ih]; omega

theorem textSize_renderString (s : String) :
    textSize (renderString s) = jsonStringContentSize s.toList + 2 := by
  have hquote := utf8Size_quote.1
  rw [renderString, textSize_cons, textSize_escapeChars]
  omega

def fieldSize (field : String × Json) : ℕ :=
  jsonStringContentSize field.1.toList + textSize field.2.render + 4

def serializedSize (value : JsonObject) : ℕ := textSize (Json.obj value).render

theorem textSize_fields (fields : List (String × Json)) (h : fields ≠ []) :
    textSize (JsonObject.ofList fields).render = (fields.map fieldSize).sum := by
  obtain ⟨-, hcolon, hcomma⟩ := utf8Size_quote
  induction fields with
  | nil => exact absurd rfl h
  | cons field rest ih =>
    obtain ⟨key, value⟩ := field
    rw [JsonObject.ofList, JsonObject.render, textSize_append, textSize_cons, textSize_append,
      textSize_renderString, hcolon, List.map_cons, sum_cons, fieldSize]
    cases rest with
    | nil =>
      have hbrace : textSize (JsonObject.ofList []).renderTail = 1 := by decide
      simp [hbrace]
      omega
    | cons next rest =>
      have htail : textSize (JsonObject.ofList (next :: rest)).renderTail =
          1 + textSize (JsonObject.ofList (next :: rest)).render := by
        simp [JsonObject.ofList, JsonObject.renderTail, JsonObject.render, hcomma]
      rw [htail, ih (cons_ne_nil _ _)]
      dsimp only
      omega

theorem serializedSize_ofList (fields : List (String × Json)) (h : fields ≠ []) :
    serializedSize (.ofList fields) = 1 + (fields.map fieldSize).sum := by
  have hopen : '\x7b'.utf8Size = 1 := by decide
  rw [serializedSize, Json.render, textSize_cons, hopen, textSize_fields fields h]

theorem textSize_items (items : List Json) :
    textSize (JsonArray.ofList items).render =
      (items.map fun item => textSize item.render).sum + max 1 items.length := by
  obtain ⟨-, -, hcomma⟩ := utf8Size_quote
  induction items with
  | nil => rfl
  | cons item rest ih =>
    rw [JsonArray.ofList, JsonArray.render, textSize_append, List.map_cons, sum_cons,
      length_cons]
    cases rest with
    | nil =>
      have hbracket : textSize (JsonArray.ofList []).renderTail = 1 := by decide
      simp [hbracket]
    | cons next rest =>
      have htail : textSize (JsonArray.ofList (next :: rest)).renderTail =
          1 + textSize (JsonArray.ofList (next :: rest)).render := by
        simp [JsonArray.ofList, JsonArray.renderTail, JsonArray.render, hcomma]
      rw [htail, ih, length_cons]
      omega

theorem textSize_arr (items : List Json) : textSize (Json.arr (.ofList items)).render =
    1 + ((items.map fun item => textSize item.render).sum + max 1 items.length) := by
  have hopen : '['.utf8Size = 1 := by decide
  rw [Json.render, textSize_cons, hopen, textSize_items]

end AgentPlatform
