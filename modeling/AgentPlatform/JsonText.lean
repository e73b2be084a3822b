/-
**JSON text: what `model_dump_json` writes.**
-/

import AgentPlatform.DomainValues

namespace AgentPlatform

open Nat List
open Bool (and_eq_true)
open String (toList_append toList_inj)

def hexDigit (n : ℕ) : Char := if n < 10 then Char.ofNat (48 + n) else Char.ofNat (87 + n)

def escapeChar (c : Char) : List Char :=
  if c = '"' then ['\\', '"']
  else if c = '\\' then ['\\', '\\']
  else if c = Char.ofNat 8 then ['\\', 'b']
  else if c = Char.ofNat 9 then ['\\', 't']
  else if c = Char.ofNat 10 then ['\\', 'n']
  else if c = Char.ofNat 12 then ['\\', 'f']
  else if c = Char.ofNat 13 then ['\\', 'r']
  else if c.toNat < 32 then ['\\', 'u', '0', '0', hexDigit (c.toNat / 16), hexDigit (c.toNat % 16)]
  else [c]

def escapeChars : List Char → List Char
  | [] => ['"']
  | c :: rest => escapeChar c ++ escapeChars rest

def renderString (s : String) : List Char := '"' :: escapeChars s.toList

mutual
def Json.render : Json → List Char
  | .null => ['n', 'u', 'l', 'l']
  | .bool true => ['t', 'r', 'u', 'e']
  | .bool false => ['f', 'a', 'l', 's', 'e']
  | .num lexeme => lexeme.toList
  | .str s => renderString s
  | .arr items => '[' :: items.render
  | .obj fields => '\x7b' :: fields.render
def JsonArray.render : JsonArray → List Char
  | .nil => [']']
  | .cons head tail => head.render ++ tail.renderTail
def JsonArray.renderTail : JsonArray → List Char
  | .nil => [']']
  | .cons head tail => ',' :: (head.render ++ tail.renderTail)
def JsonObject.render : JsonObject → List Char
  | .nil => ['\x7d']
  | .cons key value rest => renderString key ++ ':' :: (value.render ++ rest.renderTail)
def JsonObject.renderTail : JsonObject → List Char
  | .nil => ['\x7d']
  | .cons key value rest => ',' :: (renderString key ++ ':' :: (value.render ++ rest.renderTail))
end

def isNumeric (c : Char) : Bool :=
  ('0' ≤ c && c ≤ '9') || c = '-' || c = '+' || c = '.' || c = 'e' || c = 'E'

mutual
def Json.numeric : Json → Bool
  | .null | .bool _ | .str _ => true
  | .num lexeme => lexeme.toList ≠ [] && lexeme.toList.all isNumeric
  | .arr items => items.numeric
  | .obj fields => fields.numeric
def JsonArray.numeric : JsonArray → Bool
  | .nil => true
  | .cons head tail => head.numeric && tail.numeric
def JsonObject.numeric : JsonObject → Bool
  | .nil => true
  | .cons _ value rest => value.numeric && rest.numeric
end

mutual
def Json.texts : Json → List String
  | .null | .bool _ | .num _ => []
  | .str s => [s]
  | .arr items => items.texts
  | .obj fields => fields.texts
def JsonArray.texts : JsonArray → List String
  | .nil => []
  | .cons head tail => head.texts ++ tail.texts
def JsonObject.texts : JsonObject → List String
  | .nil => []
  | .cons key value rest => key :: (value.texts ++ rest.texts)
end

def hexValue (c : Char) : ℕ := if c.toNat < 58 then c.toNat - 48 else c.toNat - 87

def readEscape : List Char → Option (Char × List Char)
  | 'b' :: rest => some (Char.ofNat 8, rest)
  | 't' :: rest => some (Char.ofNat 9, rest)
  | 'n' :: rest => some (Char.ofNat 10, rest)
  | 'f' :: rest => some (Char.ofNat 12, rest)
  | 'r' :: rest => some (Char.ofNat 13, rest)
  | 'u' :: _ :: _ :: x :: y :: rest => some (Char.ofNat (16 * hexValue x + hexValue y), rest)
  | c :: rest => some (c, rest)
  | [] => none

def readString : ℕ → List Char → Option (List Char × List Char)
  | 0, _ => none
  | _, [] => none
  | fuel + 1, c :: rest =>
    if c = '"' then some ([], rest)
    else if c = '\\' then
      match readEscape rest with
      | none => none
      | some (d, rest') => (readString fuel rest').map fun p => (d :: p.1, p.2)
    else (readString fuel rest).map fun p => (c :: p.1, p.2)

theorem hexValue_hexDigit : ∀ n < 16, hexValue (hexDigit n) = n := by decide

theorem readString_escapeChar (fuel : ℕ) (c : Char) (rest : List Char) :
    readString (fuel + 1) (escapeChar c ++ rest) =
      (readString fuel rest).map fun p => (c :: p.1, p.2) := by
  unfold escapeChar
  iterate 7
    split
    · subst_vars; simp [readString, readEscape]
  split
  next hlow =>
    have hc : 16 * (c.toNat / 16) + c.toNat % 16 = c.toNat := by omega
    have hh := hexValue_hexDigit (c.toNat / 16) (by omega)
    have hl := hexValue_hexDigit (c.toNat % 16) (by omega)
    simp [readString, readEscape, hh, hl, hc, Char.ofNat_toNat]
  next hq hs _ _ _ _ _ _ => simp [readString, hq, hs]

theorem readString_escapeChars (s rest : List Char) :
    ∀ {fuel : ℕ}, s.length < fuel → readString fuel (escapeChars s ++ rest) = some (s, rest) := by
  induction s with
  | nil =>
    intro fuel hf
    cases fuel with
    | zero => omega
    | succ => simp [escapeChars, readString]
  | cons c s ih =>
    intro fuel hf
    cases fuel with
    | zero => omega
    | succ fuel =>
      have hs : s.length < fuel := by simpa using hf
      rw [escapeChars, append_assoc, readString_escapeChar, ih hs]
      rfl

theorem escapeChars_append_inj {s s' rest rest' : List Char}
    (h : escapeChars s ++ rest = escapeChars s' ++ rest') : s = s' ∧ rest = rest' := by
  have hr := readString_escapeChars s rest (lt_succ_of_le (Nat.le_max_left _ s'.length))
  rw [h, readString_escapeChars s' rest' (lt_succ_of_le (Nat.le_max_right _ _))] at hr
  cases hr
  exact ⟨rfl, rfl⟩

theorem renderString_append_inj {s s' : String} {rest rest' : List Char}
    (h : renderString s ++ rest = renderString s' ++ rest') : s = s' ∧ rest = rest' := by
  obtain ⟨hs, hr⟩ := escapeChars_append_inj (cons.inj h).2
  exact ⟨toList_inj.1 hs, hr⟩

def Delimited (text : List Char) : Prop := ∀ c ∈ text.head?, isNumeric c = false

theorem delimited_arrayTail (items : JsonArray) (rest : List Char) :
    Delimited (items.renderTail ++ rest) := by
  intro c hc
  cases items with
  | nil | cons => cases hc; decide

theorem delimited_objectTail (fields : JsonObject) (rest : List Char) :
    Delimited (fields.renderTail ++ rest) := by
  intro c hc
  cases fields with
  | nil | cons => cases hc; decide

def Json.closed : Json → Bool
  | .num _ => false
  | _ => true

theorem dropWhile_numeric {lexeme rest : List Char} (hl : lexeme.all isNumeric)
    (hr : Delimited rest) : (lexeme ++ rest).dropWhile isNumeric = rest := by
  induction lexeme with
  | nil =>
    cases rest with
    | nil => rfl
    | cons c =>
      have hc : isNumeric c = false := hr c rfl
      simp [hc]
  | cons _ _ ih =>
    simp only [all_cons, and_eq_true] at hl
    simp [hl.1, ih hl.2]

variable {c d : Char} {j j' : Json} {rest rest' : List Char}

def kindOf (c : Char) : ℕ :=
  if isNumeric c then 0
  else if c = 'n' then 1
  else if c = 't' ∨ c = 'f' then 2
  else if c = '"' then 4
  else if c = '[' then 5
  else if c = '\x7b' then 6
  else 7

def Json.kind : Json → ℕ
  | .num _ => 0
  | .null => 1
  | .bool _ => 2
  | .str _ => 4
  | .arr _ => 5
  | .obj _ => 6

theorem Json.kindOf_render (h : j.numeric) (rest : List Char) :
    ∃ c ∈ (j.render ++ rest).head?, kindOf c = j.kind := by
  cases j with
  | null | str | arr | obj => exact ⟨_, rfl, rfl⟩
  | bool value => cases value <;> exact ⟨_, rfl, rfl⟩
  | num lexeme =>
    simp only [Json.numeric, and_eq_true, decide_eq_true_eq, Json.render] at h ⊢
    cases hl : lexeme.toList with
    | nil => exact absurd hl h.1
    | cons c =>
      rw [hl, all_cons, and_eq_true] at h
      exact ⟨c, rfl, by rw [kindOf, if_pos h.2.1]; rfl⟩

theorem Json.kind_eq (hj : j.numeric) (hj' : j'.numeric)
    (h : j.render ++ rest = j'.render ++ rest') : j.kind = j'.kind := by
  obtain ⟨_, hc, hk⟩ := Json.kindOf_render hj rest
  obtain ⟨_, hc', hk'⟩ := Json.kindOf_render hj' rest'
  rw [h, Option.mem_unique hc hc'] at *
  exact hk.symm.trans hk'

theorem Json.render_ne_bracket (h : j.numeric) : j.render ++ rest ≠ ']' :: rest' := by
  intro heq
  obtain ⟨_, hc, hk⟩ := Json.kindOf_render h rest
  rw [heq] at hc
  cases hc
  cases j <;> cases hk

mutual
theorem Json.render_append_inj : ∀ (j j' : Json) {rest rest' : List Char}, j.numeric = true →
    j'.numeric = true → (j.closed = true ∨ Delimited rest ∧ Delimited rest') →
    j.render ++ rest = j'.render ++ rest' → j = j' ∧ rest = rest'
  | .null, j', _, _, hj, hj', _, h => by
      cases j' with
      | null => exact ⟨rfl, append_cancel_left h⟩
      | _ => cases Json.kind_eq hj hj' h
  | .bool value, j', _, _, hj, hj', _, h => by
      cases j' with
      | bool value' =>
        cases value <;> cases value'
        · exact ⟨rfl, append_cancel_left h⟩
        · cases h
        · cases h
        · exact ⟨rfl, append_cancel_left h⟩
      | _ => cases Json.kind_eq hj hj' h
  | .num lexeme, j', rest, rest', hj, hj', hd, h => by
      cases j' with
      | num lexeme' =>
        obtain ⟨hr, hr'⟩ := hd.resolve_left nofun
        simp only [Json.numeric, and_eq_true] at hj hj'
        have hdr := dropWhile_numeric hj.2 hr
        rw [show lexeme.toList ++ rest = lexeme'.toList ++ rest' from h,
          dropWhile_numeric hj'.2 hr'] at hdr
        subst hdr
        exact ⟨congrArg _ (toList_inj.1 (append_cancel_right h)), rfl⟩
      | _ => cases Json.kind_eq hj hj' h
  | .str s, j', _, _, hj, hj', _, h => by
      cases j' with
      | str =>
        obtain ⟨rfl, hr⟩ := renderString_append_inj h
        exact ⟨rfl, hr⟩
      | _ => cases Json.kind_eq hj hj' h
  | .arr items, j', rest, rest', hj, hj', _, h => by
      cases j' with
      | arr items' =>
        obtain ⟨rfl, hr⟩ := JsonArray.render_inj items items' hj hj' (cons.inj h).2
        exact ⟨rfl, hr⟩
      | _ => cases Json.kind_eq hj hj' h
  | .obj fields, j', rest, rest', hj, hj', _, h => by
      cases j' with
      | obj fields' =>
        obtain ⟨rfl, hr⟩ : fields = fields' ∧ rest = rest' := by
          cases fields with
          | nil =>
            cases fields' with
            | nil => exact ⟨rfl, (cons.inj (cons.inj h).2).2⟩
            | cons => cases h
          | cons =>
            cases fields' with
            | nil => cases h
            | cons =>
              exact JsonObject.renderTail_inj _ _ hj hj' (congrArg (',' :: ·) (cons.inj h).2)
        exact ⟨rfl, hr⟩
      | _ => cases Json.kind_eq hj hj' h
theorem JsonArray.render_inj : ∀ (items items' : JsonArray) {rest rest' : List Char},
    items.numeric = true → items'.numeric →
    items.render ++ rest = items'.render ++ rest' → items = items' ∧ rest = rest'
  | .nil, .nil, _, _, _, _, h => ⟨rfl, (cons.inj h).2⟩
  | .nil, .cons head tail, _, _, _, hj', h => by
      simp only [JsonArray.numeric, JsonArray.render, and_eq_true, append_assoc] at hj' h
      exact absurd h.symm (Json.render_ne_bracket hj'.1)
  | .cons head tail, .nil, _, _, hj, _, h => by
      simp only [JsonArray.numeric, JsonArray.render, and_eq_true, append_assoc] at hj h
      exact absurd h (Json.render_ne_bracket hj.1)
  | .cons head tail, .cons head' tail', _, _, hj, hj', h =>
    JsonArray.renderTail_inj _ _ hj hj' (congrArg (',' :: ·) h)
theorem JsonArray.renderTail_inj : ∀ (items items' : JsonArray) {rest rest' : List Char},
    items.numeric = true → items'.numeric →
    items.renderTail ++ rest = items'.renderTail ++ rest' → items = items' ∧ rest = rest'
  | .nil, .nil, _, _, _, _, h => ⟨rfl, (cons.inj h).2⟩
  | .nil, .cons _ _, _, _, _, _, h => by cases h
  | .cons _ _, .nil, _, _, _, _, h => by cases h
  | .cons head tail, .cons head' tail', _, _, hj, hj', h => by
      simp only [JsonArray.numeric, and_eq_true] at hj hj'
      simp only [JsonArray.renderTail, cons_append, append_assoc, cons.injEq, true_and] at h
      obtain ⟨rfl, ht⟩ := Json.render_append_inj head head' hj.1 hj'.1
        (.inr ⟨delimited_arrayTail _ _, delimited_arrayTail _ _⟩) h
      obtain ⟨rfl, hr⟩ := JsonArray.renderTail_inj tail tail' hj.2 hj'.2 ht
      exact ⟨rfl, hr⟩
theorem JsonObject.renderTail_inj : ∀ (fields fields' : JsonObject) {rest rest' : List Char},
    fields.numeric = true → fields'.numeric →
    fields.renderTail ++ rest = fields'.renderTail ++ rest' → fields = fields' ∧ rest = rest'
  | .nil, .nil, _, _, _, _, h => ⟨rfl, (cons.inj h).2⟩
  | .nil, .cons _ _ _, _, _, _, _, h => by cases h
  | .cons _ _ _, .nil, _, _, _, _, h => by cases h
  | .cons key value tail, .cons key' value' tail', _, _, hj, hj', h => by
      simp only [JsonObject.numeric, and_eq_true] at hj hj'
      simp only [JsonObject.renderTail, cons_append, append_assoc, cons.injEq, true_and] at h
      obtain ⟨rfl, hval⟩ := renderString_append_inj h
      obtain ⟨rfl, ht⟩ := Json.render_append_inj value value' hj.1 hj'.1
        (.inr ⟨delimited_objectTail _ _, delimited_objectTail _ _⟩) (cons.inj hval).2
      obtain ⟨rfl, hr⟩ := JsonObject.renderTail_inj tail tail' hj.2 hj'.2 ht
      exact ⟨rfl, hr⟩
end

def Json.int (n : ℤ) : Json := .num n.repr

theorem toList_natRepr (n : ℕ) : n.repr.toList = toDigits 10 n := by
  rw [repr_eq_ofList_toDigits, toList_ofList]

theorem natRepr_injective : Function.Injective Nat.repr := by
  intro m n h
  have hd : toDigits 10 m = toDigits 10 n := by
    rw [← toList_natRepr, ← toList_natRepr, h]
  have hm := ofDigitChars_toDigits (b := 10) (n := m) (by decide) (by decide)
  rw [hd, ofDigitChars_toDigits (by decide) (by decide)] at hm
  exact hm.symm

theorem isNumeric_of_isDigit (h : c.isDigit) : isNumeric c := by
  simp only [Char.isDigit, and_eq_true, decide_eq_true_eq] at h
  have h₁ : '0' ≤ c := h.1
  have h₂ : c ≤ '9' := h.2
  simp [isNumeric, h₁, h₂]

theorem numeric_natRepr (n : ℕ) : (Json.num n.repr).numeric := by
  simp only [Json.numeric, toList_natRepr, and_eq_true, decide_eq_true_eq, all_eq_true]
  refine ⟨toDigits_ne_nil, ?_⟩
  intro c hc
  exact isNumeric_of_isDigit (isDigit_of_mem_toDigits (by decide) (by decide) hc)

theorem Json.numeric_int (n : ℤ) : (Json.int n).numeric := by
  cases n with
  | ofNat n => exact numeric_natRepr n
  | negSucc n =>
    have hn := numeric_natRepr (n + 1)
    simp only [Json.numeric, and_eq_true] at hn
    simp only [Json.int, Int.repr, Json.numeric, toList_append, and_eq_true,
      all_append]
    exact ⟨by simp, by decide, hn.2⟩

theorem Json.int_injective : Function.Injective Json.int := by
  have hs : ∀ m n : ℕ, m.repr ≠ "-" ++ n.repr := by
    intro m n h
    have hl : toDigits 10 m = '-' :: toDigits 10 n := by
      rw [← toList_natRepr, ← toList_natRepr, h, toList_append]
      rfl
    have hmin : '-' ∈ toDigits 10 m := by
      rw [hl]
      exact mem_cons_self ..
    exact absurd (isDigit_of_mem_toDigits (by decide) (by decide) hmin) (by decide)
  intro m n h
  have hr : m.repr = n.repr := Json.num.inj h
  cases m with
  | ofNat m =>
    cases n with
    | ofNat => exact congrArg Int.ofNat (natRepr_injective hr)
    | negSucc n => exact absurd hr (hs m (n + 1))
  | negSucc m =>
    cases n with
    | ofNat n => exact absurd hr.symm (hs n (m + 1))
    | negSucc n =>
      have hl : ("-" ++ (m + 1).repr).toList = ("-" ++ (n + 1).repr).toList :=
        congrArg String.toList hr
      rw [toList_append, toList_append, append_cancel_left_eq,
        toList_inj] at hl
      have hsu := natRepr_injective hl
      rw [Nat.succ.inj hsu]

theorem hexDigit_ascii : ∀ n < 16, 32 ≤ (hexDigit n).toNat ∧ (hexDigit n).toNat < 127 := by decide

theorem ascii_of_mem {l : List Char} (hl : l.all (fun d => 32 ≤ d.toNat && d.toNat < 127) = true)
    (h : d ∈ l) : 32 ≤ d.toNat ∧ d.toNat < 127 := by
  have hd := all_eq_true.1 hl d h
  simpa using hd

theorem mem_escapeChar (h : d ∈ escapeChar c) : 32 ≤ d.toNat ∧ (127 ≤ d.toNat → d = c) := by
  have ascii : 32 ≤ d.toNat ∧ d.toNat < 127 → 32 ≤ d.toNat ∧ (127 ≤ d.toNat → d = c) :=
    fun hd => ⟨hd.1, fun hge => absurd hge (Nat.not_le.2 hd.2)⟩
  unfold escapeChar at h
  split_ifs at h
  iterate 7
    · exact ascii (ascii_of_mem (by decide) h)
  · have hh := hexDigit_ascii (c.toNat / 16) (by omega)
    have hlow := hexDigit_ascii (c.toNat % 16) (by omega)
    rw [show ['\\', 'u', '0', '0', hexDigit (c.toNat / 16), hexDigit (c.toNat % 16)] =
      ['\\', 'u', '0', '0'] ++ [hexDigit (c.toNat / 16), hexDigit (c.toNat % 16)] from rfl] at h
    rcases mem_append.1 h with h | h
    · exact ascii (ascii_of_mem (by decide) h)
    · simp only [mem_cons, not_mem_nil, or_false] at h
      rcases h with rfl | rfl
      · exact ascii hh
      · exact ascii hlow
  · rw [mem_singleton] at h
    subst h
    exact ⟨by omega, fun _ => rfl⟩

theorem escapeChar_of_le (h : 127 ≤ c.toNat) : escapeChar c = [c] := by
  have hne : ∀ d : Char, d.toNat < 127 → c ≠ d := by
    rintro d _ rfl
    omega
  unfold escapeChar
  rw [if_neg (hne _ (by decide)), if_neg (hne _ (by decide)), if_neg (hne _ (by decide)),
    if_neg (hne _ (by decide)), if_neg (hne _ (by decide)), if_neg (hne _ (by decide)),
    if_neg (hne _ (by decide)), if_neg (by omega)]

theorem mem_escapeChars {s : List Char} (h : d ∈ escapeChars s) :
    32 ≤ d.toNat ∧ (127 ≤ d.toNat → d ∈ s) := by
  induction s with
  | nil =>
    have hd := ascii_of_mem (by decide) h
    exact ⟨hd.1, fun hge => absurd hge (Nat.not_le.2 hd.2)⟩
  | cons c s ih =>
    rcases mem_append.1 h with h | h
    · obtain ⟨hp, heq⟩ := mem_escapeChar h
      exact ⟨hp, fun hge => heq hge ▸ mem_cons_self ..⟩
    · obtain ⟨hp, hmem⟩ := ih h
      exact ⟨hp, fun hge => mem_cons_of_mem _ (hmem hge)⟩

theorem mem_escapeChars_of_mem {s : List Char} (hd : 127 ≤ d.toNat) (h : d ∈ s) :
    d ∈ escapeChars s := by
  induction s with
  | nil => cases h
  | cons c s ih =>
    rcases mem_cons.1 h with rfl | h
    · exact mem_append_left _ (by rw [escapeChar_of_le hd]; exact mem_singleton_self _)
    · exact mem_append_right _ (ih h)

def FromTexts (d : Char) (texts : List String) : Prop :=
  32 ≤ d.toNat ∧ (128 ≤ d.toNat → ∃ s ∈ texts, d ∈ s.toList)

theorem FromTexts.mono {texts texts' : List String} (h : FromTexts d texts) (hsub : texts ⊆ texts')
    : FromTexts d texts' := by
  refine ⟨h.1, fun hd => ?_⟩
  obtain ⟨s, hs, hmem⟩ := h.2 hd
  exact ⟨s, hsub hs, hmem⟩

theorem fromTexts_ascii {texts : List String} (h : 32 ≤ d.toNat ∧ d.toNat < 127) :
    FromTexts d texts :=
  ⟨h.1, fun hge => by omega⟩

theorem fromTexts_renderString {s : String} (h : d ∈ renderString s) : FromTexts d [s] := by
  rcases mem_cons.1 h with rfl | h
  · exact fromTexts_ascii (by decide)
  · obtain ⟨hp, hmem⟩ := mem_escapeChars h
    exact ⟨hp, fun hge => ⟨s, mem_singleton_self _, hmem (by omega)⟩⟩

theorem isNumeric_ascii (h : isNumeric c) : 32 ≤ c.toNat ∧ c.toNat < 127 := by
  simp only [isNumeric, Bool.or_eq_true, and_eq_true, decide_eq_true_eq] at h
  rcases h with ((((⟨hlow, hh⟩ | rfl) | rfl) | rfl) | rfl) | rfl
  · have h₁ : (48 : ℕ) ≤ c.toNat := hlow
    have h₂ : c.toNat ≤ 57 := hh
    omega
  · decide
  · decide
  · decide
  · decide
  · decide

mutual
theorem Json.fromTexts_render : ∀ (j : Json) (d : Char), j.numeric = true → d ∈ j.render →
    FromTexts d j.texts
  | .null, d, _, h => fromTexts_ascii (ascii_of_mem (by decide) h)
  | .bool true, d, _, h => fromTexts_ascii (ascii_of_mem (by decide) h)
  | .bool false, d, _, h => fromTexts_ascii (ascii_of_mem (by decide) h)
  | .num lexeme, d, hn, h => by
      simp only [Json.numeric, and_eq_true, all_eq_true] at hn
      exact fromTexts_ascii (isNumeric_ascii (hn.2 d h))
  | .str s, d, _, h => fromTexts_renderString h
  | .arr items, d, hn, h => by
      rcases mem_cons.1 h with rfl | h
      · exact fromTexts_ascii (by decide)
      · exact JsonArray.fromTexts_render items d hn h
  | .obj fields, d, hn, h => by
      rcases mem_cons.1 h with rfl | h
      · exact fromTexts_ascii (by decide)
      · exact JsonObject.fromTexts_render fields d hn h
theorem JsonArray.fromTexts_render : ∀ (items : JsonArray) (d : Char), items.numeric = true →
    d ∈ items.render → FromTexts d items.texts
  | .nil, d, _, h => fromTexts_ascii (ascii_of_mem (by decide) h)
  | .cons head tail, d, hn, h => by
      simp only [JsonArray.numeric, and_eq_true] at hn
      rcases mem_append.1 h with h | h
      · exact (Json.fromTexts_render head d hn.1 h).mono (subset_append_left _ _)
      · exact (JsonArray.fromTexts_renderTail tail d hn.2 h).mono (subset_append_right _ _)
theorem JsonArray.fromTexts_renderTail : ∀ (items : JsonArray) (d : Char),
    items.numeric = true → d ∈ items.renderTail → FromTexts d items.texts
  | .nil, d, _, h => fromTexts_ascii (ascii_of_mem (by decide) h)
  | .cons head tail, d, hn, h => by
      rcases mem_cons.1 h with rfl | h
      · exact fromTexts_ascii (by decide)
      · exact JsonArray.fromTexts_render (.cons head tail) d hn h
theorem JsonObject.fromTexts_render : ∀ (fields : JsonObject) (d : Char),
    fields.numeric = true → d ∈ fields.render → FromTexts d fields.texts
  | .nil, d, _, h => fromTexts_ascii (ascii_of_mem (by decide) h)
  | .cons key value rest, d, hn, h => by
      simp only [JsonObject.numeric, and_eq_true] at hn
      rcases mem_append.1 h with h | h
      · exact (fromTexts_renderString h).mono (by simp [JsonObject.texts])
      rcases mem_cons.1 h with rfl | h
      · exact fromTexts_ascii (by decide)
      rcases mem_append.1 h with h | h
      · exact (Json.fromTexts_render value d hn.1 h).mono
          (fun s hs => mem_cons_of_mem _ (mem_append_left _ hs))
      · exact (JsonObject.fromTexts_renderTail rest d hn.2 h).mono
          (fun s hs => mem_cons_of_mem _ (mem_append_right _ hs))
theorem JsonObject.fromTexts_renderTail : ∀ (fields : JsonObject) (d : Char),
    fields.numeric = true → d ∈ fields.renderTail → FromTexts d fields.texts
  | .nil, d, _, h => fromTexts_ascii (ascii_of_mem (by decide) h)
  | .cons key value rest, d, hn, h => by
      rcases mem_cons.1 h with rfl | h
      · exact fromTexts_ascii (by decide)
      · exact JsonObject.fromTexts_render (.cons key value rest) d hn h
end

mutual
theorem Json.mem_render_of_mem : ∀ (j : Json) {d : Char} {s : String}, 128 ≤ d.toNat →
    s ∈ j.texts → d ∈ s.toList → d ∈ j.render
  | .null, d, s, _, hs, _ | .bool _, d, s, _, hs, _ | .num _, d, s, _, hs, _ => by cases hs
  | .str s', d, s, hd, hs, h => by
      rw [mem_singleton.1 hs] at h
      exact mem_cons_of_mem _ (mem_escapeChars_of_mem (by omega) h)
  | .arr items, d, s, hd, hs, h =>
    mem_cons_of_mem _ (JsonArray.mem_render_of_mem items hd hs h).1
  | .obj fields, d, s, hd, hs, h =>
    mem_cons_of_mem _ (JsonObject.mem_render_of_mem fields hd hs h).1
theorem JsonArray.mem_render_of_mem : ∀ (items : JsonArray) {d : Char} {s : String},
    128 ≤ d.toNat → s ∈ items.texts → d ∈ s.toList → d ∈ items.render ∧ d ∈ items.renderTail
  | .nil, d, s, _, hs, _ => by cases hs
  | .cons head tail, d, s, hd, hs, h => by
      have hmem : d ∈ head.render ++ tail.renderTail := by
        rcases mem_append.1 hs with hs | hs
        · exact mem_append_left _ (Json.mem_render_of_mem head hd hs h)
        · exact mem_append_right _ (JsonArray.mem_render_of_mem tail hd hs h).2
      exact ⟨hmem, mem_cons_of_mem _ hmem⟩
theorem JsonObject.mem_render_of_mem : ∀ (fields : JsonObject) {d : Char} {s : String},
    128 ≤ d.toNat → s ∈ fields.texts → d ∈ s.toList → d ∈ fields.render ∧ d ∈ fields.renderTail
  | .nil, d, s, _, hs, _ => by cases hs
  | .cons key value rest, d, s, hd, hs, h => by
      have hmem : d ∈ renderString key ++ ':' :: (value.render ++ rest.renderTail) := by
        rcases mem_cons.1 hs with rfl | hs
        · exact mem_append_left _ (mem_cons_of_mem _ (mem_escapeChars_of_mem (by omega) h))
        refine mem_append_right _ (mem_cons_of_mem _ ?_)
        rcases mem_append.1 hs with hs | hs
        · exact mem_append_left _ (Json.mem_render_of_mem value hd hs h)
        · exact mem_append_right _ (JsonObject.mem_render_of_mem rest hd hs h).2
      exact ⟨hmem, mem_cons_of_mem _ hmem⟩
end

/-- **A character above the ASCII range occurs in the text of a value exactly when it occurs in one
of its strings.** -/
theorem Json.mem_render_iff (hj : j.numeric) (hd : 128 ≤ d.toNat) :
    d ∈ j.render ↔ ∃ s ∈ j.texts, d ∈ s.toList := by
  constructor
  · intro h
    exact (Json.fromTexts_render j d hj h).2 hd
  · rintro ⟨s, hs, h⟩
    exact Json.mem_render_of_mem j hd hs h

end AgentPlatform
