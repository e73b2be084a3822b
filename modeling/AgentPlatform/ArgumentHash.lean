/-
**Argument hashes after a JSONB column.**

`canonical_argument_hash` (`agent_core/domain/models.py`) hashes the text that `json.dumps` writes
with sorted keys.  A JSONB column keeps a number as an exact numeric, so that a float can come back
as an integer; it gives the fields of an object back in its own order, and it refuses a text with the
character U+0000.

Main definitions:

* `PyValue` — a JSON value as Python holds it, and `PyValue.dumps`, its text
* `PyValue.stored`, `PyValue.jsonb` — what a JSONB column gives back
* `PyValue.Kept` — no number is a negative zero or a float from `1e16` on

Main results:

* `PyValue.dumps_stored_iff` — the text is the same after the column exactly for such values
* `argumentHash_stored_iff` — hence a stored hash still fits its arguments exactly for them
-/

import AgentPlatform.JsonText

namespace AgentPlatform

open List

/-! ### Numbers -/

/-- The shortest decimal `digits * 10 ^ exponent` that denotes a float, which `repr` writes. -/
structure Decimal where
  digits : ℕ
  exponent : ℤ
  shortest : digits % 10 ≠ 0 ∨ digits = 0 ∧ exponent = 0
  deriving DecidableEq

/-- A number of `json.loads`. -/
inductive PyNumber where
  | int (value : ℤ)
  | float (negative : Bool) (value : Decimal)
  deriving DecidableEq

namespace Decimal

/-- The number of digits before the decimal point. -/
def point (d : Decimal) : ℤ := (Nat.toDigits 10 d.digits).length + d.exponent

/-- `repr` writes a float with an exponent below `1e-4` and from `1e16` on. -/
def fixedNotation (d : Decimal) : Bool := -4 < d.point && d.point ≤ 16

def text (d : Decimal) : List Char :=
  let cs := Nat.toDigits 10 d.digits
  if d.fixedNotation then
    if d.point ≤ 0 then '0' :: '.' :: (replicate (-d.point).toNat '0' ++ cs)
    else if cs.length ≤ d.point.toNat then
      cs ++ replicate (d.point.toNat - cs.length) '0' ++ ['.', '0']
    else cs.take d.point.toNat ++ '.' :: cs.drop d.point.toNat
  else
    cs.take 1 ++ (if cs.length = 1 then [] else '.' :: cs.drop 1) ++
      'e' :: (if d.point ≤ 0 then '-' else '+') ::
        ((if (d.point - 1).natAbs < 10 then ['0'] else []) ++ Nat.toDigits 10 (d.point - 1).natAbs)

/-- The shortest form of a decimal, with fuel for the zeros at its end. -/
def shorten : ℕ → ℕ → ℤ → Decimal
  | 0, _, _ => ⟨0, 0, .inr ⟨rfl, rfl⟩⟩
  | fuel + 1, digits, exponent =>
    if h : digits % 10 = 0 then shorten fuel (digits / 10) (exponent + 1)
    else ⟨digits, exponent, .inl h⟩

theorem shorten_mul {digits : ℕ} (h : digits % 10 ≠ 0) {k fuel : ℕ} (hk : k < fuel)
    (exponent : ℤ) : shorten fuel (digits * 10 ^ k) exponent = ⟨digits, exponent + k, .inl h⟩ := by
  induction k generalizing fuel exponent with
  | zero =>
    obtain ⟨fuel, rfl⟩ : ∃ m, fuel = m + 1 := ⟨fuel - 1, by omega⟩
    simp [shorten, h]
  | succ k ih =>
    obtain ⟨fuel, rfl⟩ : ∃ m, fuel = m + 1 := ⟨fuel - 1, by omega⟩
    have hmul : digits * 10 ^ (k + 1) = digits * 10 ^ k * 10 := by rw [pow_succ, Nat.mul_assoc]
    rw [shorten, hmul, dif_pos (Nat.mul_mod_left ..), Nat.mul_div_cancel _ (by decide),
      ih (by omega)]
    congr 1
    push_cast
    omega

end Decimal

def PyNumber.text : PyNumber → List Char
  | .int value => value.repr.toList
  | .float negative value => (if negative then ['-'] else []) ++ value.text

/-- A PostgreSQL `numeric`: it has no negative zero, and it is printed with `scale` decimals. -/
structure Numeric where
  negative : Bool
  coefficient : ℕ
  scale : ℕ

/-- The numeric that the text of a number denotes. -/
def PyNumber.numeric : PyNumber → Numeric
  | .int value => ⟨value < 0, value.natAbs, 0⟩
  | .float negative d =>
    let scale := max (if d.fixedNotation then 1 else 0) (-d.exponent).toNat
    ⟨negative && d.digits ≠ 0, d.digits * 10 ^ (scale + d.exponent).toNat, scale⟩

/-- `json.loads` of the printed numeric: without decimals it is an integer. -/
def Numeric.read (n : Numeric) : PyNumber :=
  if n.scale = 0 then .int (if n.negative then -n.coefficient else n.coefficient)
  else .float n.negative (.shorten n.coefficient n.coefficient (-n.scale))

/-- No negative zero, and no float from `1e16` on: with its 17 digits at most it has no decimals. -/
def PyNumber.Kept : PyNumber → Prop
  | .int _ => True
  | .float negative d => ¬ (negative = true ∧ d.digits = 0) ∧ (d.exponent < 0 ∨ d.point ≤ 16)

theorem PyNumber.Kept.read {n : PyNumber} (h : n.Kept) : n.numeric.read = n := by
  cases n with
  | int value =>
    rw [PyNumber.numeric, Numeric.read, if_pos rfl]
    simp only [decide_eq_true_eq]
    congr 1
    split <;> omega
  | float negative d =>
    obtain ⟨digits, exponent, hdigits | ⟨rfl, rfl⟩⟩ := d
    · rw [PyNumber.numeric]
      obtain ⟨-, hpoint⟩ := h
      generalize hd : (⟨digits, exponent, .inl hdigits⟩ : Decimal) = d at hpoint ⊢
      generalize hs : max (if d.fixedNotation then 1 else 0) (-d.exponent).toNat = scale
      -- a number below `1e16` has decimals in either notation
      have hpos : scale ≠ 0 := by
        by_cases hfixed : d.fixedNotation
        · rw [if_pos hfixed] at hs
          omega
        · rw [Decimal.fixedNotation, and_eq_true, decide_eq_true_eq, decide_eq_true_eq] at hfixed
          rw [Decimal.point] at hfixed hpoint
          omega
      subst hd
      have hk : (scale + exponent).toNat < digits * 10 ^ (scale + exponent).toNat :=
        (Nat.lt_pow_self (by decide)).trans_le (Nat.le_mul_of_pos_left _ (by omega))
      have hne : digits ≠ 0 := by omega
      simp only [Numeric.read, if_neg hpos, Decimal.shorten_mul hdigits hk, PyNumber.float.injEq,
        Decimal.mk.injEq, true_and]
      simp only at hs
      exact ⟨by simp [hne], by omega⟩
    · cases negative with
      | false => decide
      | true => exact absurd ⟨rfl, rfl⟩ h.1

/-! ### Signs

A number that is not kept has one sign less when it comes back: that of the zero, or that of the
exponent.  No other text of a value changes, so its signs tell whether all its numbers are kept. -/

def signs (text : List Char) : ℕ := text.countP fun c => c = '+' || c = '-'

@[simp] theorem signs_nil : signs [] = 0 := rfl

@[simp] theorem signs_append (s t : List Char) : signs (s ++ t) = signs s + signs t := countP_append

@[simp] theorem signs_cons (c : Char) (t : List Char) :
    signs (c :: t) = signs t + if c = '+' || c = '-' then 1 else 0 := countP_cons

@[simp] theorem signs_toDigits (n : ℕ) : signs (Nat.toDigits 10 n) = 0 := by
  refine countP_eq_zero.2 fun c hc hsign => ?_
  have hdigit := Nat.isDigit_of_mem_toDigits (by decide) (by decide) hc
  rcases (by simpa using hsign : c = '+' ∨ c = '-') with rfl | rfl <;> revert hdigit <;> decide

theorem signs_int (value : ℤ) : signs (PyNumber.int value).text ≤ if value < 0 then 1 else 0 := by
  cases value with
  | ofNat n =>
    show signs n.repr.toList ≤ _
    rw [toList_natRepr, signs_toDigits]
    exact Nat.zero_le _
  | negSucc n =>
    show signs ("-" ++ n.succ.repr).toList ≤ _
    rw [String.toList_append, signs_append, toList_natRepr, signs_toDigits,
      if_pos (Int.negSucc_lt_zero n)]
    decide

theorem PyNumber.signs_read_lt {n : PyNumber} (h : ¬ n.Kept) :
    signs n.numeric.read.text < signs n.text := by
  cases n with
  | int => exact absurd trivial h
  | float negative d =>
    rcases not_and_or.1 h with hzero | hlarge
    · obtain ⟨digits, exponent, hd⟩ := d
      obtain ⟨rfl, hdigits⟩ := not_not.1 hzero
      obtain rfl : digits = 0 := hdigits
      obtain rfl : exponent = 0 := by simpa using hd
      obtain rfl : hd = .inr ⟨rfl, rfl⟩ := rfl
      decide
    · obtain ⟨hexp, hpoint⟩ := not_or.1 hlarge
      have hnot : d.fixedNotation = false := by simp [Decimal.fixedNotation]; omega
      have hscale : (-d.exponent).toNat = 0 := by omega
      have hread : (PyNumber.float negative d).numeric.read = .int
          (if negative && d.digits ≠ 0 then -(d.digits * 10 ^ d.exponent.toNat : ℕ)
            else (d.digits * 10 ^ d.exponent.toNat : ℕ)) := by
        simp [PyNumber.numeric, Numeric.read, hnot, hscale]
      have htext : 1 ≤ signs d.text := by
        simp only [Decimal.text, hnot, Bool.false_eq_true, if_false, if_neg (show ¬ d.point ≤ 0 by omega),
          signs_append, signs_cons]
        simp
        omega
      rw [hread]
      refine (signs_int _).trans_lt ?_
      rw [PyNumber.text, signs_append]
      cases negative with
      | false =>
        rw [if_neg (by simp)]
        omega
      | true =>
        have hsign : signs (if true = true then ['-'] else []) = 1 := by decide
        have hle (b : Prop) [Decidable b] : (if b then 1 else 0) ≤ 1 := by split <;> omega
        have := hle ((if true && decide (d.digits ≠ 0) then
          -((d.digits * 10 ^ d.exponent.toNat : ℕ) : ℤ) else (d.digits * 10 ^ d.exponent.toNat : ℕ)) < 0)
        omega

/-! ### Values -/

inductive PyKind where
  | value | items | fields

/-- A JSON value of Python; the fields of an object stand in the order of the `dict`. -/
inductive PyValue : PyKind → Type where
  | null : PyValue .value
  | bool (value : Bool) : PyValue .value
  | str (value : String) : PyValue .value
  | number (value : PyNumber) : PyValue .value
  | array (items : PyValue .items) : PyValue .value
  | object (fields : PyValue .fields) : PyValue .value
  | noItems : PyValue .items
  | item (head : PyValue .value) (rest : PyValue .items) : PyValue .items
  | noFields : PyValue .fields
  | field (key : String) (value : PyValue .value) (rest : PyValue .fields) : PyValue .fields

def PyValue.get? (key : String) : {k : PyKind} → PyValue k → Option (PyValue .value)
  | _, .field key' value rest => if key' = key then some value else get? key rest
  | _, _ => none

def PyValue.keys : {k : PyKind} → PyValue k → List String
  | _, .field key _ rest => key :: rest.keys
  | _, _ => []

/-- The texts of items, and of fields with their keys. -/
abbrev PyKind.Text : PyKind → Type
  | .value => List Char
  | .items => List (List Char)
  | .fields => List (String ×ₗ List Char)

def commas : List (List Char) → List Char
  | [] => []
  | [text] => text
  | text :: texts => text ++ ',' :: commas texts

def fieldText (f : String ×ₗ List Char) : List Char :=
  renderString (ofLex f).1 ++ ':' :: (ofLex f).2

/-- The text of `json.dumps` with `sort_keys`, which sorts the pairs of a key and a value; the keys
differ, so the order is that of the keys. -/
def PyValue.dumps : {k : PyKind} → PyValue k → k.Text
  | _, .null => "null".toList
  | _, .bool value => (if value then "true" else "false").toList
  | _, .str value => renderString value
  | _, .number value => value.text
  | _, .array items => '[' :: (commas items.dumps ++ [']'])
  | _, .object fields =>
    '\x7b' :: (commas ((insertionSort (· ≤ ·) fields.dumps).map fieldText) ++ ['\x7d'])
  | _, .noItems => []
  | _, .item head rest => head.dumps :: rest.dumps
  | _, .noFields => []
  | _, .field key value rest => toLex (key, value.dumps) :: rest.dumps

/-- JSONB puts shorter keys first, and keys of one length in the order of their bytes. -/
def PyValue.insertField (key : String) (value : PyValue .value) : {k : PyKind} → PyValue k → PyValue k
  | _, .noFields => .field key value .noFields
  | _, .field key' value' rest =>
    if key.utf8ByteSize < key'.utf8ByteSize ∨ key.utf8ByteSize = key'.utf8ByteSize ∧ key ≤ key' then
      .field key value (.field key' value' rest)
    else .field key' value' (insertField key value rest)
  | _, v => v

/-- What a JSONB column gives back. -/
def PyValue.stored : {k : PyKind} → PyValue k → PyValue k
  | _, .number value => .number value.numeric.read
  | _, .array items => .array items.stored
  | _, .object fields => .object fields.stored
  | _, .item head rest => .item head.stored rest.stored
  | _, .field key value rest => insertField key value.stored rest.stored
  | _, value => value

/-- No text of the value has the character U+0000. -/
def PyValue.storable : {k : PyKind} → PyValue k → Bool
  | _, .str value => value.toList.all (· ≠ '\x00')
  | _, .array items => items.storable
  | _, .object fields => fields.storable
  | _, .item head rest => head.storable && rest.storable
  | _, .field key value rest =>
    key.toList.all (· ≠ '\x00') && (value.storable && rest.storable)
  | _, _ => true

/-- A value through a JSONB column. -/
def PyValue.jsonb {k : PyKind} (v : PyValue k) : Except Failure (PyValue k) :=
  if v.storable then .ok v.stored
  else .error (.integrity "unsupported Unicode escape sequence: \\u0000 cannot be converted to text")

def PyValue.Kept : {k : PyKind} → PyValue k → Prop
  | _, .number value => value.Kept
  | _, .array items => items.Kept
  | _, .object fields => fields.Kept
  | _, .item head rest => head.Kept ∧ rest.Kept
  | _, .field _ value rest => value.Kept ∧ rest.Kept
  | _, _ => True

def canonicalArgumentHash (sha256 : List Char → String) (arguments : PyValue .fields) : String :=
  sha256 (PyValue.object arguments).dumps

/-- The first check of `DurablePendingToolCall.validate_approval`. -/
def argumentHashIssue (sha256 : List Char → String) (argumentHash : String)
    (arguments : PyValue .fields) : Option String :=
  if argumentHash ≠ canonicalArgumentHash sha256 arguments then
    some "pending tool argument hash does not match its arguments"
  else none

theorem PyValue.dumps_insertField (key : String) (value : PyValue .value) :
    ∀ fields : PyValue .fields,
      (insertField key value fields).dumps ~ toLex (key, value.dumps) :: fields.dumps
  | .noFields => .refl _
  | .field key' value' rest => by
    rw [insertField]
    split
    · exact .refl _
    · exact ((dumps_insertField key value rest).cons _).trans (.swap ..)

theorem insertionSort_congr {fields fields' : List (String ×ₗ List Char)} (h : fields ~ fields') :
    insertionSort (· ≤ ·) fields = insertionSort (· ≤ ·) fields' :=
  Perm.eq_of_pairwise (fun _ _ _ _ => le_antisymm) (pairwise_insertionSort ..)
    (pairwise_insertionSort ..)
    ((perm_insertionSort ..).trans (h.trans (perm_insertionSort ..).symm))

/-- The same texts, those of fields in any order. -/
def PyKind.Same : (k : PyKind) → k.Text → k.Text → Prop
  | .value, s, t => s = t
  | .items, s, t => s = t
  | .fields, s, t => s ~ t

theorem PyValue.Kept.same {k : PyKind} {v : PyValue k} (h : v.Kept) :
    k.Same v.stored.dumps v.dumps := by
  induction v with
  | number value => exact congrArg PyNumber.text h.read
  | array items ih =>
    have hitems : items.stored.dumps = items.dumps := ih h
    simp only [PyKind.Same, stored, dumps, hitems]
  | object fields ih =>
    have hfields : fields.stored.dumps ~ fields.dumps := ih h
    simp only [PyKind.Same, stored, dumps, insertionSort_congr hfields]
  | item head rest ih1 ih2 => exact congrArg₂ cons (ih1 h.1) (ih2 h.2)
  | field key value rest ih1 ih2 =>
    have hvalue : value.stored.dumps = value.dumps := ih1 h.1
    have hrest : rest.stored.dumps ~ rest.dumps := ih2 h.2
    refine (dumps_insertField ..).trans ?_
    rw [hvalue]
    exact hrest.cons _
  | noFields => exact Perm.refl _
  | _ => rfl

def PyKind.signs : (k : PyKind) → k.Text → ℕ
  | .value, text => AgentPlatform.signs text
  | .items, texts => (texts.map AgentPlatform.signs).sum
  | .fields, texts => (texts.map fun f => AgentPlatform.signs (fieldText f)).sum

theorem signs_commas (texts : List (List Char)) : signs (commas texts) = (texts.map signs).sum := by
  induction texts with
  | nil => rfl
  | cons text texts ih =>
    cases texts with
    | nil => simp [commas]
    | cons next texts => simp [commas, ih]

theorem signs_fieldText (key : String) (text : List Char) :
    signs (fieldText (toLex (key, text))) = signs (renderString key) + signs text := by
  simp [fieldText]

theorem signs_object (fields : PyValue .fields) :
    signs (PyValue.object fields).dumps = PyKind.signs .fields fields.dumps := by
  have hperm : (insertionSort (· ≤ ·) fields.dumps).map (fun f => signs (fieldText f)) ~
      fields.dumps.map fun f => signs (fieldText f) := (perm_insertionSort ..).map _
  simp only [PyValue.dumps, signs_cons, signs_append, signs_commas, map_map]
  rw [PyKind.signs, ← hperm.sum_eq]
  rfl

theorem PyValue.signs_stored {k : PyKind} (v : PyValue k) :
    k.signs v.stored.dumps ≤ k.signs v.dumps ∧
      (k.signs v.stored.dumps = k.signs v.dumps → v.Kept) := by
  induction v with
  | number value =>
    by_cases h : value.Kept
    · refine ⟨?_, fun _ => h⟩
      show signs value.numeric.read.text ≤ signs value.text
      rw [h.read]
    · have hlt := PyNumber.signs_read_lt h
      exact ⟨hlt.le, fun heq => absurd heq hlt.ne⟩
  | array items ih =>
    have hsigns (items : PyValue .items) :
        signs (PyValue.array items).dumps = PyKind.signs .items items.dumps := by
      simp [dumps, signs_commas, PyKind.signs]
    simpa only [PyKind.signs, stored, hsigns, Kept] using ih
  | object fields ih => simpa only [PyKind.signs, stored, signs_object, Kept] using ih
  | item head rest ih1 ih2 =>
    simp only [PyKind.signs, stored, dumps, map_cons, sum_cons, Kept] at ih1 ih2 ⊢
    exact ⟨by omega, fun h => ⟨ih1.2 (by omega), ih2.2 (by omega)⟩⟩
  | field key value rest ih1 ih2 =>
    have hinsert := ((dumps_insertField key value.stored rest.stored).map
      fun f => signs (fieldText f)).sum_eq
    simp only [map_cons, sum_cons, signs_fieldText] at hinsert
    simp only [PyKind.signs, stored, dumps, map_cons, sum_cons, signs_fieldText, Kept] at ih1 ih2 ⊢
    rw [hinsert]
    exact ⟨by omega, fun h => ⟨ih1.2 (by omega), ih2.2 (by omega)⟩⟩
  | _ => exact ⟨le_rfl, fun _ => trivial⟩

theorem PyValue.dumps_stored_iff (fields : PyValue .fields) :
    (object fields.stored).dumps = (object fields).dumps ↔ fields.Kept := by
  refine ⟨fun h => (signs_stored (object fields)).2 (congrArg signs h), fun h => ?_⟩
  exact Kept.same (v := object fields) h

/-- **Exactly the arguments without U+0000, negative zeros and floats from `1e16` on are read back from
their row with a hash that fits**, for a digest that tells the two texts apart. -/
theorem argumentHash_stored_iff (sha256 : List Char → String) (arguments : PyValue .fields)
    (distinct : canonicalArgumentHash sha256 arguments =
        canonicalArgumentHash sha256 arguments.stored →
      (PyValue.object arguments).dumps = (PyValue.object arguments.stored).dumps) :
    (∃ row, arguments.jsonb = .ok row ∧
      canonicalArgumentHash sha256 row = canonicalArgumentHash sha256 arguments ∧
      argumentHashIssue sha256 (canonicalArgumentHash sha256 arguments) row = none) ↔
    arguments.storable = true ∧ arguments.Kept := by
  constructor
  · rintro ⟨row, hrow, hhash, -⟩
    rw [PyValue.jsonb] at hrow
    split at hrow
    next hstorable =>
      cases hrow
      exact ⟨hstorable, (PyValue.dumps_stored_iff arguments).1 (distinct hhash.symm).symm⟩
    next => cases hrow
  · rintro ⟨hstorable, hkept⟩
    have hhash : canonicalArgumentHash sha256 arguments.stored =
        canonicalArgumentHash sha256 arguments :=
      congrArg sha256 ((PyValue.dumps_stored_iff arguments).2 hkept)
    exact ⟨_, if_pos hstorable, hhash, if_neg (not_not.2 hhash.symm)⟩

/-- `{"width": 0.5, "n": 3}` comes back with its fields in another order. -/
def halfWidth : PyValue .fields :=
  .field "width" (.number (.float false ⟨5, -1, by decide⟩)) (.field "n" (.number (.int 3)) .noFields)

theorem halfWidth_kept : halfWidth.Kept := by
  simp only [halfWidth, PyValue.Kept, PyNumber.Kept]
  decide

theorem argumentHash_stored_half : ∃ row, halfWidth.jsonb = .ok row ∧
    canonicalArgumentHash String.ofList row = canonicalArgumentHash String.ofList halfWidth ∧
    argumentHashIssue String.ofList (canonicalArgumentHash String.ofList halfWidth) row = none :=
  (argumentHash_stored_iff String.ofList halfWidth String.ofList_injective).2
    ⟨by decide, halfWidth_kept⟩

/-- `{"n": 1e16}`. -/
def largeFloat : PyValue .fields :=
  .field "n" (.number (.float false ⟨1, 16, by decide⟩)) .noFields

theorem largeFloat_not_kept : ¬ largeFloat.Kept := by
  simp only [largeFloat, PyValue.Kept, PyNumber.Kept]
  decide

/-- `1e16` comes back as an integer, and no injective digest hides it. -/
theorem argumentHash_lost : largeFloat.storable = true ∧ ¬ ∃ sha256 : List Char → String,
    Function.Injective sha256 ∧ argumentHashIssue sha256 (canonicalArgumentHash sha256 largeFloat)
      largeFloat.stored = none := by
  refine ⟨by decide, fun ⟨sha256, hinj, h⟩ => ?_⟩
  have hhash : canonicalArgumentHash sha256 largeFloat =
      canonicalArgumentHash sha256 largeFloat.stored := by
    simpa [argumentHashIssue] using h
  exact largeFloat_not_kept ((PyValue.dumps_stored_iff largeFloat).1 (hinj hhash).symm)

end AgentPlatform
