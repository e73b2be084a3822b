/-
**Fitting the items of a tool result to its byte limit.**
-/

import AgentPlatform.JsonSize

namespace AgentPlatform

open List

/-- The fields of a result in their sorted order. -/
structure ResultForm where
  before : List (String × Json)
  field : String
  after : List (String × Json)

open ResultForm

namespace ResultForm

variable (form : ResultForm)

def fields (items : List Json) (truncated : Bool) : List (String × Json) :=
  form.before ++ (form.field, .arr (.ofList items)) :: form.after ++ [("truncated", .bool truncated)]

def result (items : List Json) (truncated : Bool) : JsonObject :=
  .ofList (form.fields items truncated)

end ResultForm

/-- The loop of `_fit_result_items`. -/
def fitItems (limit : ℕ) : List Json → ℕ → List Json → List Json × Bool
  | retained, _, [] => (retained, false)
  | retained, retainedSize, item :: rest =>
    let candidateSize :=
      retainedSize + textSize item.render + (if retained.isEmpty then 0 else 1)
    if limit < candidateSize then (retained, true)
    else fitItems limit (retained ++ [item]) candidateSize rest

/-- `_fit_result_items`; the base has the flag of the source. -/
def fitResultItems (form : ResultForm) (source : Bool) (items : List Json) (limit : ℕ) :
    List Json × Bool :=
  fitItems limit [] (serializedSize (form.result [] source)) items

def boundedResult (value : JsonObject) (limit : ℕ) : Except Failure JsonObject :=
  if limit < serializedSize value then
    domainError "tool_result_limit" "the tool result exceeds its configured byte limit" false
      (.ofList [("limit_bytes", .num (Nat.repr limit))])
  else .ok value

/-- What `list_files` and `search_files` do with the items they found. -/
def fittedResult (form : ResultForm) (source : Bool) (items : List Json) (limit : ℕ) :
    Except Failure JsonObject :=
  let (retained, limited) := fitResultItems form source items limit
  boundedResult (form.result retained (source || limited)) limit

/-- `ListFilesResult`. -/
def listFilesForm (path : String) (protectedOmitted : Bool) : ResultForm where
  before := []
  field := "entries"
  after := [("path", .str path), ("protected_entries_omitted", .bool protectedOmitted)]

/-- `SearchFilesResult`. -/
def searchFilesForm (query : String) (protectedOmitted : Bool) : ResultForm where
  before := []
  field := "matches"
  after := [("protected_entries_omitted", .bool protectedOmitted), ("query", .str query)]

variable (form : ResultForm) (source : Bool)

theorem size_concat (retained : List Json) (item : Json) :
    serializedSize (form.result (retained ++ [item]) source) =
      serializedSize (form.result retained source) + textSize item.render +
        (if retained.isEmpty then 0 else 1) := by
  have hne : ∀ items, form.fields items source ≠ [] := by simp [fields]
  rw [result, result, serializedSize_ofList _ (hne _),
    serializedSize_ofList _ (hne _)]
  simp only [fields, map_append, map_cons, List.sum_append, sum_cons,
    fieldSize, textSize_arr, length_append, length_singleton]
  cases retained <;> simp <;> omega

theorem size_truncated (items : List Json) :
    serializedSize (form.result items true) + 1 = serializedSize (form.result items false) := by
  have hne : ∀ t, form.fields items t ≠ [] := by simp [fields]
  have htrue : textSize (Json.bool true).render = 4 := by decide
  have hfalse : textSize (Json.bool false).render = 5 := by decide
  rw [result, result, serializedSize_ofList _ (hne _),
    serializedSize_ofList _ (hne _)]
  simp only [fields, map_append, map_cons, List.sum_append, sum_cons,
    fieldSize, htrue, hfalse]
  omega

theorem size_mono {a b : List Json} (h : a <+: b) :
    serializedSize (form.result a source) ≤ serializedSize (form.result b source) := by
  obtain ⟨t, rfl⟩ := h
  induction t using reverseRecOn with
  | nil => simp
  | append_singleton t x ih =>
    rw [← List.append_assoc, size_concat]
    omega

theorem fitItems_spec {limit : ℕ} (rest retained : List Json)
    (hfit : serializedSize (form.result retained source) ≤ limit) :
    let out := fitItems limit retained (serializedSize (form.result retained source)) rest
    out.1 <+: retained ++ rest ∧ serializedSize (form.result out.1 source) ≤ limit ∧
      (out.2 = false → out.1 = retained ++ rest) ∧
      (out.2 = true → ∃ item t, retained ++ rest = out.1 ++ item :: t ∧
        limit < serializedSize (form.result (out.1 ++ [item]) source)) := by
  induction rest generalizing retained with
  | nil => simp [fitItems, hfit]
  | cons item rest ih =>
    unfold fitItems
    dsimp only
    rw [← size_concat]
    split
    next hover => exact ⟨prefix_append _ _, hfit, by simp, fun _ => ⟨item, rest, rfl, hover⟩⟩
    next hin =>
      have hkeep := ih (retained ++ [item]) (Nat.le_of_not_lt hin)
      simpa using hkeep

/-- **Result fitting is exact and safe.** -/
theorem result_fitting (form : ResultForm) (source : Bool) (items : List Json) (limit : ℕ)
    (hempty : serializedSize (form.result [] source) ≤ limit) :
    ∃ retained truncated,
      fittedResult form source items limit = .ok (form.result retained truncated) ∧
      serializedSize (form.result retained truncated) ≤ limit ∧ retained <+: items ∧
      serializedSize (form.result retained source) ≤ limit ∧
      (∀ p, p <+: items → serializedSize (form.result p source) ≤ limit →
        p.length ≤ retained.length) ∧
      (truncated = true ↔ retained ≠ items ∨ source = true) := by
  have hspec := fitItems_spec form source items [] hempty
  rw [fittedResult, fitResultItems]
  generalize fitItems limit [] (serializedSize (form.result [] source)) items = out at hspec
  obtain ⟨kept, limited⟩ := out
  obtain ⟨hpre, hfit, hall, hcut⟩ := hspec
  dsimp only [List.nil_append] at hpre hfit hall hcut
  have hfinal : serializedSize (form.result kept (source || limited)) ≤ limit := by
    cases source <;> cases limited
    · exact hfit
    · have := size_truncated form kept
      simp only [Bool.false_or]
      omega
    · exact hfit
    · exact hfit
  refine ⟨kept, source || limited, ?_, hfinal, hpre, hfit, fun p hp hpfit => ?_, ?_⟩
  · exact if_neg (Nat.not_lt.2 hfinal)
  · cases limited with
    | false => exact hall rfl ▸ hp.length_le
    | true =>
      obtain ⟨item, t, heq, hover⟩ := hcut rfl
      by_contra hlong
      have hlonger : kept ++ [item] <+: p := by
        refine List.prefix_of_prefix_length_le ⟨t, by simp [heq]⟩ hp ?_
        rw [length_append, length_singleton]
        omega
      have := size_mono form source hlonger
      omega
  · cases limited with
    | false => simp [hall rfl]
    | true =>
      obtain ⟨item, t, heq, -⟩ := hcut rfl
      have hne : kept ≠ items := by
        rintro rfl
        simpa using congrArg List.length heq
      simp [hne]

def listedFile (path : String) : Json := .obj (.ofList [("path", .str path), ("type", .str "file")])

theorem result_fitting_two : ∃ retained truncated,
    fittedResult (listFilesForm "." false) false [listedFile "a", listedFile "b"] 110 =
      .ok ((listFilesForm "." false).result retained truncated) ∧
        retained <+: [listedFile "a", listedFile "b"] := by
  obtain ⟨retained, truncated, hok, -, hpre, -⟩ :=
    result_fitting (listFilesForm "." false) false [listedFile "a", listedFile "b"] 110 (by decide)
  exact ⟨retained, truncated, hok, hpre⟩

end AgentPlatform
