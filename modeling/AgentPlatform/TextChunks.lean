/-
**Texts cut at a byte limit.**

`_utf8_chunks` (`agent_core/context.py`) cuts the encoded text and decodes the pieces;
`_append_bounded_output` (`agent_core/_tool_turn.py`) and `_model_text_chunks`
(`agent_core/_model_turn.py`) bound what a tool prints and what a model says in one event.
-/

import AgentPlatform.ContextPipeline
import AgentPlatform.OutputEvents

namespace AgentPlatform

open List Nat String

/-! ### Encoded texts -/

def utf8Encode (text : List Char) : List UInt8 := text.flatMap String.utf8EncodeChar

/-- The character that some bytes start with. -/
def frontChar? (bytes : List UInt8) : Option Char := bytes.toByteArray.utf8DecodeChar? 0

def decodeLoop : ℕ → List UInt8 → List Char × List UInt8
  | 0, input => ([], input)
  | fuel + 1, input =>
    match frontChar? input with
    | none => ([], input)
    | some c =>
      let (text, rest) := decodeLoop fuel (input.drop c.utf8Size)
      (c :: text, rest)

/-- `bytes.decode("utf-8")`, or the `start` of its error. -/
def utf8Decode (bytes : List UInt8) : Except ℕ (List Char) :=
  let (text, rest) := decodeLoop bytes.length bytes
  if rest = [] then .ok text else .error (bytes.length - rest.length)

variable {c : Char} {cs : List Char} {n fuel limit : ℕ}

theorem utf8Encode_cons : utf8Encode (c :: cs) = utf8EncodeChar c ++ utf8Encode cs := rfl

theorem length_utf8Encode (cs : List Char) : (utf8Encode cs).length = textSize cs := by
  induction cs with
  | nil => rfl
  | cons c cs ih =>
    rw [utf8Encode_cons, length_append, ih, length_utf8EncodeChar, textSize_cons]

theorem frontChar?_encode (c : Char) (bytes : List UInt8) :
    frontChar? (utf8EncodeChar c ++ bytes) = some c := by
  rw [frontChar?, List.toByteArray_append]
  exact ByteArray.utf8DecodeChar?_utf8EncodeChar_append

/-- A character that is cut off is not read. -/
theorem frontChar?_cut (h : n < c.utf8Size) :
    frontChar? ((utf8EncodeChar c).take n) = none := by
  by_contra hne
  obtain ⟨d, hd⟩ := Option.ne_none_iff_exists'.1 hne
  obtain ⟨rest, heq⟩ : ∃ rest, (utf8EncodeChar c).take n =
      utf8EncodeChar d ++ rest := by
    have heq := congrArg (fun b => b.data.toList) (ByteArray.eq_of_utf8DecodeChar?_eq_some hd)
    exact ⟨_, by simpa using heq⟩
  have hread := frontChar?_encode d (rest ++ (utf8EncodeChar c).drop n)
  rw [← append_assoc, ← heq, take_append_drop, ← append_nil (utf8EncodeChar c),
    frontChar?_encode] at hread
  have hlen := congrArg List.length heq
  rw [← Option.some_inj.1 hread, length_append, length_take,
    length_utf8EncodeChar] at hlen
  omega

/-! ### Chunks of a text -/

/-- The inner loop of `_utf8_chunks`: the slice is shortened to where its decoding failed. -/
def utf8Cut : ℕ → List UInt8 → Option (List Char × ℕ)
  | 0, _ => none
  | fuel + 1, slice =>
    if slice = [] then none
    else match utf8Decode slice with
      | .ok text => some (text, slice.length)
      | .error start => utf8Cut fuel (slice.take start)

def utf8CutLoop (limit : ℕ) : ℕ → List UInt8 → Option (List String)
  | 0, input => if input = [] then some [] else none
  | fuel + 1, input =>
    if input = [] then some []
    else match utf8Cut (limit + 1) (input.take limit) with
      | none => none
      | some (text, size) => (utf8CutLoop limit fuel (input.drop size)).map (String.ofList text :: ·)

/-- `_utf8_chunks` on the encoded text; `none` is its `AssertionError`. -/
def utf8ChunksOfBytes (value : String) (limit : ℕ) : Option (List String) :=
  let encoded := utf8Encode value.toList
  if encoded = [] then some [""] else utf8CutLoop limit encoded.length encoded

theorem utf8Take_append (n : ℕ) (cs : List Char) : (utf8Take n cs).1 ++ (utf8Take n cs).2 = cs := by
  induction cs generalizing n with
  | nil => rfl
  | cons c cs ih =>
    rw [utf8Take]
    split
    · exact congrArg (c :: ·) (ih _)
    · rfl

theorem utf8Encode_split (n : ℕ) (cs : List Char) : utf8Encode cs =
    utf8Encode (utf8Take n cs).1 ++ utf8Encode (utf8Take n cs).2 := by
  rw [utf8Encode, utf8Encode, utf8Encode, ← flatMap_append, utf8Take_append]

theorem textSize_utf8Take (n : ℕ) (cs : List Char) : textSize (utf8Take n cs).1 ≤ n := by
  induction cs generalizing n with
  | nil => exact Nat.zero_le _
  | cons c cs ih =>
    rw [utf8Take]
    split
    · have := ih (n - c.utf8Size)
      simp only [textSize_cons]
      omega
    · exact Nat.zero_le _

theorem utf8Take_all (h : textSize cs ≤ n) : utf8Take n cs = (cs, []) := by
  induction cs generalizing n with
  | nil => rfl
  | cons c cs ih =>
    rw [textSize_cons] at h
    rw [utf8Take, if_pos (by omega), ih (by omega)]

theorem decodeLoop_take (h : ((utf8Encode cs).take n).length ≤ fuel) :
    decodeLoop fuel ((utf8Encode cs).take n) = ((utf8Take n cs).1,
      (utf8Encode (utf8Take n cs).2).take (n - textSize (utf8Take n cs).1)) := by
  have hnone : frontChar? [] = none := rfl
  induction cs generalizing n fuel with
  | nil => cases fuel <;> simp [decodeLoop, utf8Encode, utf8Take, hnone]
  | cons c cs ih =>
    have hc : (utf8EncodeChar c).length = c.utf8Size := length_utf8EncodeChar c
    have hpos := c.utf8Size_pos
    rw [utf8Encode_cons] at h ⊢
    rw [utf8Take]
    split
    next hle =>
      rw [take_append, take_of_length_le (hc ▸ hle), hc] at h ⊢
      rw [length_append, hc] at h
      obtain ⟨fuel, rfl⟩ : ∃ k, fuel = k + 1 := ⟨fuel - 1, by omega⟩
      rw [decodeLoop, frontChar?_encode]
      dsimp only
      rw [drop_left' hc, ih (by omega)]
      simp only [textSize_cons, Nat.sub_sub]
    next hgt =>
      have hcut : (utf8Encode (c :: cs)).take n = (utf8EncodeChar c).take n :=
        take_append_of_le_length (by omega)
      rw [← utf8Encode_cons, textSize_nil, Nat.sub_zero, hcut]
      cases fuel with
      | zero => rfl
      | succ fuel => rw [decodeLoop, frontChar?_cut (not_le.1 hgt)]

theorem utf8Decode_take (h : n ≤ textSize cs) : utf8Decode ((utf8Encode cs).take n) =
    if textSize (utf8Take n cs).1 = n then .ok (utf8Take n cs).1
    else .error (textSize (utf8Take n cs).1) := by
  have hsize := congrArg textSize (utf8Take_append n cs)
  have hle := textSize_utf8Take n cs
  rw [textSize_append] at hsize
  rw [utf8Decode, decodeLoop_take le_rfl]
  simp only [← List.length_eq_zero_iff, length_take, length_utf8Encode]
  split_ifs
  · rfl
  · omega
  · omega
  · congr 1
    omega

theorem utf8Decode_encode (cs : List Char) : utf8Decode (utf8Encode cs) = .ok cs := by
  have htake := utf8Decode_take (le_refl (textSize cs))
  rwa [take_of_length_le (length_utf8Encode cs).le, utf8Take_all le_rfl, if_pos rfl] at htake

theorem utf8Encode_ne_nil (hne : cs ≠ []) : utf8Encode cs ≠ [] := by
  obtain ⟨c, cs, rfl⟩ := exists_cons_of_ne_nil hne
  have hpos := c.utf8Size_pos
  intro h
  have hlen := length_utf8Encode (c :: cs)
  rw [h, textSize_cons, length_nil] at hlen
  omega

theorem utf8Cut_encode (hne : cs ≠ []) :
    utf8Cut (fuel + 1) (utf8Encode cs) = some (cs, textSize cs) := by
  rw [utf8Cut, if_neg (utf8Encode_ne_nil hne), utf8Decode_encode, length_utf8Encode]

/-- Four bytes have room for a character. -/
theorem utf8Take_ne_nil (hl : 4 ≤ limit) (hne : cs ≠ []) : (utf8Take limit cs).1 ≠ [] := by
  obtain ⟨c, cs, rfl⟩ := exists_cons_of_ne_nil hne
  rw [utf8Take, if_pos (c.utf8Size_le_four.trans hl)]
  exact cons_ne_nil _ _

/-- The loop ends with the whole characters that fit. -/
theorem utf8Cut_take (hl : 4 ≤ limit) (hne : cs ≠ []) :
    utf8Cut (limit + 1) ((utf8Encode cs).take limit) =
      some ((utf8Take limit cs).1, textSize (utf8Take limit cs).1) := by
  by_cases hfits : textSize cs ≤ limit
  · rw [take_of_length_le ((length_utf8Encode cs).trans_le hfits), utf8Take_all hfits]
    exact utf8Cut_encode hne
  · have hkept := utf8Take_ne_nil hl hne
    have hslice : (utf8Encode cs).take limit ≠ [] := by
      rw [ne_eq, take_eq_nil_iff, not_or]
      exact ⟨by omega, utf8Encode_ne_nil hne⟩
    have hle := textSize_utf8Take limit cs
    have hfront : (utf8Encode cs).take (textSize (utf8Take limit cs).1) =
        utf8Encode (utf8Take limit cs).1 := by
      rw [utf8Encode_split limit cs]
      exact take_left' (length_utf8Encode _)
    rw [utf8Cut, if_neg hslice, utf8Decode_take (not_le.1 hfits).le]
    split_ifs with hwhole
    · rw [length_take, length_utf8Encode]
      simp only [hwhole]
      congr 2
      omega
    · dsimp only
      rw [take_take, min_eq_left hle, hfront]
      obtain ⟨k, rfl⟩ : ∃ k, limit = k + 1 := ⟨limit - 1, by omega⟩
      exact utf8Cut_encode hkept

theorem length_utf8Take_lt (hl : 4 ≤ limit) (hne : cs ≠ []) :
    (utf8Take limit cs).2.length < cs.length := by
  have happ := congrArg List.length (utf8Take_append limit cs)
  have hpos := length_pos_iff.2 (utf8Take_ne_nil hl hne)
  rw [length_append] at happ
  omega

/-- The loop over the encoded text is the one over its characters. -/
theorem utf8CutLoop_encode (hl : 4 ≤ limit) {steps : ℕ} (hs : cs.length ≤ steps)
    (hf : cs.length ≤ fuel) :
    utf8CutLoop limit fuel (utf8Encode cs) = some (utf8ChunkLoop limit steps cs) := by
  induction steps generalizing cs fuel with
  | zero =>
    obtain rfl := List.length_eq_zero_iff.1 (le_zero.1 hs)
    cases fuel <;> rfl
  | succ steps ih =>
    cases cs with
    | nil => cases fuel <;> rfl
    | cons c cs =>
      have hne := cons_ne_nil c cs
      have hlt := length_utf8Take_lt hl hne
      obtain ⟨fuel, rfl⟩ : ∃ k, fuel = k + 1 := ⟨fuel - 1, by
        rw [length_cons] at hf
        omega⟩
      rw [utf8CutLoop, if_neg (utf8Encode_ne_nil hne), utf8Cut_take hl hne]
      dsimp only
      rw [utf8Encode_split limit, drop_left' (length_utf8Encode _), ih (by omega) (by omega)]
      rfl

theorem utf8ChunkLoop_spec (hl : 4 ≤ limit) {steps : ℕ} (hs : cs.length ≤ steps) :
    (utf8ChunkLoop limit steps cs).flatMap toList = cs ∧
      ∀ chunk ∈ utf8ChunkLoop limit steps cs, chunk.utf8ByteSize ≤ limit := by
  induction steps generalizing cs with
  | zero =>
    obtain rfl := List.length_eq_zero_iff.1 (le_zero.1 hs)
    exact ⟨rfl, nofun⟩
  | succ steps ih =>
    cases cs with
    | nil => exact ⟨rfl, nofun⟩
    | cons c cs =>
      have hlt := length_utf8Take_lt hl (cons_ne_nil c cs)
      obtain ⟨hjoin, hbound⟩ := @ih (utf8Take limit (c :: cs)).2 (by omega)
      rw [utf8ChunkLoop]
      refine ⟨?_, forall_mem_cons.2 ⟨?_, hbound⟩⟩
      · rw [flatMap_cons, toList_ofList, hjoin, utf8Take_append]
      · rw [utf8ByteSize_eq_textSize, toList_ofList]
        exact textSize_utf8Take limit (c :: cs)

/-- **The chunks of a text** are within the limit, end at characters, and make up the text. -/
theorem utf8ChunksOfBytes_ok (value : String) (limit : ℕ) (hl : 4 ≤ limit) :
    utf8ChunksOfBytes value limit = some (utf8Chunks value limit) ∧
      String.join (utf8Chunks value limit) = value ∧
      ∀ chunk ∈ utf8Chunks value limit, chunk.utf8ByteSize ≤ limit := by
  by_cases hempty : value = ""
  · subst hempty
    exact ⟨rfl, rfl, by simp [utf8Chunks]⟩
  · have hne : value.toList ≠ [] := fun h => hempty (String.toList_eq_nil_iff.1 h)
    obtain ⟨hjoin, hbound⟩ := utf8ChunkLoop_spec hl value.length_toList.le
    rw [utf8ChunksOfBytes, utf8Chunks, if_neg hempty, if_neg (utf8Encode_ne_nil hne)]
    refine ⟨utf8CutLoop_encode hl value.length_toList.le ?_, ?_, hbound⟩
    · rw [length_utf8Encode]
      exact length_le_textSize _
    · rw [← String.toList_inj, String.toList_join, hjoin]

theorem utf8ChunksOfBytes_ok_emoji : utf8ChunksOfBytes "a😀é" 4 = some ["a", "😀", "é"] := by
  have hchunks : utf8Chunks "a😀é" 4 = ["a", "😀", "é"] := by decide +kernel
  exact hchunks ▸ (utf8ChunksOfBytes_ok "a😀é" 4 le_rfl).1

/-! ### The text of a model -/

/-- `_model_text_payload_fits`; `false` also where the payload is not built because the id is no
identifier. -/
def modelTextPayloadFits (modelCallId : String) (delta : List Char) : Bool :=
  (identifierString? modelCallId).any fun id =>
    serializedSize (.ofList [("model_call_id", .str id), ("delta", .str (.ofList delta))]) ≤
      maxEventPayloadBytes

/-- The inner loop of `_model_text_chunks`. -/
def largestFit (fits : ℕ → Bool) : ℕ → ℕ → ℕ → ℕ → ℕ
  | 0, _, _, best => best
  | fuel + 1, lower, upper, best =>
    if lower ≤ upper then
      let middle := (lower + upper) / 2
      if fits middle then largestFit fits fuel (middle + 1) upper middle
      else largestFit fits fuel lower (middle - 1) best
    else best

def modelTextChunkLoop (fits : List Char → Bool) : ℕ → List Char → Option (List (List Char))
  | 0, _ => none
  | fuel + 1, remaining =>
    if remaining = [] then some []
    else if fits remaining then some [remaining]
    else
      let best := largestFit (fun n => fits (remaining.take n)) remaining.length 1
        (remaining.length - 1) 0
      if best = 0 then none
      else (modelTextChunkLoop fits fuel (remaining.drop best)).map (remaining.take best :: ·)

/-- `_model_text_chunks`; `none` where it raises. -/
def modelTextChunks (value modelCallId : String) : Option (List String) :=
  (modelTextChunkLoop (modelTextPayloadFits modelCallId) (value.length + 1) value.toList).map
    (·.map String.ofList)

/-- The search stays between a fitting length, or none, and one that does not fit. -/
theorem largestFit_spec {fits : ℕ → Bool} {fuel best upper : ℕ} (hfuel : upper ≤ best + fuel)
    (hle : best ≤ upper) (hbest : best = 0 ∨ fits best) (hupper : fits (upper + 1) = false) :
    let found := largestFit fits fuel (best + 1) upper best
    (found = 0 ∨ fits found) ∧ fits (found + 1) = false ∧ found ≤ upper := by
  induction fuel generalizing best upper with
  | zero =>
    obtain rfl : best = upper := by omega
    exact ⟨hbest, hupper, le_rfl⟩
  | succ fuel ih =>
    rw [largestFit]
    split
    next hlt =>
      dsimp only
      generalize hm : (best + 1 + upper) / 2 = middle
      split
      next hfits => exact ih (by omega) (by omega) (.inr hfits) hupper
      next hfits =>
        have hmiddle : fits (middle - 1 + 1) = false := by
          rw [Nat.sub_add_cancel (by omega)]
          simpa using hfits
        obtain ⟨h1, h2, h3⟩ := ih (by omega) (by omega) hbest hmiddle
        exact ⟨h1, h2, by omega⟩
    next hlt =>
      obtain rfl : best = upper := by omega
      exact ⟨hbest, hupper, le_rfl⟩

/-- What is wanted of the pieces of a text. -/
structure ChunksOf (fits : List Char → Bool) (value : List Char) (chunks : List (List Char)) :
    Prop where
  join : chunks.flatten = value
  nonempty : ∀ chunk ∈ chunks, chunk ≠ []
  fit : ∀ chunk ∈ chunks, fits chunk
  largest : chunks.IsChain fun chunk next => fits (chunk ++ next.take 1) = false

theorem ChunksOf.cons {fits : List Char → Bool} {value : List Char} {chunks : List (List Char)}
    {n : ℕ} (h : ChunksOf fits (value.drop n) chunks) (hn : value.take n ≠ [])
    (hfits : fits (value.take n)) (hlargest : fits (value.take (n + 1)) = false) :
    ChunksOf fits value (value.take n :: chunks) := by
  obtain ⟨hjoin, hne, hfit, hchain⟩ := h
  refine ⟨by rw [flatten_cons, hjoin, take_append_drop],
    forall_mem_cons.2 ⟨hn, hne⟩, forall_mem_cons.2 ⟨hfits, hfit⟩, ?_⟩
  cases chunks with
  | nil => exact .singleton _
  | cons next rest =>
    refine .cons_cons ?_ hchain
    obtain ⟨c, cs, rfl⟩ := exists_cons_of_ne_nil (hne next (mem_cons_self ..))
    rw [← hlargest, take_add, ← hjoin]
    rfl

theorem modelTextChunkLoop_spec {fits : List Char → Bool} (hone : ∀ c, fits [c]) {fuel : ℕ}
    {value : List Char} (hfuel : value.length < fuel) :
    ∃ chunks, modelTextChunkLoop fits fuel value = some chunks ∧ ChunksOf fits value chunks := by
  induction fuel generalizing value with
  | zero => omega
  | succ fuel ih =>
    rw [modelTextChunkLoop]
    split
    next hnil => exact ⟨[], rfl, hnil.symm, nofun, nofun, .nil⟩
    next hne =>
      have hpos := length_pos_iff.2 hne
      split
      next hfits =>
        exact ⟨[value], rfl, by simp, by simpa using hne, by simpa using hfits, .singleton _⟩
      next hfits =>
        have hwhole : fits (value.take (value.length - 1 + 1)) = false := by
          rw [Nat.sub_add_cancel hpos, take_length]
          simpa using hfits
        obtain ⟨hfound, hlargest, hle⟩ := @largestFit_spec (fun n => fits (value.take n))
          value.length 0 _ (by omega) (by omega) (.inl rfl) hwhole
        dsimp only at hfound hlargest hle ⊢
        generalize largestFit _ value.length (0 + 1) (value.length - 1) 0 = best at *
        have hbest : best ≠ 0 := by
          rintro rfl
          obtain ⟨c, cs, rfl⟩ := exists_cons_of_ne_nil hne
          exact Bool.eq_false_iff.1 hlargest (hone c)
        obtain ⟨chunks, heq, h⟩ := @ih (value.drop best) (by rw [length_drop]; omega)
        rw [if_neg hbest, heq]
        exact ⟨_, rfl, h.cons (by simpa [hbest] using hne) (hfound.resolve_left hbest) hlargest⟩

theorem modelTextPayloadFits_singleton {modelCallId : String}
    (h : (identifierString? modelCallId).isSome) (c : Char) :
    modelTextPayloadFits modelCallId [c] := by
  have hkeys : jsonStringContentSize "model_call_id".toList = 13 ∧
      jsonStringContentSize "delta".toList = 5 := by decide
  obtain ⟨id, hid⟩ := Option.isSome_iff_exists.1 h
  have hlen : id.length ≤ 255 := by
    simp only [identifierString?, Option.ite_none_right_eq_some, Option.some.injEq] at hid
    exact hid.2 ▸ hid.1.2
  have hvalue := jsonStringContentSize_le id.toList
  have hone := jsonStringContentSize_le [c]
  rw [length_toList] at hvalue
  rw [modelTextPayloadFits, hid, any_some, decide_eq_true_eq,
    serializedSize_ofList _ (cons_ne_nil _ _)]
  simp only [map_cons, map_nil, sum_cons, sum_nil, fieldSize, Json.render,
    textSize_renderString, toList_ofList, hkeys, length_singleton] at hone ⊢
  rw [maxEventPayloadBytes]
  omega

/-- The chunks of a model's text are its longest pieces that fit into an event. -/
theorem modelTextChunks_ok (value modelCallId : String)
    (h : (identifierString? modelCallId).isSome) :
    ∃ chunks, modelTextChunks value modelCallId = some chunks ∧ String.join chunks = value ∧
      (∀ chunk ∈ chunks, chunk ≠ "" ∧ modelTextPayloadFits modelCallId chunk.toList) ∧
      chunks.IsChain fun chunk next =>
        modelTextPayloadFits modelCallId (chunk.toList ++ next.toList.take 1) = false := by
  obtain ⟨chunks, heq, hjoin, hne, hfit, hchain⟩ := modelTextChunkLoop_spec
    (modelTextPayloadFits_singleton h) (Nat.lt_succ_of_le value.length_toList.le)
  refine ⟨chunks.map String.ofList, by rw [modelTextChunks, heq]; rfl, ?_, ?_, ?_⟩
  · rw [← String.toList_inj, String.toList_join, ← hjoin, List.flatMap_map, List.flatten_eq_flatMap]
    simp only [toList_ofList]
    rfl
  · rw [List.forall_mem_map]
    intro chunk hmem
    rw [toList_ofList]
    exact ⟨by simpa using hne chunk hmem, hfit chunk hmem⟩
  · rw [List.isChain_map]
    simpa only [toList_ofList] using hchain

theorem modelTextChunks_ok_hello : ∃ chunks, modelTextChunks "hello" "call" = some chunks ∧
    String.join chunks = "hello" :=
  (modelTextChunks_ok "hello" "call" (by decide +kernel)).imp fun _ h => ⟨h.1, h.2.1⟩

/-! ### The output of a tool -/

/-- What a sequence of chunks prints, character by character. -/
def printed (chunks : List (ToolOutputChannel × String)) : List (ToolOutputChannel × Char) :=
  chunks.flatMap fun e => e.2.toList.map (e.1, ·)

def printedOn (channel : ToolOutputChannel) (chunks : List (ToolOutputChannel × String)) :
    List Char :=
  ((printed chunks).filter (·.1 = channel)).map Prod.snd

def bufferedChunks (output : List BufferedOutput) : List (ToolOutputChannel × String) :=
  output.map fun o => (o.channel, o.chunk)

/-- Repeated calls of `_append_bounded_output`. -/
def appendAll (limit : ℕ) (chunks : List (ToolOutputChannel × String)) : List BufferedOutput × ℕ :=
  chunks.foldl (fun s e =>
    let t := appendBoundedOutput s.1 e.1 e.2 s.2
    (t.1, t.2.1)) ([], limit)

/-- The buffer has what was printed up to where the budget was used up. -/
structure Buffers (limit : ℕ) (chunks : List (ToolOutputChannel × String))
    (output : List BufferedOutput) (remaining : ℕ) : Prop where
  kept : printed (bufferedChunks output) <+: printed chunks
  whole : printed (bufferedChunks output) = printed chunks ∨ remaining = 0
  bounded : ((bufferedChunks output).map (·.2.utf8ByteSize)).sum + remaining ≤ limit

variable {chunks : List (ToolOutputChannel × String)} {output : List BufferedOutput}
  {remaining : ℕ}

theorem bufferedChunks_truncateLast (output : List BufferedOutput) :
    bufferedChunks (truncateLast output) = bufferedChunks output := by
  induction output using truncateLast.induct with
  | case1 | case2 => rfl
  | case3 o rest hne ih =>
    rw [truncateLast.eq_3 _ _ hne]
    exact congrArg (_ :: ·) ih

theorem utf8PrefixChars_isPrefix (cs : List Char) (n : ℕ) : utf8PrefixChars cs n <+: cs := by
  induction cs generalizing n with
  | nil => exact prefix_refl _
  | cons c cs ih =>
    rw [utf8PrefixChars]
    split
    · exact cons_prefix_cons.2 ⟨rfl, ih _⟩
    · exact nil_prefix

theorem printed_append (chunks : List (ToolOutputChannel × String)) (channel : ToolOutputChannel)
    (chunk : String) :
    printed (chunks ++ [(channel, chunk)]) = printed chunks ++ chunk.toList.map (channel, ·) := by
  simp [printed]

/-- A chunk of which the first part `kept` is put into the buffer. -/
theorem Buffers.add (h : Buffers limit chunks output remaining) {channel : ToolOutputChannel}
    {chunk kept : String} {left : ℕ} (hk : kept.toList <+: chunk.toList)
    (hl : kept.utf8ByteSize + left ≤ remaining) (hw : kept = chunk ∨ left = 0)
    {output' : List BufferedOutput}
    (ho : bufferedChunks output' = bufferedChunks output ++ [(channel, kept)]) :
    Buffers limit (chunks ++ [(channel, chunk)]) output' left := by
  obtain ⟨hkept, hwhole, hbounded⟩ := h
  rcases hwhole with hwhole | rfl
  · refine ⟨?_, ?_, ?_⟩ <;> rw [ho]
    · rw [printed_append, printed_append, hwhole]
      exact (prefix_append_right_inj _).2 (hk.map _)
    · rw [printed_append, printed_append, hwhole]
      exact hw.imp_left fun h => by rw [h]
    · rw [map_append, List.sum_append, map_singleton, sum_singleton]
      dsimp only
      omega
  · -- nothing fits once the budget is used up
    have hnil : kept = "" := utf8ByteSize_eq_zero_iff.1 (by omega)
    subst hnil
    refine ⟨?_, .inr (by omega), ?_⟩ <;> rw [ho]
    · rw [printed_append, printed_append]
      simpa using hkept.trans (prefix_append ..)
    · simpa using by omega

theorem Buffers.append (h : Buffers limit chunks output remaining) (channel : ToolOutputChannel)
    (chunk : String) :
    Buffers limit (chunks ++ [(channel, chunk)])
      (appendBoundedOutput output channel chunk remaining).1
      (appendBoundedOutput output channel chunk remaining).2.1 := by
  have hcut : (utf8Prefix chunk remaining).toList <+: chunk.toList := by
    rw [utf8Prefix, toList_ofList]
    exact utf8PrefixChars_isPrefix ..
  have hsize : (utf8Prefix chunk remaining).utf8ByteSize ≤ remaining := by
    rw [utf8ByteSize_eq_textSize, utf8Prefix, toList_ofList]
    exact textSize_utf8PrefixChars ..
  rw [appendBoundedOutput]
  split
  next hfits =>
    exact h.add (prefix_refl _) (add_sub_of_le hfits).le (.inl rfl) (by simp [bufferedChunks])
  · dsimp only
    split
    · exact h.add hcut hsize (.inr rfl) (by simp [bufferedChunks])
    next hnone =>
      -- only the flag of the last entry changes
      obtain ⟨hkept, -, hbounded⟩ := h
      rw [← bufferedChunks_truncateLast] at hkept hbounded
      refine ⟨hkept.trans ?_, .inr rfl, (Nat.le_add_right ..).trans hbounded⟩
      rw [printed_append]
      exact prefix_append ..

theorem buffers_appendAll (limit : ℕ) (chunks : List (ToolOutputChannel × String)) :
    Buffers limit chunks (appendAll limit chunks).1 (appendAll limit chunks).2 := by
  induction chunks using reverseRecOn with
  | nil => exact ⟨prefix_refl _, .inl rfl, (Nat.zero_add _).le⟩
  | append_singleton chunks e ih =>
    rw [appendAll, foldl_append]
    exact ih.append e.1 e.2

def ToolStreamItem.chunk? : ToolStreamItem → Option (ToolOutputChannel × String)
  | .output channel chunk => some (channel, chunk)
  | .completed _ | .unsupported => none

/-- A stream that is stopped early leaves the buffer of the chunks read by then. -/
theorem buffers_toolStreamLoop (invalidStream : String → ErrorDetail) (outputLimit : ErrorDetail)
    (h : Buffers limit chunks output remaining) (completion : Option JsonObject)
    (items : List ToolStreamItem) :
    ∃ read left, read <+: chunks ++ items.filterMap (·.chunk?) ∧ Buffers limit read
      (toolStreamLoop invalidStream outputLimit output remaining completion items).1 left := by
  induction items generalizing chunks output remaining completion with
  | nil => exact ⟨chunks, remaining, by simp, h⟩
  | cons item items ih =>
    unfold toolStreamLoop
    split
    · exact ⟨chunks, remaining, prefix_append .., h⟩
    · cases item with
      | output channel chunk =>
        have hnext := h.append channel chunk
        simp only [filterMap_cons, ToolStreamItem.chunk?]
        rw [append_cons]
        split
        · exact ⟨_, _, prefix_append .., hnext⟩
        · exact ih hnext completion
      | completed result => exact ih h _
      | unsupported => exact ⟨chunks, remaining, prefix_append .., h⟩

/-- What is buffered is the first part of what the tool printed, in its order and on each channel,
and no longer than the limit; so too for the chunks `_run_tool` reads. -/
theorem appendBoundedOutput_isPrefix (limit : ℕ) (chunks : List (ToolOutputChannel × String)) :
    let (output, remaining) := appendAll limit chunks
    printed (bufferedChunks output) <+: printed chunks ∧
      (∀ channel, printedOn channel (bufferedChunks output) <+: printedOn channel chunks) ∧
      (printed (bufferedChunks output) = printed chunks ∨ remaining = 0) ∧
      (output.map (·.chunk.utf8ByteSize)).sum ≤ limit ∧
      ∀ invalidStream outputLimit items, ∃ read left, read <+: items.filterMap (·.chunk?) ∧
        Buffers limit read
          (toolStreamLoop invalidStream outputLimit [] limit none items).1 left := by
  obtain ⟨hkept, hwhole, hbounded⟩ := buffers_appendAll limit chunks
  refine ⟨hkept, fun channel => (hkept.filter _).map _, hwhole, ?_, fun _ _ =>
    buffers_toolStreamLoop _ _ (buffers_appendAll limit []) none⟩
  rw [bufferedChunks, map_map] at hbounded
  exact (Nat.le_add_right ..).trans hbounded

end AgentPlatform
