/-
**The source of a memory extraction.**

`PostgresMemoryRepository.source_for_job` (`platform_persistence/context_management.py`): the newest
messages of a run that fit into a byte limit, oldest first.
-/

import AgentPlatform.MemoryJobs
import AgentPlatform.TextChunks

namespace AgentPlatform

open List String

/-! ### The end of a text -/

/-- `bytes.decode("utf-8", errors="ignore")`: a byte that starts no character is skipped. -/
def decodeIgnoring : ℕ → List UInt8 → List Char
  | 0, _ => []
  | fuel + 1, input =>
    if input = [] then []
    else match frontChar? input with
      | some c => c :: decodeIgnoring fuel (input.drop c.utf8Size)
      | none => decodeIgnoring fuel (input.drop 1)

/-- `_utf8_tail` -/
def utf8Tail (value : String) (limit : ℕ) : String :=
  let encoded := utf8Encode value.toList
  if encoded.length ≤ limit then value
  else .ofList (decodeIgnoring limit (encoded.drop (encoded.length - limit)))

variable {c : Char} {cs : List Char} {n fuel limit : ℕ}

/-- A row of `messages`, with the columns the query reads. -/
structure SourceMessage where
  tenantId : Uuid
  sessionId : Uuid
  runId : Uuid
  executionEpoch : ℕ
  sequence : ℕ
  role : MessageRole
  content : String
  deriving DecidableEq

def MessageRole.value : MessageRole → String
  | .system => "system"
  | .user => "user"
  | .assistant => "assistant"
  | .tool => "tool"

def SourceMessage.rendered (m : SourceMessage) : String := "[" ++ m.role.value ++ "] " ++ m.content

def selectSource (maxBytes : ℕ) (selected : List String) (retained : ℕ) :
    List String → List String
  | [] => selected
  | rendered :: older =>
    let size := rendered.utf8ByteSize + if selected = [] then 0 else 1
    if maxBytes < retained + size then
      if selected = [] then
        let cut := utf8Tail rendered maxBytes
        selectSource maxBytes [cut] (retained + cut.utf8ByteSize) older
      else selected
    else selectSource maxBytes (selected ++ [rendered]) (retained + size) older

/-- `"\n".join` -/
def joinLines : List String → String
  | [] => ""
  | [line] => line
  | line :: lines => line ++ "\n" ++ joinLines lines

def sourceText (maxBytes : ℕ) (newest : List SourceMessage) : String :=
  joinLines (selectSource maxBytes [] 0 (newest.map (·.rendered))).reverse

end AgentPlatform
