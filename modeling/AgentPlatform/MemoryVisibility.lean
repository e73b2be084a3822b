/-
**Which memories a session sees.**
-/

import AgentPlatform.Histories
import AgentPlatform.MemoryJobs

namespace AgentPlatform

open PersistedMemory

structure ExtractedMemory where
  id : Uuid
  kind : MemoryKind
  content : String
  extractedAt : Timestamp

/-- The memory `process_once` stores for a job. -/
def ExtractedMemory.persisted (key : MemoryJobKey) (x : ExtractedMemory) : PersistedMemory where
  id := x.id
  tenantId := key.tenantId
  sessionId := key.sessionId
  sourceRunId := key.runId
  executionEpoch := key.executionEpoch
  kind := x.kind
  content := x.content
  extractedAt := x.extractedAt

abbrev MemoryOrigin := MemoryIndexKey × Uuid

def PersistedMemory.origin (m : PersistedMemory) : MemoryOrigin := (m.indexKey, m.sourceRunId)

structure MemoryStore where
  epoch : Uuid → ℕ := fun _ => 1
  memories : List PersistedMemory := []
  produced : List MemoryOrigin := []
  archived : List MemoryOrigin := []

inductive MemoryOp where
  | complete (key : MemoryJobKey) (memories : List ExtractedMemory)
  | archive (tenantId sessionId memoryId : Uuid) (archivedAt : Timestamp)
  | rewind (runId : Uuid)

/-- What `archive` selects. -/
def PersistedMemory.archivable (tenantId sessionId memoryId : Uuid) (m : PersistedMemory) : Bool :=
  m.tenantId = tenantId && m.sessionId = sessionId && m.id = memoryId && m.archivedAt.isNone

namespace MemoryStore

variable (s : MemoryStore)

def store (m : PersistedMemory) : MemoryStore :=
  { s with memories := insertMemory s.memories m, produced := s.produced ++ [m.origin] }

def apply : MemoryOp → MemoryStore
  | .complete key memories =>
    -- a rewind ends the job of the epoch it leaves
    if key.executionEpoch = s.epoch key.runId then
      (memories.map (·.persisted key)).foldl store s
    else s
  | .archive tenantId sessionId memoryId archivedAt =>
    { s with
      memories := s.memories.map fun m =>
        if m.archivable tenantId sessionId memoryId then { m with archivedAt := some archivedAt }
        else m
      archived := s.archived ++
        (s.memories.filter (·.archivable tenantId sessionId memoryId)).map (·.origin) }
  | .rewind runId => { s with epoch := Function.update s.epoch runId (s.epoch runId + 1) }

def isActive (tenantId sessionId : Uuid) (m : PersistedMemory) : Bool :=
  m.tenantId = tenantId && m.sessionId = sessionId && m.archivedAt.isNone &&
    m.executionEpoch = s.epoch m.sourceRunId

def listActive (tenantId sessionId : Uuid) (limit : ℕ) : Option (List PersistedMemory) :=
  if 1 ≤ limit ∧ limit ≤ 500 then
    some (((s.memories.filter (s.isActive tenantId sessionId)).insertionSort fun m m' =>
      m'.extractedAt < m.extractedAt ∨ m.extractedAt = m'.extractedAt ∧ m.id ≤ m'.id).take limit)
  else none

def Due (tenantId sessionId : Uuid) (kind : MemoryKind) (content : String) : Prop :=
  ∃ o ∈ s.produced, o ∉ s.archived ∧
    o.1 = ⟨tenantId, sessionId, s.epoch o.2, kind, content⟩

def NotShared : MemoryOp → Prop
  | .complete key memories => ∀ x ∈ memories, ∀ m ∈ s.memories,
      m.indexKey = (x.persisted key).indexKey → m.sourceRunId = key.runId
  | _ => True

instance : ∀ op, Decidable (s.NotShared op)
  | .complete key memories => inferInstanceAs (Decidable (∀ x ∈ memories, ∀ m ∈ s.memories,
      m.indexKey = (x.persisted key).indexKey → m.sourceRunId = key.runId))
  | .archive .. | .rewind _ => isTrue trivial

variable {s}

structure Faithful (s : MemoryStore) : Prop where
  unique : (s.memories.map (·.indexKey)).Nodup
  stored : ∀ o, o ∈ s.memories.map (·.origin) ↔ o ∈ s.produced
  archived : ∀ o, (∃ m ∈ s.memories, m.archivedAt.isSome ∧ m.origin = o) ↔ o ∈ s.archived

theorem Faithful.store (h : s.Faithful) {m : PersistedMemory} (hnew : m.archivedAt = none)
    (hm : ∀ m' ∈ s.memories, m'.indexKey = m.indexKey → m'.sourceRunId = m.sourceRunId) :
    (s.store m).Faithful := by
  by_cases hkey : m.indexKey ∈ s.memories.map (·.indexKey)
  · obtain ⟨m', hm', heq⟩ := mem_map.1 hkey
    have hsame : m'.origin = m.origin := Prod.ext heq (hm m' hm' heq)
    have hold : m.origin ∈ s.produced := (h.stored _).1 (mem_map.2 ⟨m', hm', hsame⟩)
    refine ⟨?_, fun o => ?_, ?_⟩ <;> simp only [MemoryStore.store, insertMemory, if_pos hkey]
    · exact h.unique
    · rw [h.stored, mem_append, mem_singleton]
      exact ⟨.inl, fun ho => ho.elim id fun ho => ho ▸ hold⟩
    · exact h.archived
  · refine ⟨?_, fun o => ?_, fun o => ?_⟩ <;>
      simp only [MemoryStore.store, insertMemory, if_neg hkey]
    · rw [map_append, nodup_append]
      refine ⟨h.unique, List.nodup_singleton _, fun k hk k' hk' => ?_⟩
      rw [mem_singleton.1 hk']
      rintro rfl
      exact hkey hk
    · rw [map_append, mem_append, h.stored, mem_append]
      rfl
    · rw [← h.archived]
      simp [hnew, or_and_right, exists_or]

theorem Faithful.stores {ms : List PersistedMemory} (h : s.Faithful) (runId : Uuid)
    (hms : ∀ m ∈ ms, m.archivedAt = none ∧ m.sourceRunId = runId ∧
      ∀ m' ∈ s.memories, m'.indexKey = m.indexKey → m'.sourceRunId = runId) :
    (ms.foldl MemoryStore.store s).Faithful := by
  induction ms generalizing s with
  | nil => exact h
  | cons m ms ih =>
    obtain ⟨hnew, hrun, hm⟩ := hms m mem_cons_self
    refine ih (h.store hnew (by rwa [hrun])) fun x hx => ?_
    obtain ⟨hxnew, hxrun, hxm⟩ := hms x (mem_cons_of_mem _ hx)
    refine ⟨hxnew, hxrun, fun m' hm' heq => ?_⟩
    simp only [MemoryStore.store, insertMemory] at hm'
    split at hm'
    · exact hxm m' hm' heq
    · rcases mem_append.1 hm' with hm' | hm'
      · exact hxm m' hm' heq
      · rw [mem_singleton.1 hm', hrun]

theorem Faithful.apply (h : s.Faithful) (op : MemoryOp) (hop : s.NotShared op) :
    (s.apply op).Faithful := by
  cases op with
  | rewind => exact ⟨h.unique, h.stored, h.archived⟩
  | complete key memories =>
    simp only [MemoryStore.apply]
    split
    · refine h.stores key.runId fun m hm => ?_
      obtain ⟨x, hx, rfl⟩ := mem_map.1 hm
      exact ⟨rfl, rfl, hop x hx⟩
    · exact h
  | archive tenantId sessionId memoryId archivedAt =>
    simp only [MemoryStore.apply]
    generalize archivable tenantId sessionId memoryId = found
    have hkey : ∀ m : PersistedMemory,
        (if found m then { m with archivedAt := some archivedAt } else m).indexKey = m.indexKey := by
      intro m
      split <;> rfl
    have horigin : ∀ m : PersistedMemory,
        (if found m then { m with archivedAt := some archivedAt } else m).origin = m.origin := by
      intro m
      split <;> rfl
    refine ⟨?_, fun o => ?_, fun o => ?_⟩
    · simpa only [map_map, comp_def, hkey] using h.unique
    · simpa only [map_map, comp_def, horigin] using h.stored o
    · rw [mem_append, ← h.archived]
      constructor
      · rintro ⟨_, hx, hsome, rfl⟩
        obtain ⟨m, hm, rfl⟩ := mem_map.1 hx
        rw [horigin]
        by_cases hf : found m
        · exact .inr (mem_map.2 ⟨m, mem_filter.2 ⟨hm, hf⟩, rfl⟩)
        · rw [if_neg hf] at hsome
          exact .inl ⟨m, hm, hsome, rfl⟩
      · rintro (⟨m, hm, hsome, rfl⟩ | ho)
        · refine ⟨_, mem_map_of_mem hm, ?_, horigin m⟩
          split
          · rfl
          · exact hsome
        · obtain ⟨m, hm, rfl⟩ := mem_map.1 ho
          obtain ⟨hm, hf⟩ := mem_filter.1 hm
          refine ⟨_, mem_map_of_mem hm, ?_, horigin m⟩
          rw [if_pos hf]
          rfl

theorem Faithful.active_iff (h : s.Faithful) {tenantId sessionId : Uuid} {kind : MemoryKind}
    {content : String} :
    (∃ m ∈ s.memories.filter (s.isActive tenantId sessionId), m.kind = kind ∧ m.content = content) ↔
      s.Due tenantId sessionId kind content := by
  simp only [mem_filter, isActive, and_eq_true, decide_eq_true_eq]
  constructor
  · rintro ⟨m, ⟨hm, ⟨⟨rfl, rfl⟩, hnone⟩, hepoch⟩, rfl, rfl⟩
    refine ⟨m.origin, (h.stored _).1 (mem_map_of_mem hm), fun ha => ?_, ?_⟩
    · obtain ⟨m', hm', hsome, heq⟩ := (h.archived _).2 ha
      have hrow := inj_on_of_nodup_map h.unique hm' hm (congrArg Prod.fst heq)
      rw [hrow] at hsome
      simp_all
    · simp [origin, indexKey, hepoch]
  · rintro ⟨o, ho, hna, heq⟩
    obtain ⟨m, hm, rfl⟩ := mem_map.1 ((h.stored _).2 ho)
    obtain ⟨rfl, rfl, hepoch, rfl, rfl⟩ := MemoryIndexKey.mk.inj heq
    refine ⟨m, ⟨hm, ⟨⟨rfl, rfl⟩, ?_⟩, hepoch⟩, rfl, rfl⟩
    rw [Option.isNone_iff_eq_none, ← Option.not_isSome_iff_eq_none]
    exact fun hsome => hna ((h.archived _).1 ⟨m, hm, hsome, rfl⟩)

/-- **Memory visibility.** -/
theorem memory_visibility {ops : List MemoryOp}
    (hops : History.Admissible apply NotShared {} ops) (tenantId sessionId : Uuid) {limit : ℕ} :
    let s := ops.foldl apply {}
    (s.memories.filter (s.isActive tenantId sessionId)).length ≤ limit → 1 ≤ limit → limit ≤ 500 →
    ∃ shown, s.listActive tenantId sessionId limit = some shown ∧
      ∀ kind content, (∃ m ∈ shown, m.kind = kind ∧ m.content = content) ↔
        s.Due tenantId sessionId kind content := by
  intro s hlen hpos hmax
  have hs : s.Faithful := hops.invariant Faithful (fun s op h hop => h.apply op hop)
    ⟨nodup_nil, by simp, by simp⟩
  refine ⟨_, if_pos ⟨hpos, hmax⟩, fun kind content => ?_⟩
  rw [List.take_of_length_le (by rwa [List.length_insertionSort]), ← hs.active_iff]
  simp only [mem_insertionSort]

end MemoryStore

def memoryKeyOf (runId : Uuid) : MemoryJobKey := ⟨runId, 1, 1, runId, 1, 0⟩

def preference (id : Uuid) (content : String) : ExtractedMemory := ⟨id, .preference, content, id⟩

theorem memory_visibility_two_runs :
    let s := ([.complete (memoryKeyOf 1) [preference 1 "use tabs"], .rewind 1,
      .complete (memoryKeyOf 2) [preference 2 "use spaces"]] : List MemoryOp).foldl
        MemoryStore.apply {}
    ∃ shown, s.listActive 1 1 100 = some shown ∧
      ∀ kind content, (∃ m ∈ shown, m.kind = kind ∧ m.content = content) ↔
        s.Due 1 1 kind content :=
  MemoryStore.memory_visibility (by decide) 1 1 (by decide) (by decide) (by decide)

theorem memory_hidden_by_rewind :
    let s := ([.complete (memoryKeyOf 1) [preference 1 "use tabs"],
      .complete (memoryKeyOf 2) [preference 2 "use tabs"], .rewind 1] : List MemoryOp).foldl
        MemoryStore.apply {}
    s.listActive 1 1 100 = some [] ∧ s.Due 1 1 .preference "use tabs" := by
  refine ⟨by decide, (⟨1, 1, 1, .preference, "use tabs"⟩, 2), ?_, ?_, ?_⟩ <;> decide

end AgentPlatform
