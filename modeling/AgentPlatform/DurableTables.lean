/-
**What stays in the tables, and which attempt can still write them.**
-/

import AgentPlatform.SystemSteps

namespace AgentPlatform

open KeyedTable RunStore

structure RunStore.Grows (s s' : RunStore) : Prop where
  messages : s.messages ⊆ s'.messages
  toolCalls : ∀ epoch id row, s.toolCall? epoch id = some row →
    ∃ row', s'.toolCall? epoch id = some row' ∧ row'.identity = row.identity
  checkpoints : ∀ k ∈ s.checkpoints, ∃ k' ∈ s'.checkpoints,
    k'.checkpoint = k.checkpoint ∧ (k.completed ≠ none → k'.completed ≠ none)
  generation : s.run.leaseGeneration ≤ s'.run.leaseGeneration

theorem RunStore.Grows.refl (s : RunStore) : s.Grows s :=
  ⟨List.Subset.refl _, fun _ _ row h => ⟨row, h, rfl⟩, fun k hk => ⟨k, hk, rfl, id⟩, le_refl _⟩

variable {s : RunStore} {codec : StoreCodec} {now : Timestamp} {w : World} {p : Performed}

theorem RunStore.Managed.grows {s' : RunStore} (h : s.Managed s')
    (hg : s.run.leaseGeneration ≤ s'.run.leaseGeneration) : s.Grows s' where
  messages := by rw [h.messages]; exact List.Subset.refl _
  toolCalls := by
    intro epoch id row hrow
    exact ⟨row, by rw [toolCall?, h.toolCalls]; exact hrow, rfl⟩
  checkpoints := by
    intro k hk
    exact ⟨k, by rw [h.checkpoints]; exact hk, rfl, id⟩
  generation := hg

section Writes

variable {s s' : RunStore} {lease : RunLease} {now : Timestamp}

theorem saveToolCallFenced_grows {c returned : ToolCall}
    (h : saveToolCallFenced s lease now c = .ok (returned, s')) : s.Grows s' := by
  obtain ⟨-, hep, _, hrow, rfl⟩ := saveToolCallFenced_inv h
  refine ⟨List.Subset.refl _, ?_, fun k hk => ⟨k, hk, rfl, id⟩, le_refl _⟩
  intro epoch id old hold
  exact RunStore.toolCall?_saved (hep ▸ hrow) hold

theorem createApprovalFenced_grows {a returned : ApprovalRecord}
    (h : createApprovalFenced s lease now a = .ok (returned, s')) : s.Grows s' := by
  obtain ⟨-, -, -, ⟨-, rfl⟩ | ⟨-, -, rfl⟩⟩ := createApprovalFenced_inv h
  · exact .refl _
  · exact RunStore.Managed.grows ⟨rfl, rfl, rfl, rfl⟩ (le_refl _)

theorem createCheckpointFenced_grows {c returned : Checkpoint}
    (h : createCheckpointFenced s lease now c = .ok (returned, s')) : s.Grows s' := by
  obtain ⟨-, -, ⟨-, rfl⟩ | ⟨-, -, rfl⟩⟩ := createCheckpointFenced_inv h
  · exact .refl _
  · exact ⟨List.Subset.refl _, fun _ _ row hrow => ⟨row, hrow, rfl⟩,
      fun k hk => ⟨k, mem_append_left _ hk, rfl, id⟩, le_refl _⟩

theorem completeCheckpointFenced_grows {id : Uuid} {snapshot : SnapshotReference} {revision : String}
    {u : Unit} (hs : s.WellFormed)
    (h : completeCheckpointFenced s lease now id snapshot revision = .ok (u, s')) : s.Grows s' := by
  obtain ⟨-, row, hrow, -, rfl⟩ := completeCheckpointFenced_inv h
  refine ⟨List.Subset.refl _, fun _ _ row hrow => ⟨row, hrow, rfl⟩, ?_, le_refl _⟩
  intro k hk
  by_cases hkey : k.key = row.key
  · -- keys are unique, so this is the row that was completed
    have hlk : s.checkpoint? row.key = some k :=
      hs.checkpointKeys.lookup_eq_some_iff.2 ⟨hk, hkey⟩
    rw [(lookup_some hrow).2, hrow] at hlk
    cases hlk
    exact ⟨_, mem_upsert_self _ _, rfl, fun _ => by simp⟩
  · exact ⟨k, mem_upsert_of_ne hk hkey, rfl, fun hc => hc⟩

theorem appendTranscriptFenced_grows {codec : StoreCodec} {startIndex : ℕ}
    {messages : List GatewayMessage} {occurredAt : Timestamp} {u : Unit}
    (h : appendTranscriptFenced codec s lease now startIndex messages occurredAt = .ok (u, s')) :
    s.Grows s' := by
  obtain ⟨-, _, rfl, -, -⟩ := appendTranscriptFenced_inv h
  exact ⟨subset_append_left _ _, fun _ _ row hrow => ⟨row, hrow, rfl⟩,
    fun k hk => ⟨k, hk, rfl, id⟩, le_refl _⟩

theorem rewind_grows {id : Uuid} {r? : Option Run} (h : rewind s id now = .ok (r?, s')) :
    s.Grows s' := by
  obtain rfl | ⟨-, -, -, -, -, -, -, ht, -, hch, -, hg, _, hms, -⟩ :=
    rewind_inv h
  · exact .refl _
  · refine ⟨by rw [hms]; exact subset_append_left _ _, ?_, ?_, hg.ge⟩
    · intro epoch id' row hrow
      exact ⟨row, by rw [toolCall?, ht]; exact hrow, rfl⟩
    · intro k hk
      exact ⟨k, by rw [hch]; exact hk, rfl, fun hc => hc⟩

end Writes

theorem Performs.grows {hash : JsonObject → String} {lease : RunLease} {w : Workspace}
    {x : Executor} {rest : List LoopStep} {step : LoopStep} (hs : s.WellFormed)
    (h : Performs hash codec lease now s w x rest step p) : s.Grows p.store := by
  cases h with
  | saved _ _ _ _ _ save => exact saveToolCallFenced_grows save
  | journaled _ _ _ _ _ append => exact appendTranscriptFenced_grows append
  | created _ _ _ create => exact createCheckpointFenced_grows create
  | completed _ _ _ _ _ complete => exact completeCheckpointFenced_grows hs complete
  | _ => exact .refl _

theorem Works.grows {a : Attempt} {step? : Option LoopStep} (hs : s.WellFormed)
    (h : Works a codec now s (p, step?)) : s.Grows p.store := by
  cases h with
  | approval _ _ _ _ _ _ _ create => exact createApprovalFenced_grows create
  | step _ _ _ _ _ _ performs => exact performs.grows hs
  | _ => exact .refl _

theorem Works.sameRun {a : Attempt} {step? : Option LoopStep} (h : Works a codec now s (p, step?)) :
    p.store.run = s.run ∧ p.store.lease = s.lease := by
  cases h with
  | approval _ _ _ _ _ _ _ create =>
    obtain ⟨-, -, -, ⟨-, rfl⟩ | ⟨-, -, rfl⟩⟩ := createApprovalFenced_inv create <;>
      exact ⟨rfl, rfl⟩
  | step _ _ _ _ _ _ performs =>
    cases performs with
    | saved _ _ _ _ _ save =>
      obtain ⟨-, -, row, -, rfl⟩ := saveToolCallFenced_inv save
      exact ⟨rfl, rfl⟩
    | journaled _ _ _ _ _ append =>
      obtain ⟨-, _, rfl, -, -⟩ := appendTranscriptFenced_inv append
      exact ⟨rfl, rfl⟩
    | created _ _ _ create =>
      obtain ⟨-, -, ⟨-, rfl⟩ | ⟨-, -, rfl⟩⟩ := createCheckpointFenced_inv create <;>
        exact ⟨rfl, rfl⟩
    | completed _ _ _ _ _ complete =>
      obtain ⟨-, row, -, -, rfl⟩ := completeCheckpointFenced_inv complete
      exact ⟨rfl, rfl⟩
    | _ => exact ⟨rfl, rfl⟩
  | _ => exact ⟨rfl, rfl⟩

theorem World.Moves.grows {w' : World} {op : SystemOp} (hs : w.store.WellFormed) (h : w.Moves op w')
    : w.store.Grows w'.store := by
  cases h with
  | managed _ _ tables generation | started _ _ _ _ _ _ _ tables generation
  | finished _ _ _ _ _ _ _ tables generation => exact tables.grows generation.ge
  | claimed _ _ _ tables generation =>
    exact tables.grows (generation ▸ Nat.le_succ _)
  | worked _ _ _ _ _ _ _ works => exact works.grows hs
  | rewound _ _ _ _ _ rewind => exact rewind_grows rewind
  | _ => exact .refl _

theorem World.Moves.savedCalls {w' : World} {op : SystemOp} (h : w.Moves op w') :
    w'.store.toolCalls = w.store.toolCalls ∨
    ∃ g a codec now x event rest c returned, op = .work g codec now ∧ w.attempts g = some a ∧
      a.phase = .running (.emit event :: rest) x ∧
      (x.counted event).savedCall a.argumentHash a.lease event = .ok (some c) ∧
      saveToolCallFenced w.store a.lease now c = .ok (returned, w'.store) := by
  cases h with
  | managed _ _ tables | claimed _ _ _ tables | started _ _ _ _ _ _ _ tables
  | finished _ _ _ _ _ _ _ tables => exact .inl tables.toolCalls
  | worked g a codec now p _ attempt works =>
    cases works with
    | approval _ _ _ _ _ _ _ create =>
      obtain ⟨-, -, -, ⟨-, rfl⟩ | ⟨-, -, rfl⟩⟩ := createApprovalFenced_inv create <;>
        exact .inl rfl
    | step x _ rest _ phase _ performs =>
      cases performs with
      | saved event c returned _ record save =>
        exact .inr ⟨g, a, codec, now, x, event, rest, c, returned, rfl, attempt, phase, record,
          save⟩
      | journaled _ _ _ _ _ append =>
        obtain ⟨-, _, rfl, -, -⟩ := appendTranscriptFenced_inv append
        exact .inl rfl
      | created _ _ _ create =>
        obtain ⟨-, -, ⟨-, rfl⟩ | ⟨-, -, rfl⟩⟩ := createCheckpointFenced_inv create <;>
          exact .inl rfl
      | completed _ _ _ _ _ complete =>
        obtain ⟨-, _, -, -, rfl⟩ := completeCheckpointFenced_inv complete
        exact .inl rfl
      | _ => exact .inl rfl
    | _ => exact .inl rfl
  | rewound _ _ _ _ _ rewind =>
    obtain rfl | ⟨-, -, -, -, -, -, -, ht, -⟩ := rewind_inv rewind
    · exact .inl rfl
    · exact .inl ht
  | _ => exact .inl rfl

def World.Leased (w : World) : Prop :=
  ∀ g a, w.attempts g = some a → a.lease.generation = g ∧ g ≤ w.store.run.leaseGeneration

theorem World.Leased.set {s' : RunStore} {g : ℕ} {a : Attempt} (h : w.Leased)
    (hle : w.store.run.leaseGeneration ≤ s'.run.leaseGeneration)
    (ha : a.lease.generation = g ∧ g ≤ s'.run.leaseGeneration) :
    (({ w with store := s' }).setAttempt g a).Leased := by
  intro g' a' hget
  obtain ⟨rfl, rfl⟩ | ⟨-, hold⟩ := World.setAttempt_attempts.1 hget
  · exact ha
  · exact ⟨(h g' a' hold).1, (h g' a' hold).2.trans hle⟩

theorem World.Leased.apply (hs : w.store.WellFormed) (h : w.Leased) (op : SystemOp) :
    (w.apply op).Leased := by
  have hmv := w.apply_moves op
  have hle := (hmv.grows hs).generation
  have keep : ∀ {g : ℕ} {a a' : Attempt} {s' : RunStore}, w.attempts g = some a →
      a'.lease.generation = a.lease.generation →
      w.store.run.leaseGeneration ≤ s'.run.leaseGeneration →
      (({ w with store := s' }).setAttempt g a').Leased := by
    intro g a a' s' ha hsa hle
    exact h.set hle ⟨hsa.trans (h g a ha).1, (h g a ha).2.trans hle⟩
  generalize w.apply op = w' at hmv hle
  cases hmv with
  | idle => exact h
  | managed | rewound => exact fun g a ha => ⟨(h g a ha).1, (h g a ha).2.trans hle⟩
  | claimed _ _ _ _ _ _ owned => exact h.set hle ⟨rfl, owned.le⟩
  | started _ _ _ _ _ _ attempt _ _ _ owned =>
    exact keep attempt owned hle
  | halted _ _ _ _ attempt | finished _ _ _ _ _ attempt | unrecovered _ _ _ _ _ _ _ attempt
  | recovered _ _ _ _ _ _ _ attempt | worked _ _ _ _ _ _ attempt => exact keep attempt rfl hle

def LoopStep.durable : LoopStep → Bool
  | .journal .. | .createCheckpoint _ | .completeCheckpoint .. => true
  | _ => false

theorem Performs.newest {hash : JsonObject → String} {lease : RunLease} {w : Workspace}
    {x : Executor} {rest : List LoopStep} {step : LoopStep}
    (h : Performs hash codec lease now s w x rest step p) (hlog : p.logged)
    (hd : step.durable) :
    s.run.leaseGeneration = lease.generation ∧ s.run.executionEpoch = lease.executionEpoch := by
  have fenced : s.leaseActive lease now = true →
      s.run.leaseGeneration = lease.generation ∧ s.run.executionEpoch = lease.executionEpoch :=
    fun ha => ⟨leaseActive_generation ha, leaseActive_epoch ha⟩
  cases h with
  | refused => cases hlog
  | journaled _ _ _ _ _ append =>
    exact fenced (appendTranscriptFenced_inv append).1
  | created _ _ _ create => exact fenced (createCheckpointFenced_inv create).1
  | completed _ _ _ _ _ complete =>
    exact fenced (completeCheckpointFenced_inv complete).1
  | observed step observation =>
    cases step with
    | request r | response r | validated calls | invokeTool call effect => cases hd
    | _ => cases observation
  | _ => cases hd

theorem RunStore.Grows.trans {s' s'' : RunStore} (h : s.Grows s') (h' : s'.Grows s'') :
    s.Grows s'' where
  messages := List.Subset.trans h.messages h'.messages
  toolCalls := by
    intro epoch id row hrow
    obtain ⟨row', hrow', hid⟩ := h.toolCalls epoch id row hrow
    obtain ⟨row'', hrow'', hid'⟩ := h'.toolCalls epoch id row' hrow'
    exact ⟨row'', hrow'', hid'.trans hid⟩
  checkpoints := by
    intro k hk
    obtain ⟨k', hk', hsame, hdone⟩ := h.checkpoints k hk
    obtain ⟨k'', hk'', hsame', hdone'⟩ := h'.checkpoints k' hk'
    exact ⟨k'', hk'', hsame'.trans hsame, hdone' ∘ hdone⟩
  generation := h.generation.trans h'.generation

theorem World.grows_foldl (hs : w.store.WellFormed) (ops : List SystemOp) :
    w.store.Grows (ops.foldl World.apply w).store ∧ (ops.foldl World.apply w).store.WellFormed := by
  induction ops generalizing w with
  | nil => exact ⟨.refl _, hs⟩
  | cons op ops ih =>
    obtain ⟨hgrows, hwf⟩ := ih (hs.of_committed (w.apply_committed op))
    exact ⟨((w.apply_moves op).grows hs).trans hgrows, hwf⟩

/-- **Nothing that was stored for a run is lost**, whatever attempts, approvals, recoveries and
rewinds follow. -/
theorem tables_only_grow (x : Submission) (ops later : List SystemOp) :
    (ops.foldl World.apply (submitted x)).store.Grows
      ((ops ++ later).foldl World.apply (submitted x)).store := by
  have hwf : (submitted x).store.WellFormed := .submit x
  rw [foldl_append]
  exact (World.grows_foldl (World.grows_foldl hwf ops).2 later).1

end AgentPlatform
