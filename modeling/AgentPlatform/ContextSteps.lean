/-
**What the steps of a session do to its messages and compactions.**
-/

import AgentPlatform.ContextSession
import AgentPlatform.RewindBranches

namespace AgentPlatform

open List Nat

/-! ### Transactions of a run -/

def StoreOp.journals : StoreOp → Bool
  | .appendTranscript .. | .rewind .. => true
  | _ => false

inductive RunStore.RowMoves (s : RunStore) (op : StoreOp) (s' : RunStore) : Prop
  | kept (messages : s'.messages = s.messages)
      (epoch : s'.run.executionEpoch = s.run.executionEpoch)
      (terminal : s.run.status.terminal = true → s'.run.status.terminal = true)
  | journaled (new : List MessageRecord) (messages : s'.messages = s.messages ++ new)
      (journals : op.journals = true) (run : s'.run = s.run)
      (active : s.run.status.terminal = false)
      (rows : ∀ m ∈ new, m.executionEpoch = s.run.executionEpoch ∧ m.transcriptIndex.isSome = true)
  | rewound (id : Uuid) (now : Timestamp) (record : CheckpointRecord)
      (retained : List MessageRecord) (rewinds : op = .rewind id now)
      (stored : s.checkpoint? id = some record)
      (covered : retained = (rewindRows s record.checkpoint).filter fun m =>
        m.transcriptIndex.all (· ≤ record.checkpoint.messageSequence))
      (messages : s'.messages = s.messages ++
        rewoundCopies (s.run.executionEpoch + 1) now s.nextSequence retained)
      (epoch : s'.run.executionEpoch = s.run.executionEpoch + 1)

section Run

variable {s s' : RunStore}

variable {op : StoreOp}

theorem RunStore.RowMoves.refl : s.RowMoves op s := .kept rfl rfl id

theorem transitionRun_not_terminal {r r' : Run} {new : RunStatus} {at' : Timestamp}
    {w : Option String} {e : Option Timestamp} (h : transitionRun r new at' w e = .ok r') :
    r.status.terminal = false := by
  have hall := transitionRun_allowed h
  cases hs : r.status <;> rw [hs] at hall <;>
    first | rfl | exact absurd hall not_mem_nil

theorem RunStore.SameTables.rowMoves (h : s.SameTables s')
    (hep : s'.run.executionEpoch = s.run.executionEpoch)
    (ht : s.run.status.terminal → s'.run.status = s.run.status) :
    s.RowMoves op s' :=
  .kept h.messages hep fun hst => by rw [ht hst, hst]

theorem recoverExpired_terminal {at' : Timestamp} (h : recoverExpired s at' = .ok s')
    (ht : s.run.status.terminal) : s'.run.status = s.run.status := by
  have hnot : ∀ {new : RunStatus} {run : Run}, transitionRun s.run new at' ≠ .ok run := by
    intro new run hrun
    rw [transitionRun_not_terminal hrun] at ht
    cases ht
  cases recoverExpired_ok h with
  | kept | discarded => rfl
  | retried _ moved | cancelled _ _ _ _ moved | requeued _ _ _ _ moved => exact absurd moved hnot

theorem RunStore.apply_rowMoves (s : RunStore) (op : StoreOp) : s.RowMoves op (s.apply op) := by
  have ho := s.outcome op
  generalize s.apply op = s' at ho ⊢
  cases ho with
  | kept => exact .refl
  | claim h =>
    obtain ⟨-, rfl⟩ | ⟨_, -, hq, -, ht, hep, -⟩ := claim_inv h
    · exact .refl
    · exact ht.rowMoves hep fun hst => by rw [hq] at hst; cases hst
  | start h =>
    obtain ⟨-, ht, hid, -⟩ := start_inv h
    refine ht.rowMoves hid.executionEpoch fun hst => ?_
    obtain ⟨row, run, -, hl, -⟩ := start_ok h
    rw [hl] at hst
    cases hst
  | heartbeat h =>
    obtain ⟨hs, ht, hid⟩ := heartbeat_inv h
    exact ht.rowMoves hid.executionEpoch fun _ => hs
  | finish h =>
    obtain ⟨-, hall, -, ht, hep, -⟩ := finish_inv h
    refine ht.rowMoves hep fun hst => ?_
    cases hs : s.run.status <;> rw [hs] at hall hst <;>
      first | exact absurd hall not_mem_nil | cases hst
  | recoverExpired h =>
    obtain ⟨ht, hid, -⟩ := recoverExpired_inv h
    exact ht.rowMoves hid.executionEpoch (recoverExpired_terminal h)
  | requestCancel h =>
    obtain ⟨ht, hid, hs⟩ := requestCancel_inv h
    refine .kept ht.messages hid.executionEpoch fun hst => ?_
    rcases hs with hc | ⟨hsa, -⟩
    · rw [hc]
      rfl
    · rw [hsa, hst]
  | decide h =>
    obtain rfl | ⟨row, -, -, -, -, -, hms, -, -, hid, hrun⟩ := decideApproval_inv h
    · exact .refl
    · refine .kept hms hid.executionEpoch fun hst => ?_
      rcases hrun with ⟨hw, -⟩ | ⟨-, hsa⟩
      · rw [hw] at hst
        cases hst
      · rw [hsa, hst]
  | saveToolCall h =>
    obtain ⟨-, -, row, -, rfl⟩ := saveToolCallFenced_inv h
    exact .kept rfl rfl id
  | createApproval h =>
    obtain ⟨-, -, -, ⟨-, rfl⟩ | ⟨-, -, rfl⟩⟩ := createApprovalFenced_inv h
    · exact .refl
    · exact .kept rfl rfl id
  | createCheckpoint h =>
    obtain ⟨-, -, ⟨-, rfl⟩ | ⟨-, -, rfl⟩⟩ := createCheckpointFenced_inv h
    · exact .refl
    · exact .kept rfl rfl id
  | completeCheckpoint h =>
    obtain ⟨-, row, -, -, rfl⟩ := completeCheckpointFenced_inv h
    exact .kept rfl rfl fun hst => hst
  | appendTranscript h =>
    obtain ⟨ha, -⟩ := appendTranscriptFenced_inv h
    obtain ⟨new, rfl, hnew⟩ := appendTranscriptFenced_new h
    refine .journaled new rfl rfl rfl ?_ fun m hm => ?_
    · rcases RunStore.leaseActive_status ha with hst | hst <;> rw [hst] <;> rfl
    · obtain ⟨hep, -, _, hind, -⟩ := hnew m hm
      exact ⟨hep.trans (RunStore.leaseActive_epoch ha).symm, by rw [hind]; rfl⟩
  | @rewind id now run? _ h =>
    cases run? with
    | none => exact rewind_none h ▸ .refl
    | some =>
      obtain ⟨record, retained, hrec, hr, hms, -, hep, -⟩ :=
        rewind_messages h
      exact .rewound id now record retained rfl hrec (retainedRows_eq_filter hr)
        hms hep

theorem RunStore.RowMoves.added (h : s.RowMoves op s') :
    ∃ new, s'.messages = s.messages ++ new ∧ s.run.executionEpoch ≤ s'.run.executionEpoch ∧
      ∀ m ∈ new, s'.run.executionEpoch = m.executionEpoch := by
  cases h with
  | kept messages epoch =>
    exact ⟨[], by rw [messages, append_nil], epoch.ge, by simp⟩
  | journaled new messages _ run _ rows =>
    exact ⟨new, messages, by rw [run], fun m hm => by rw [run, (rows m hm).1]⟩
  | rewound _ _ _ _ _ _ _ messages epoch =>
    refine ⟨_, messages, by omega, fun m hm => ?_⟩
    rw [epoch, (rewoundCopies_placed hm).1]

end Run

/-! ### Numbers -/

theorem foldl_max_le {xs : List ℕ} {b n : ℕ} (hb : b ≤ n) (h : ∀ x ∈ xs, x ≤ n) :
    xs.foldl max b ≤ n := by
  induction xs generalizing b with
  | nil => exact hb
  | cons x _ ih =>
    exact ih (max_le hb (h x (mem_cons_self ..)))
      fun y hy => h y (mem_cons_of_mem _ hy)

theorem init_le_foldl_max (xs : List ℕ) (b : ℕ) : b ≤ xs.foldl max b := by
  induction xs generalizing b with
  | nil => exact le_rfl
  | cons x _ ih => exact (le_max_left b x).trans (ih _)

theorem le_foldl_max {xs : List ℕ} {x : ℕ} (hx : x ∈ xs) (b : ℕ) : x ≤ xs.foldl max b := by
  induction xs generalizing b with
  | nil => exact absurd hx not_mem_nil
  | cons y ys ih =>
    rcases mem_cons.1 hx with rfl | hys
    · exact (le_max_right b x).trans (init_le_foldl_max ys _)
    · exact ih hys _

namespace ContextSession

variable {s s' : ContextSession}

variable {m : SessionMessage} {store : RunStore} {routeName : String} {requestedAt : Timestamp}
    {b' : ContextBuild} {c : LoadedContext}

theorem sequence_lt_nextSequence (hm : m ∈ s.messages) : m.row.sequence < s.nextSequence := by
  have hmem : m.row.sequence ∈ s.messages.map (·.row.sequence) := mem_map.2 ⟨m, hm, rfl⟩
  exact lt_succ_of_le (le_foldl_max hmem 0)

theorem mem_visible :
    m ∈ s.visible ↔ m ∈ s.messages ∧ s.onBranch m = true :=
  mem_filter

theorem onBranch_iff : s.onBranch m = true ↔
    ∃ store, s.runs[m.run]? = some store ∧ store.run.executionEpoch = m.row.executionEpoch := by
  simp [onBranch, Option.any_eq_true]

theorem sourceSequence_lt (after : Option ℕ) : s.sourceSequence after < s.nextSequence := by
  refine lt_succ_of_le (foldl_max_le (Nat.zero_le _) fun x hx => ?_)
  obtain ⟨_, hm, rfl⟩ := mem_map.1 hx
  have hmem := (mem_visible.1 (mem_of_mem_filter hm)).1
  exact le_of_lt_succ (sequence_lt_nextSequence hmem)

theorem mem_renumber {rows : List MessageRecord} {n : ℕ} {m : MessageRecord}
    (h : m ∈ renumber n rows) :
    n ≤ m.sequence ∧ ∃ row ∈ rows, m = { row with sequence := m.sequence } := by
  induction rows generalizing n with
  | nil => exact absurd h not_mem_nil
  | cons row _ ih =>
    rcases mem_cons.1 h with rfl | hr
    · exact ⟨le_rfl, row, mem_cons_self .., rfl⟩
    · obtain ⟨hle, row', hrow', heq⟩ := ih hr
      exact ⟨(le_succ n).trans hle, row', mem_cons_of_mem _ hrow', heq⟩

theorem exists_mem_renumber {rows : List MessageRecord} {n : ℕ} {row : MessageRecord}
    (h : row ∈ rows) : ∃ m ∈ renumber n rows, m = { row with sequence := m.sequence } := by
  induction rows generalizing n with
  | nil => exact absurd h not_mem_nil
  | cons _ _ ih =>
    rcases mem_cons.1 h with rfl | hr
    · exact ⟨_, mem_cons_self .., rfl⟩
    · obtain ⟨m, hm, hrow⟩ := ih (n := n + 1) hr
      exact ⟨m, mem_cons_of_mem _ hm, hrow⟩

theorem renumber_increasing (rows : List MessageRecord) (n : ℕ) :
    (renumber n rows).Pairwise (·.sequence < ·.sequence) := by
  induction rows generalizing n with
  | nil => exact .nil
  | cons _ _ ih =>
    exact pairwise_cons.2 ⟨fun m hm => (mem_renumber hm).1, ih (n + 1)⟩

/-! ### What is added -/

structure Extends (s s' : ContextSession) (added : List SessionMessage) : Prop where
  messages : s'.messages = s.messages ++ added
  numbers : ∀ m ∈ added, s.nextSequence ≤ m.row.sequence
  increasing : added.Pairwise (·.row.sequence < ·.row.sequence)
  runs : ∀ (i : ℕ) (store : RunStore), s.runs[i]? = some store → ∃ store',
    s'.runs[i]? = some store' ∧ store.run.executionEpoch ≤ store'.run.executionEpoch
  branch : ∀ m ∈ added, s'.onBranch m = true

theorem Extends.same (hms : s'.messages = s.messages) (hrun : s'.runs = s.runs) :
    s.Extends s' [] where
  messages := by rw [hms, append_nil]
  numbers := fun _ hm => absurd hm not_mem_nil
  increasing := .nil
  runs := fun i store hs => ⟨store, by rw [hrun]; exact hs, le_rfl⟩
  branch := fun _ hm => absurd hm not_mem_nil

theorem extends_renumber {run : ℕ} {rows : List MessageRecord}
    (hms : s'.messages = s.messages ++ (renumber s.nextSequence rows).map (⟨run, ·⟩))
    (hrun : ∀ (i : ℕ) (store : RunStore), s.runs[i]? = some store → ∃ store',
      s'.runs[i]? = some store' ∧ store.run.executionEpoch ≤ store'.run.executionEpoch)
    (hb : ∀ row ∈ rows, ∃ store', s'.runs[run]? = some store' ∧
      store'.run.executionEpoch = row.executionEpoch) :
    s.Extends s' ((renumber s.nextSequence rows).map (⟨run, ·⟩)) where
  messages := hms
  numbers := by
    intro m hm
    obtain ⟨row, hrow, rfl⟩ := mem_map.1 hm
    exact (mem_renumber hrow).1
  increasing := pairwise_map.2 (renumber_increasing rows _)
  runs := hrun
  branch := by
    intro m hm
    obtain ⟨row, hrow, rfl⟩ := mem_map.1 hm
    obtain ⟨-, source, hs, heq⟩ := mem_renumber hrow
    obtain ⟨store', hst', hep⟩ := hb source hs
    refine onBranch_iff.2 ⟨store', hst', ?_⟩
    rw [hep, heq]

theorem transact_tables {run : ℕ} (hs : s.runs[run]? = some store) (op : StoreOp) :
    (s.transact run op).messages = s.messages ++
        (renumber s.nextSequence (((s.storeOf run store).apply op).messages.drop
          (s.rowsOf run).length)).map (⟨run, ·⟩) ∧ (s.transact run op).runs =
        s.runs.set run { (s.storeOf run store).apply op with messages := [] } ∧
      (s.transact run op).builds = s.builds := by
  unfold transact
  rw [hs]
  dsimp only
  split
  · split <;> exact ⟨rfl, rfl, rfl⟩
  · exact ⟨rfl, rfl, rfl⟩

theorem transact_added {run : ℕ} (hs : s.runs[run]? = some store) (op : StoreOp)
    : ∃ new, ((s.storeOf run store).apply op).messages = s.rowsOf run ++ new ∧
      (s.transact run op).messages = s.messages ++ (renumber s.nextSequence new).map (⟨run, ·⟩) ∧
      s.Extends (s.transact run op) ((renumber s.nextSequence new).map (⟨run, ·⟩)) := by
  obtain ⟨new, hnew, hle, he⟩ := ((s.storeOf run store).apply_rowMoves op).added
  obtain ⟨hms, hrun, -⟩ := transact_tables hs op
  have hlt : run < s.runs.length := (List.getElem?_eq_some_iff.1 hs).1
  have hr : (s.storeOf run store).messages = s.rowsOf run := rfl
  rw [hr] at hnew
  rw [hnew, drop_left] at hms
  refine ⟨new, hnew, hms, extends_renumber hms ?_ ?_⟩
  · intro i other ho
    rw [hrun]
    by_cases hi : run = i
    · subst hi
      obtain rfl := Option.some_inj.1 (hs.symm.trans ho)
      exact ⟨{ (s.storeOf run store).apply op with messages := [] },
        getElem?_set_self hlt, hle⟩
    · exact ⟨other, by rw [getElem?_set_ne hi]; exact ho, le_rfl⟩
  · intro row hrow
    exact ⟨{ (s.storeOf run store).apply op with messages := [] },
      by rw [hrun]; exact getElem?_set_self hlt, he row hrow⟩

theorem submitRun_extends (x : Submission) : s.Extends (s.submitRun x)
      ((renumber s.nextSequence (submit x).messages).map (⟨s.runs.length, ·⟩)) := by
  refine extends_renumber rfl ?_ ?_
  · intro i store hs
    have hlt : i < s.runs.length := (List.getElem?_eq_some_iff.1 hs).1
    exact ⟨store, by rw [← hs]; exact getElem?_append_left hlt, le_rfl⟩
  · intro row hrow
    refine ⟨{ submit x with messages := [] }, getElem?_concat_length, ?_⟩
    rw [mem_singleton.1 hrow]
    rfl

/-! ### Compactions -/

def takesWatermark (s : ContextSession) : SessionOp → Bool
  | .requestCompaction _ key _ _ => s.byIdempotencyKey key = none && s.pendingForSession = none
  | .advance id env =>
    match (s.builds id).map (·.stage) with
    | some (BuildStage.scheduling latest) =>
      s.pendingForSession = none && env.thresholdMessages.getD 0 ≤
        (s.visibleAfter (latest.map (·.sourceMessageSequence))).length
    | _ => false
  | _ => false

inductive Ends (s : ContextSession) (op : SessionOp) (id : Uuid) (outcome : CompactionOutcome) : Prop
  | built (build : ℕ) (env : BuildEnv) (b : ContextBuild) (c : LoadedContext)
      (pending : ContextCompaction) (result : ContextBuildResult)
      (advances : op = .advance build env) (found : s.builds build = some b)
      (stage : b.stage = .finishing c pending result) (same : pending.id = id)
      (ended : outcome = result.outcome env.now)
  | failed (error : ErrorDetail) (completedAt : Timestamp) (ended : outcome = .failed error completedAt)

inductive CompactionMoves (s : ContextSession) (op : SessionOp) (rows : List ContextCompaction) :
    Prop
  | kept (same : rows = s.compactions)
  | requested (row : ContextCompaction) (after : Option ℕ) (takes : s.takesWatermark op = true)
      (pending : row.isPending = true) (source : row.sourceMessageSequence = s.sourceSequence after)
      (fresh : ∀ c ∈ s.compactions, c.id ≠ row.id) (stored : rows = s.compactions ++ [row])
  | finished (row : ContextCompaction) (outcome : CompactionOutcome)
      (ends : s.Ends op row.id outcome) (mem : row ∈ s.compactions) (pending : row.isPending = true)
      (stored : rows =
        s.compactions.map fun c => if c.id = row.id then { row with outcome := outcome } else c)
  | superseded (now : Timestamp) (stored : rows = (s.supersede now).compactions)

theorem insertCompaction_inv {id : Uuid} {key : String} {source : ℕ} {row : ContextCompaction}
    (h : s.insertCompaction id key routeName source requestedAt = .ok (row, s')) :
    row.isPending ∧ row.sourceMessageSequence = source ∧
      (∀ c ∈ s.compactions, c.id ≠ row.id) ∧
      s' = { s with compactions := s.compactions ++ [row] } := by
  unfold insertCompaction at h
  dsimp only at h
  split at h
  · cases h
  rename_i hf
  split at h
  · cases h
  · cases h
    refine ⟨rfl, rfl, fun c hc heq => hf (any_eq_true.2 ⟨c, hc, by simpa using heq⟩), rfl⟩

theorem requestCompaction_inv {id : Uuid} {key : String} {row : ContextCompaction}
    (h : s.requestCompaction id key routeName requestedAt = .ok (row, s')) :
    s' = s ∨ row.isPending ∧ row.sourceMessageSequence = s.sourceSequence none ∧
      (∀ c ∈ s.compactions, c.id ≠ row.id) ∧ s.byIdempotencyKey key = none ∧
      s.pendingForSession = none ∧ s' = { s with compactions := s.compactions ++ [row] } := by
  unfold requestCompaction at h
  split at h
  next existing hkey =>
    cases hr : validateReplay existing routeName with
    | error => rw [hr] at h; cases h
    | ok =>
      rw [hr] at h
      cases h
      exact .inl rfl
  next hkey =>
    split at h
    · cases h
    next hp =>
      obtain ⟨hrow, hs, hf, hst⟩ := insertCompaction_inv h
      exact .inr ⟨hrow, hs, hf, hkey, hp, hst⟩

theorem requestCompactionIfNeeded_inv {compactionId : String → Uuid} {after : Option ℕ}
    {thresholdMessages : ℕ} {pending : Option ContextCompaction}
    (h : s.requestCompactionIfNeeded compactionId after thresholdMessages routeName requestedAt =
      .ok (pending, s')) : s' = s ∧ (∀ row ∈ pending, row ∈ s.compactions) ∨
      ∃ row, pending = some row ∧ row.isPending ∧
        row.sourceMessageSequence = s.sourceSequence after ∧
        (∀ c ∈ s.compactions, c.id ≠ row.id) ∧ s.pendingForSession = none ∧
        thresholdMessages ≤ (s.visibleAfter after).length ∧
        s' = { s with compactions := s.compactions ++ [row] } := by
  unfold requestCompactionIfNeeded at h
  split at h
  next row hp =>
    cases h
    refine .inl ⟨rfl, fun row' hrow' => ?_⟩
    cases hrow'
    exact mem_of_find?_eq_some hp
  rename_i hp
  split at h
  · cases h
    exact .inl ⟨rfl, fun row hrow => by cases hrow⟩
  rename_i hc
  dsimp only at h
  split at h
  next existing hkey =>
    unfold validateReplay at h
    split at h
    · cases h
    cases h
    refine .inl ⟨rfl, fun row hrow => ?_⟩
    split at hrow
    · cases hrow
      exact mem_of_find?_eq_some hkey
    · cases hrow
  · cases hi : s.insertCompaction
        (compactionId ("auto-context-" ++ Nat.repr s.contextGeneration ++ "-" ++
          Nat.repr (s.sourceSequence after)))
        ("auto-context-" ++ Nat.repr s.contextGeneration ++ "-" ++
          Nat.repr (s.sourceSequence after)) routeName (s.sourceSequence after) requestedAt with
    | error f =>
      rw [hi] at h
      cases h
    | ok p =>
      rw [hi] at h
      cases h
      obtain ⟨hrow, hs, hf, hst⟩ := insertCompaction_inv hi
      exact .inr ⟨p.1, rfl, hrow, hs, hf, hp, not_lt.1 hc, hst⟩

theorem finishCompaction_inv {id : Uuid} {outcome : CompactionOutcome} {completedAt : Timestamp}
    {row? : Option ContextCompaction}
    (h : s.finishCompaction id outcome completedAt = .ok (row?, s')) :
    s' = s ∨ ∃ row ∈ s.compactions, row.id = id ∧ row.isPending ∧
      s' = { s with compactions :=
        s.compactions.map fun c => if c.id = row.id then { row with outcome := outcome } else c } := by
  unfold finishCompaction at h
  split at h
  · cases h
    exact .inl rfl
  rename_i row hf
  split at h
  · left
    repeat' split at h
    all_goals first
      | cases h; rfl
      | cases h
  rename_i hp
  split at h
  · cases h
  · cases h
    have hid : row.id = id := by simpa using find?_some hf
    subst hid
    exact .inr ⟨row, mem_of_find?_eq_some hf, rfl, not_not.1 hp, rfl⟩

/-! ### Steps of a build -/

inductive BuildMoves (s : ContextSession) (env : BuildEnv) (b : ContextBuild) :
    ContextSession → BuildStage → Prop
  | readLatest (stage : b.stage = .started) :
      BuildMoves s env b s (.readLatest s.latestCompleted)
  | unscheduled (latest : Option ContextCompaction) (stage : b.stage = .readLatest latest) :
      BuildMoves s env b s (.scheduling latest)
  | readPending (latest : Option ContextCompaction) (stage : b.stage = .readLatest latest) :
      BuildMoves s env b s (.scheduled latest s.pendingForSession)
  | scheduled (latest pending : Option ContextCompaction) (s' : ContextSession)
      (stage : b.stage = .scheduling latest)
      (request : s.requestCompactionIfNeeded env.compactionId
        (latest.map (·.sourceMessageSequence)) (env.thresholdMessages.getD 0) b.lease.routeName
        env.now = .ok (pending, s')) :
      BuildMoves s env b s' (.scheduled latest pending)
  | loaded (latest pending : Option ContextCompaction) (rows : List SessionMessage)
      (stage : b.stage = .scheduled latest pending)
      (list : s.listMessages (latest.map (·.sourceMessageSequence))
        (pending.map (·.sourceMessageSequence)) env.messageLimit = .ok rows) :
      BuildMoves s env b s (.loaded
        { latest := latest, pending := pending, rows := rows
          request := b.request env latest pending rows })
  | returned (c : LoadedContext) (result : ContextBuildResult) (stage : b.stage = .loaded c)
      (found : c.pending = none) (build : env.pipeline.build c.request = .ok result) :
      BuildMoves s env b s (.returned c result)
  | finishing (c : LoadedContext) (pending : ContextCompaction) (result : ContextBuildResult)
      (stage : b.stage = .loaded c) (found : c.pending = some pending)
      (build : env.pipeline.build c.request = .ok result) :
      BuildMoves s env b s (.finishing c pending result)
  | ended (c : LoadedContext) (pending : ContextCompaction) (result : ContextBuildResult)
      (row? : Option ContextCompaction) (s' : ContextSession)
      (stage : b.stage = .finishing c pending result)
      (finish : s.finishCompaction pending.id (result.outcome env.now) env.now = .ok (row?, s')) :
      BuildMoves s env b s' (.returned c result)
  | failing (c : LoadedContext) (pending : ContextCompaction) (f : Failure)
      (stage : b.stage = .loaded c) (found : c.pending = some pending) :
      BuildMoves s env b s (.failing pending f)
  | recorded (pending : ContextCompaction) (f : Failure) (row? : Option ContextCompaction)
      (s' : ContextSession) (stage : b.stage = .failing pending f)
      (finish : s.finishCompaction pending.id (.failed compactionFailed env.now) env.now =
        .ok (row?, s')) :
      BuildMoves s env b s' (.raised f)
  | raised (f : Failure) : BuildMoves s env b s (.raised f)

theorem validate_eq_ok {codec : ContextCodec} {r r' : ContextBuildRequest}
    (h : r.validate codec = .ok r') : r' = r := by
  unfold ContextBuildRequest.validate at h
  split at h
  · cases h
  · cases h
    rfl

variable {id : ℕ} {b : ContextBuild} {op : SessionOp}

theorem advance_moves (hb : s.builds id = some b) (env : BuildEnv) :
    s.advance id env = s ∨ ∃ s₁ stage, s.BuildMoves env b s₁ stage ∧
      s.advance id env = s₁.setStage id b stage := by
  unfold advance
  rw [hb]
  dsimp only
  split
  next hst => exact .inr ⟨_, _, .readLatest hst, rfl⟩
  next latest hst =>
    unfold readPending
    split
    · exact .inr ⟨_, _, .unscheduled latest hst, rfl⟩
    · exact .inr ⟨_, _, .readPending latest hst, rfl⟩
  next latest hst =>
    unfold schedule
    split
    · exact .inr ⟨_, _, .raised _, rfl⟩
    next pending s' hreq => exact .inr ⟨_, _, .scheduled latest pending s' hst hreq, rfl⟩
  next latest pending hst =>
    unfold loadSources
    split
    · exact .inr ⟨_, _, .raised _, rfl⟩
    rename_i rows hl
    split
    · exact .inr ⟨_, _, .raised _, rfl⟩
    next request hval =>
      obtain rfl := validate_eq_ok hval
      exact .inr ⟨_, _, .loaded latest pending rows hst hl, rfl⟩
  next c hst =>
    unfold runPipeline
    split
    · exact .inr ⟨_, _, .raised _, rfl⟩
    next f pending hbu hp => exact .inr ⟨_, _, .failing c pending f hst hp, rfl⟩
    next result hbu hp => exact .inr ⟨_, _, .returned c result hst hp hbu, rfl⟩
    next result pending hbu hp => exact .inr ⟨_, _, .finishing c pending result hst hp hbu, rfl⟩
  next c pending result hst =>
    unfold endCompaction
    split
    · exact .inr ⟨_, _, .raised _, rfl⟩
    · exact .inr ⟨_, _, .raised _, rfl⟩
    · rename_i row? s' hf _
      exact .inr ⟨_, _, .ended c pending result row? s' hst hf, rfl⟩
  next pending f hst =>
    unfold recordFailure
    split
    · exact .inr ⟨_, _, .raised _, rfl⟩
    · rename_i row? s' hf
      exact .inr ⟨_, _, .recorded pending f row? s' hst hf, rfl⟩
  · exact .inl rfl
  · exact .inl rfl

theorem setStage_builds {id' : ℕ} {stage : BuildStage} : (s.setStage id b stage).builds id' =
      if id' = id then some { b with stage := stage } else s.builds id' := rfl

theorem finishCompaction_moves {id : Uuid} {outcome : CompactionOutcome} {completedAt : Timestamp}
    {row? : Option ContextCompaction}
    (h : s.finishCompaction id outcome completedAt = .ok (row?, s')) (hend : s.Ends op id outcome) :
    s.CompactionMoves op s'.compactions ∧ s'.messages = s.messages ∧ s'.runs = s.runs ∧
      s'.builds = s.builds := by
  obtain rfl | ⟨row, hrow, rfl, hp, rfl⟩ := finishCompaction_inv h
  · exact ⟨.kept rfl, rfl, rfl, rfl⟩
  · exact ⟨.finished row outcome hend hrow hp rfl, rfl, rfl, rfl⟩

theorem BuildMoves.tables {env : BuildEnv} {stage : BuildStage} (h : s.BuildMoves env b s' stage)
    (hb : s.builds id = some b) :
    s.CompactionMoves (.advance id env) s'.compactions ∧ s'.messages = s.messages ∧
      s'.runs = s.runs ∧ s'.builds = s.builds := by
  cases h with
  | scheduled _ _ _ stage request =>
    obtain ⟨rfl, -⟩ | ⟨row, -, hrow, hs, hf, hn, hc, rfl⟩ :=
      requestCompactionIfNeeded_inv request
    · exact ⟨.kept rfl, rfl, rfl, rfl⟩
    · have ht : s.takesWatermark (.advance id env) := by
        simp only [takesWatermark, hb, map_some, stage, hn, decide_true, Bool.true_and,
          decide_eq_true_eq]
        exact hc
      exact ⟨.requested row _ ht hrow hs hf rfl, rfl, rfl, rfl⟩
  | ended c pending result _ _ stage finish =>
    exact finishCompaction_moves finish (.built id env b c pending result rfl hb stage rfl rfl)
  | recorded _ _ _ _ _ finish =>
    exact finishCompaction_moves finish (.failed _ _ rfl)
  | _ => exact ⟨.kept rfl, rfl, rfl, rfl⟩

/-! ### All steps -/

inductive Adds (s : ContextSession) (op : SessionOp) (s' : ContextSession) :
    List SessionMessage → Prop
  | none (runs : s'.runs = s.runs) : Adds s op s' []
  | submitted (x : Submission) (submits : op = .submit x)
      (runs : s'.runs = s.runs ++ [{ submit x with messages := [] }]) :
      Adds s op s' ((renumber s.nextSequence (submit x).messages).map (⟨s.runs.length, ·⟩))
  | transacted (run : ℕ) (op' : StoreOp) (store : RunStore) (new : List MessageRecord)
      (transacts : op = .transact run op') (stored : s.runs[run]? = some store)
      (messages : ((s.storeOf run store).apply op').messages = s.rowsOf run ++ new)
      (runs : s'.runs = s.runs.set run { (s.storeOf run store).apply op' with messages := [] }) :
      Adds s op s' ((renumber s.nextSequence new).map (⟨run, ·⟩))

structure Steps (s : ContextSession) (op : SessionOp) (s' : ContextSession)
    (added : List SessionMessage) : Prop where
  adds : s.Adds op s' added
  extended : s.Extends s' added
  compactions : s.CompactionMoves op s'.compactions

theorem Adds.run {added : List SessionMessage} (h : s.Adds op s' added) {i : ℕ}
    (hs : s.runs[i]? = some store) : ∃ store', s'.runs[i]? = some store' ∧
      (store'.run.executionEpoch = store.run.executionEpoch ∧
          (store.run.status.terminal = true → store'.run.status.terminal) ∨
        (∃ id now, op = .transact i (.rewind id now)) ∧
          store'.run.executionEpoch = store.run.executionEpoch + 1) := by
  have hlt : i < s.runs.length := (List.getElem?_eq_some_iff.1 hs).1
  cases h with
  | none runs => exact ⟨store, by rw [runs, hs], .inl ⟨rfl, id⟩⟩
  | submitted _ _ runs =>
    exact ⟨store, by rw [runs, getElem?_append_left hlt, hs], .inl ⟨rfl, id⟩⟩
  | transacted run op' _ _ transacts stored messages runs =>
    by_cases hi : run = i
    · subst hi
      obtain rfl := Option.some_inj.1 (hs.symm.trans stored)
      refine ⟨{ (s.storeOf run store).apply op' with messages := [] },
        by rw [runs]; exact getElem?_set_self hlt, ?_⟩
      cases (s.storeOf run store).apply_rowMoves op' with
      | kept _ epoch terminal => exact .inl ⟨epoch, terminal⟩
      | journaled _ _ _ run' =>
        refine .inl ⟨congrArg Run.executionEpoch run', fun ht => ?_⟩
        exact (congrArg (·.status.terminal) run').trans ht
      | rewound id now _ _ rewinds _ _ _ epoch =>
        exact .inr ⟨⟨id, now, by rw [transacts, rewinds]⟩, epoch⟩
    · exact ⟨store, by rw [runs, getElem?_set_ne hi, hs], .inl ⟨rfl, id⟩⟩

theorem transact_compactions (run : ℕ) (op : StoreOp) :
    s.CompactionMoves (.transact run op) (s.transact run op).compactions := by
  unfold transact
  split
  · exact .kept rfl
  dsimp only
  split
  · split
    · exact .kept rfl
    next now _ => exact .superseded now rfl
  · exact .kept rfl

theorem begin_builds (s : ContextSession) (id run : ℕ) (lease : RunLease) (codec : RecoveryCodec)
    (now : Timestamp) : s.begin id run lease codec now = s ∨ ∃ store recovery, s.builds id = none ∧
      s.runs[run]? = some store ∧
      load (s.inSession codec run) (s.storeOf run store) lease now = .ok recovery ∧
      s.begin id run lease codec now =
        s.setBuild id
          { run := run, lease := lease, recovery := recovery
            recovered := s.recoveredRows run store lease } := by
  unfold begin
  split
  next store hn hs =>
    split
    · exact .inl rfl
    next recovery hl => exact .inr ⟨store, recovery, hn, hs, hl, rfl⟩
  · exact .inl rfl

theorem apply_steps (s : ContextSession) (op : SessionOp) :
    ∃ added, s.Steps op (s.apply op) added := by
  have hs : ∀ s', s'.messages = s.messages → s'.runs = s.runs →
      s.CompactionMoves op s'.compactions → s.Steps op s' [] :=
    fun s' hms hrun hr => ⟨.none hrun, .same hms hrun, hr⟩
  cases op with
  | submit x => exact ⟨_, .submitted x rfl rfl, submitRun_extends x, .kept rfl⟩
  | transact run op =>
    cases hst : s.runs[run]? with
    | none =>
      have hi : s.transact run op = s := by
        unfold transact
        rw [hst]
      exact ⟨[], by simp only [apply, hi]; exact hs s rfl rfl (.kept rfl)⟩
    | some store =>
      obtain ⟨new, hnew, -, he⟩ := transact_added hst op
      exact ⟨_, .transacted run op store new rfl hst hnew (transact_tables hst op).2.1,
        he, transact_compactions run op⟩
  | requestCompaction id key routeName requestedAt =>
    refine ⟨[], ?_⟩
    unfold apply
    dsimp only
    split
    · exact hs s rfl rfl (.kept rfl)
    rename_i row s' hreq
    obtain rfl | ⟨hrow, hso, hf, hkey, hn, rfl⟩ := requestCompaction_inv hreq
    · exact hs _ rfl rfl (.kept rfl)
    · have ht :
          s.takesWatermark (.requestCompaction id key routeName requestedAt) = true := by
        simp only [takesWatermark, hkey, hn, decide_true, Bool.and_self]
      exact hs _ rfl rfl (.requested row none ht hrow hso hf rfl)
  | begin id run lease codec now =>
    refine ⟨[], ?_⟩
    have hbe : s.apply (.begin id run lease codec now) = s.begin id run lease codec now := rfl
    obtain hi | ⟨store, _, -, -, -, hset⟩ := s.begin_builds id run lease codec now
    · rw [hbe, hi]
      exact hs s rfl rfl (.kept rfl)
    · rw [hbe, hset]
      exact hs _ rfl rfl (.kept rfl)
  | advance id env =>
    refine ⟨[], ?_⟩
    cases hb : s.builds id with
    | none =>
      have hi : s.advance id env = s := by
        unfold advance
        rw [hb]
      simp only [apply, hi]
      exact hs s rfl rfl (.kept rfl)
    | some =>
      obtain hi | ⟨_, _, hmv, hset⟩ := advance_moves hb env
      · simp only [apply, hi]
        exact hs s rfl rfl (.kept rfl)
      · obtain ⟨hr, hms, hrun, -⟩ := hmv.tables hb
        simp only [apply, hset]
        exact hs _ hms hrun hr

theorem apply_builds (h : (s.apply op).builds id = some b') : s.builds id = some b' ∨
      (∃ env b s₁ stage, op = .advance id env ∧ s.builds id = some b ∧
        s.BuildMoves env b s₁ stage ∧ s.apply op = s₁.setStage id b stage ∧
        b' = { b with stage := stage }) ∨
      ∃ run lease codec now store recovery, op = .begin id run lease codec now ∧
        s.builds id = none ∧ s.runs[run]? = some store ∧
        load (s.inSession codec run) (s.storeOf run store) lease now = .ok recovery ∧
        b' = { run := run, lease := lease, recovery := recovery
               recovered := s.recoveredRows run store lease } := by
  cases op with
  | submit => exact .inl h
  | transact run op =>
    cases hs : s.runs[run]? with
    | none =>
      simp only [apply, transact, hs] at h
      exact .inl h
    | some =>
      simp only [apply, (transact_tables hs op).2.2] at h
      exact .inl h
  | requestCompaction =>
    unfold apply at h
    dsimp only at h
    split at h
    · exact .inl h
    next row s' hreq =>
      obtain rfl | ⟨-, -, -, -, -, rfl⟩ := requestCompaction_inv hreq
      · exact .inl h
      · exact .inl h
  | begin id' run lease codec now =>
    have hbe : s.apply (.begin id' run lease codec now) = s.begin id' run lease codec now := rfl
    rw [hbe] at h
    obtain hi | ⟨store, recovery, hn, hs, hl, hset⟩ :=
      s.begin_builds id' run lease codec now
    · rw [hi] at h
      exact .inl h
    rw [hset] at h
    by_cases hid : id = id'
    · subst hid
      obtain rfl := Option.some_inj.1 ((if_pos rfl).symm.trans h)
      exact .inr (.inr ⟨run, lease, codec, now, store, recovery, rfl, hn, hs, hl, rfl⟩)
    · exact .inl ((if_neg hid).symm.trans h)
  | advance id' env =>
    cases hb : s.builds id' with
    | none =>
      simp only [apply, advance, hb] at h
      exact .inl h
    | some b =>
      obtain hi | ⟨s₁, stage, hmv, hset⟩ := advance_moves hb env
      · simp only [apply, hi] at h
        exact .inl h
      have ha : s.apply (.advance id' env) = s₁.setStage id' b stage := hset
      rw [ha, setStage_builds, (hmv.tables hb).2.2.2] at h
      split at h
      next hid =>
        subst hid
        cases h
        exact .inr (.inl ⟨env, b, s₁, stage, rfl, hb, hmv, ha, rfl⟩)
      · exact .inl h

theorem apply_context (h : (s.apply op).builds id = some b') (hc : b'.stage.context = some c) :
    (∃ b, s.builds id = some b ∧ b.stage.context = some c ∧ b' = { b with stage := b'.stage }) ∨
      ∃ env b, op = .advance id env ∧ s.builds id = some b ∧
        b.stage = .scheduled c.latest c.pending ∧ b' = { b with stage := .loaded c } ∧
        s.listMessages (c.latest.map (·.sourceMessageSequence))
          (c.pending.map (·.sourceMessageSequence)) env.messageLimit = .ok c.rows ∧
        c.request = b.request env c.latest c.pending c.rows := by
  obtain hold | ⟨env, b, _, stage, hop, hb, hmv, -, rfl⟩ |
    ⟨run, lease, codec, now, store, recovery, -, -, -, -, rfl⟩ := apply_builds h
  · exact .inl ⟨b', hold, hc, rfl⟩
  · have hk : ∀ {stage' : BuildStage}, b.stage = stage' → stage'.context = some c →
        ∃ b₀, s.builds id = some b₀ ∧ b₀.stage.context = some c ∧
          { b with stage := stage } = { b₀ with stage := stage } :=
      fun hst hct => ⟨b, hb, by rw [hst, hct], rfl⟩
    cases hmv with
    | loaded _ _ _ stage list =>
      obtain rfl := Option.some_inj.1 hc
      exact .inr ⟨env, b, hop, hb, stage, rfl, list, rfl⟩
    | returned _ _ stage | finishing _ _ _ stage | ended _ _ _ _ _ stage =>
      exact .inl (hk stage hc)
    | _ => cases hc
  · cases hc

def resultOf (b : ContextBuild) (c : LoadedContext) (result : ContextBuildResult) : Prop :=
  b.stage = .returned c result ∨ ∃ pending, b.stage = .finishing c pending result

theorem resultOf_context {result : ContextBuildResult} (h : resultOf b c result)
    : b.stage.context = some c := by
  rcases h with hst | ⟨pending, hst⟩ <;> rw [hst] <;> rfl

theorem apply_result {result : ContextBuildResult} (h : (s.apply op).builds id = some b')
    (hre : resultOf b' c result) : (∃ b, s.builds id = some b ∧ resultOf b c result) ∨
      ∃ env b, op = .advance id env ∧ s.builds id = some b ∧ b.stage = .loaded c ∧
        env.pipeline.build c.request = .ok result := by
  obtain hold | ⟨env, b, _, stage, hop, hb, hmv, -, rfl⟩ |
    ⟨run, lease, codec, now, store, recovery, -, -, -, -, rfl⟩ := apply_builds h
  · exact .inl ⟨b', hold, hre⟩
  · cases hmv with
    | returned _ _ stage _ build =>
      rcases hre with hr | ⟨pending, hf⟩
      · cases hr
        exact .inr ⟨env, b, hop, hb, stage, build⟩
      · cases hf
    | finishing _ _ _ stage _ build =>
      rcases hre with hr | ⟨pending, hf⟩
      · cases hr
      · cases hf
        exact .inr ⟨env, b, hop, hb, stage, build⟩
    | ended _ pending' _ _ _ stage =>
      rcases hre with hr | ⟨pending, hf⟩
      · cases hr
        exact .inl ⟨b, hb, .inr ⟨pending', stage⟩⟩
      · cases hf
    | _ => rcases hre with hr | ⟨pending, hf⟩ <;> contradiction
  · rcases hre with hr | ⟨pending, hf⟩
    · cases hr
    · cases hf

theorem listMessages_ok {after through : Option ℕ} {limit : ℕ} {rows : List SessionMessage}
    (h : s.listMessages after through limit = .ok rows) :
    rows = (s.visibleAfter after).filter fun m => through.all (m.row.sequence ≤ ·) := by
  unfold listMessages at h
  split at h
  · cases h
  · dsimp only at h
    split at h
    · cases h
    · cases h
      rfl

/-! ### Well-formed sessions -/

structure WellFormed (s : ContextSession) : Prop where
  numbered : s.messages.Pairwise (·.row.sequence < ·.row.sequence)
  owned : ∀ m ∈ s.messages, ∃ store, s.runs[m.run]? = some store ∧
    m.row.executionEpoch ≤ store.run.executionEpoch
  sources : ∀ c ∈ s.compactions, c.sourceMessageSequence < s.nextSequence
  keys : (s.compactions.map (·.id)).Nodup
  latest : ∀ id b, s.builds id = some b → ∀ c ∈ b.stage.latest,
    c ∈ s.compactions ∧ c.summary.isSome = true
  pending : ∀ id b, s.builds id = some b → ∀ c ∈ b.stage.pending, ∃ row ∈ s.compactions,
    row.id = c.id ∧ row.sourceMessageSequence = c.sourceMessageSequence
  requests : ∀ id b, s.builds id = some b → ∀ c ∈ b.stage.context, ∃ env : BuildEnv,
    c.request = b.request env c.latest c.pending c.rows
  finishing : ∀ id b c pending result, s.builds id = some b →
    b.stage = .finishing c pending result → c.pending = some pending

section WellFormed

variable {added : List SessionMessage}

theorem Extends.nextSequence_le (h : s.Extends s' added) : s.nextSequence ≤ s'.nextSequence := by
  refine succ_le_succ (foldl_max_le (Nat.zero_le _) fun x hx => ?_)
  obtain ⟨m, hm, rfl⟩ := mem_map.1 hx
  have hm' : m ∈ s'.messages := by
    rw [h.messages]
    exact mem_append_left _ hm
  exact le_of_lt_succ (sequence_lt_nextSequence hm')

variable {m : SessionMessage}

theorem Extends.onBranch (h : s.Extends s' added) (hs : s.WellFormed) (hm : m ∈ s.messages)
    (hb : s'.onBranch m) : s.onBranch m := by
  obtain ⟨store, hst, _⟩ := hs.owned m hm
  obtain ⟨_, hst', _⟩ := h.runs _ _ hst
  obtain ⟨_, hst'', _⟩ := onBranch_iff.1 hb
  obtain rfl := Option.some_inj.1 (hst'.symm.trans hst'')
  exact onBranch_iff.2 ⟨store, hst, by omega⟩

theorem Extends.visible (h : s.Extends s' added) (hs : s.WellFormed) (hm : m ∈ s'.visible)
    : m ∈ s.visible ∨ s.nextSequence ≤ m.row.sequence := by
  obtain ⟨hmem, hb⟩ := mem_visible.1 hm
  rw [h.messages] at hmem
  rcases mem_append.1 hmem with hold | hnew
  · exact .inl (mem_visible.2 ⟨hold, h.onBranch hs hold hb⟩)
  · exact .inr (h.numbers m hnew)

theorem Extends.visible_of_le (h : s.Extends s' added) (hs : s.WellFormed) (hm : m ∈ s'.visible)
    {n : ℕ} (hn : n < s.nextSequence) (hle : m.row.sequence ≤ n) : m ∈ s.visible := by
  rcases h.visible hs hm with hold | hnew
  · exact hold
  · omega

theorem Extends.visible_filter (h : s.Extends s' added) (hs : s.WellFormed) {n : ℕ}
    (hn : n < s.nextSequence) : s'.visible.filter (·.row.sequence ≤ n) =
      (s.visible.filter (·.row.sequence ≤ n)).filter s'.onBranch := by
  have hno : added.filter (·.row.sequence ≤ n) = [] := by
    refine filter_eq_nil_iff.2 fun m hm => ?_
    have := h.numbers m hm
    simp only [decide_eq_true_eq, not_le]
    omega
  unfold ContextSession.visible
  rw [h.messages, filter_append, filter_append, filter_comm _ _ added, hno,
    filter_nil, append_nil]
  simp only [filter_filter]
  refine filter_congr fun m hm => ?_
  cases hb : s'.onBranch m with
  | false => rw [Bool.and_false, Bool.false_and]
  | true => rw [h.onBranch hs hm hb, Bool.and_true, Bool.true_and]

theorem filter_le_append_lt {rows : List SessionMessage}
    (h : rows.Pairwise (·.row.sequence < ·.row.sequence)) (n : ℕ) :
    rows.filter (·.row.sequence ≤ n) ++ rows.filter (n < ·.row.sequence) = rows := by
  induction rows with
  | nil => rfl
  | cons m rows ih =>
    obtain ⟨hm, hrow⟩ := pairwise_cons.1 h
    by_cases hle : m.row.sequence ≤ n
    · rw [filter_cons_of_pos (by simpa using hle),
        filter_cons_of_neg (by simpa using hle), cons_append, ih hrow]
    have hn : rows.filter (·.row.sequence ≤ n) = [] := by
      refine filter_eq_nil_iff.2 fun m' hm' => ?_
      have := hm m' hm'
      simp only [decide_eq_true_eq, not_le]
      omega
    have hall : rows.filter (n < ·.row.sequence) = rows := by
      refine filter_eq_self.2 fun m' hm' => ?_
      have := hm m' hm'
      simp only [decide_eq_true_eq]
      omega
    rw [filter_cons_of_neg (by simpa using hle),
      filter_cons_of_pos (by simpa using hle), hn, hall, nil_append]

theorem WellFormed.visible_numbered (hs : s.WellFormed) :
    s.visible.Pairwise (·.row.sequence < ·.row.sequence) :=
  hs.numbered.filter _

variable {c : ContextCompaction} {op : SessionOp}

theorem not_pending_of_summary (h : c.summary.isSome) : c.isPending = false := by
  unfold ContextCompaction.summary at h
  unfold ContextCompaction.isPending
  cases ho : c.outcome with
  | completed => rfl
  | pending | failed => rw [ho] at h; cases h

namespace CompactionMoves

theorem rewritten {rows : List ContextCompaction} (h : s.CompactionMoves op rows)
    (hkey : (s.compactions.map (·.id)).Nodup) : ∃ f new, rows = s.compactions.map f ++ new ∧
      (∀ c ∈ s.compactions, (c.isPending = false → f c = c) ∧ (f c).id = c.id ∧
        (f c).sourceMessageSequence = c.sourceMessageSequence) ∧
      (new.map (·.id)).Nodup ∧ ∀ row ∈ new, (∀ c ∈ s.compactions, c.id ≠ row.id) ∧
        row.sourceMessageSequence < s.nextSequence := by
  cases h with
  | kept same => exact ⟨id, [], by simp [same], by simp, by simp, by simp⟩
  | requested row after _ _ source fresh stored =>
    refine ⟨id, [row], by simp [stored], by simp, by simp, fun row' hrow' => ?_⟩
    rw [mem_singleton.1 hrow']
    exact ⟨fresh, source ▸ sourceSequence_lt after⟩
  | finished row outcome _ mem pending stored =>
    refine ⟨_, [], by rw [stored, append_nil], fun c hc => ?_, by simp, by simp⟩
    split
    next hid =>
      obtain rfl := inj_on_of_nodup_map hkey hc mem hid
      exact ⟨by simp [pending], rfl, rfl⟩
    · exact ⟨fun _ => rfl, rfl, rfl⟩
  | superseded now stored =>
    refine ⟨_, [], by rw [stored, supersede, append_nil], fun c hc => ?_, by simp, by simp⟩
    split
    next hp => exact ⟨by simp [hp], rfl, rfl⟩
    · exact ⟨fun _ => rfl, rfl, rfl⟩

theorem mem {rows : List ContextCompaction} (h : s.CompactionMoves op rows)
    (hkey : (s.compactions.map (·.id)).Nodup) (hc : c ∈ s.compactions)
    (hend : c.isPending = false) : c ∈ rows := by
  obtain ⟨_, _, rfl, hf, -⟩ := h.rewritten hkey
  exact mem_append_left _ (mem_map.2 ⟨c, hc, (hf c hc).1 hend⟩)

theorem persists {rows : List ContextCompaction} (h : s.CompactionMoves op rows)
    (hkey : (s.compactions.map (·.id)).Nodup) (hc : c ∈ s.compactions) :
    ∃ row ∈ rows, row.id = c.id ∧ row.sourceMessageSequence = c.sourceMessageSequence := by
  obtain ⟨f, _, rfl, hf, -⟩ := h.rewritten hkey
  exact ⟨f c, mem_append_left _ (mem_map_of_mem hc), (hf c hc).2⟩

theorem rows {rows : List ContextCompaction} (h : s.CompactionMoves op rows)
    (hs : s.WellFormed) : (rows.map (·.id)).Nodup ∧
      ∀ c ∈ rows, c.sourceMessageSequence < s.nextSequence := by
  obtain ⟨f, _, rfl, hf, hn, hnew⟩ := h.rewritten hs.keys
  have hids : (s.compactions.map f).map (·.id) = s.compactions.map (·.id) := by
    rw [map_map]
    exact map_congr_left fun c hc => (hf c hc).2.1
  refine ⟨?_, fun c hc => ?_⟩
  · rw [map_append, hids]
    refine hs.keys.append hn fun id hid hrow => ?_
    obtain ⟨c, hc, rfl⟩ := mem_map.1 hid
    obtain ⟨row, hrow, heq⟩ := mem_map.1 hrow
    exact (hnew row hrow).1 c hc heq.symm
  · rcases mem_append.1 hc with hold | hadd
    · obtain ⟨c', hc', rfl⟩ := mem_map.1 hold
      rw [(hf c' hc').2.2]
      exact hs.sources c' hc'
    · exact (hnew c hadd).2

theorem completed {rows : List ContextCompaction} (h : s.CompactionMoves op rows)
    {k : ContextCompaction} (hk : k ∈ rows) {text : String} (hsum : k.summary = some text) :
    k ∈ s.compactions ∨ ∃ build env b c pending result row, op = .advance build env ∧
      s.builds build = some b ∧ b.stage = .finishing c pending result ∧ row ∈ s.compactions ∧
      row.id = pending.id ∧ row.isPending ∧ result.summary = some text ∧ k.id = row.id ∧
      k.sourceMessageSequence = row.sourceMessageSequence := by
  cases h with
  | kept same => exact .inl (same ▸ hk)
  | requested _ _ _ pending _ _ stored =>
    rw [stored] at hk
    rcases mem_append.1 hk with hold | hnew
    · exact .inl hold
    · obtain rfl := mem_singleton.1 hnew
      have hend := not_pending_of_summary (c := k) (by rw [hsum]; rfl)
      rw [pending] at hend
      cases hend
  | finished row outcome ends mem pending stored =>
    rw [stored] at hk
    obtain ⟨k', hk', rfl⟩ := mem_map.1 hk
    split at hsum
    next hid =>
      right
      cases ends with
      | failed _ _ ended =>
        rw [ended] at hsum
        cases hsum
      | built build env b c pending' result advances found stage same ended =>
        refine ⟨build, env, b, c, pending', result, row, advances, found, stage, mem, same.symm,
          pending, ?_, by rw [if_pos hid], by rw [if_pos hid]⟩
        rw [ended] at hsum
        unfold ContextBuildResult.outcome ContextCompaction.summary at hsum
        split at hsum
        next summary _ _ _ ho =>
          split at ho
          next hr _ _ =>
            rw [hr]
            cases ho
            exact hsum
          · cases ho
        · cases hsum
    next hid =>
      rw [if_neg hid]
      exact .inl hk'
  | superseded _ stored =>
    rw [stored] at hk
    obtain ⟨k', hk', rfl⟩ := mem_map.1 hk
    split at hsum
    · cases hsum
    next hp =>
      rw [if_neg hp]
      exact .inl hk'

end CompactionMoves

theorem latestOf_mem {rows : List ContextCompaction} (h : latestOf rows = some c)
    : c ∈ rows ∧ c.summary.isSome := by
  induction rows generalizing c with
  | nil => cases h
  | cons row rest ih =>
    have hr : latestOf rest = some c → c ∈ row :: rest ∧ c.summary.isSome = true := by
      intro hc
      exact ⟨mem_cons_of_mem _ (ih hc).1, (ih hc).2⟩
    have hrow : row.completedAt.isSome = true → row.summary.isSome = true := by
      unfold ContextCompaction.completedAt ContextCompaction.summary
      cases row.outcome <;> simp
    unfold latestOf at h
    split at h
    · exact hr h
    next completedAt hco hn =>
      cases h
      exact ⟨mem_cons_self .., hrow (by rw [hco]; rfl)⟩
    next completedAt best hco hb =>
      split at h
      · exact hr (hb.trans h)
      · cases h
        exact ⟨mem_cons_self .., hrow (by rw [hco]; rfl)⟩

theorem latestCompleted_mem (h : s.latestCompleted = some c) :
    c ∈ s.compactions ∧ c.summary.isSome := by
  obtain ⟨hmem, hs⟩ := latestOf_mem h
  exact ⟨(mem_filter.1 hmem).1, hs⟩

theorem pendingForSession_mem (h : c ∈ s.pendingForSession) :
    c ∈ s.compactions :=
  mem_of_find?_eq_some h

theorem BuildMoves.stage {env : BuildEnv} {b : ContextBuild} {stage : BuildStage}
    (h : s.BuildMoves env b s' stage) :
    (∀ c ∈ stage.latest, c ∈ b.stage.latest ∨ s.latestCompleted = some c) ∧
      ∀ c ∈ stage.pending, c ∈ b.stage.pending ∨ c ∈ s.compactions ∨ c ∈ s'.compactions := by
  cases h with
  | readLatest => exact ⟨fun c hc => .inr hc, fun c hc => by cases hc⟩
  | unscheduled _ stage =>
    rw [stage]
    exact ⟨fun c hc => .inl hc, fun c hc => by cases hc⟩
  | readPending _ stage =>
    rw [stage]
    exact ⟨fun c hc => .inl hc, fun c hc => .inr (.inl (pendingForSession_mem hc))⟩
  | scheduled _ _ _ stage request =>
    rw [stage]
    refine ⟨fun c hc => .inl hc, fun c hc => .inr ?_⟩
    obtain ⟨rfl, hmem⟩ | ⟨row, hrow, -, -, -, -, -, rfl⟩ := requestCompactionIfNeeded_inv request
    · exact .inl (hmem c hc)
    · obtain rfl : row = c := Option.some_inj.1 (hrow.symm.trans hc)
      exact .inr (mem_append_right _ (mem_singleton_self _))
  | loaded _ _ _ stage | returned c _ stage | finishing c _ _ stage | ended c _ _ _ _ stage =>
    rw [stage]
    exact ⟨fun c hc => .inl hc, fun c hc => .inl hc⟩
  | failing c _ _ stage found =>
    rw [stage]
    exact ⟨fun c hc => (by cases hc), fun c' hc' => .inl (found.trans hc')⟩
  | recorded | raised => exact ⟨fun c hc => (by cases hc), fun c hc => by cases hc⟩

theorem WellFormed.apply (h : s.WellFormed) (op : SessionOp) : (s.apply op).WellFormed := by
  obtain ⟨_, -, he, hco⟩ := s.apply_steps op
  obtain ⟨hkey, hs⟩ := hco.rows h
  have hn := he.nextSequence_le
  refine
    { numbered := ?_
      owned := ?_
      sources := fun c hc => (hs c hc).trans_le hn
      keys := hkey
      latest := ?_
      pending := ?_
      requests := ?_
      finishing := ?_ }
  · rw [he.messages]
    refine pairwise_append.2 ⟨h.numbered, he.increasing, fun m hm m' hm' => ?_⟩
    exact (sequence_lt_nextSequence hm).trans_le (he.numbers m' hm')
  · intro m hm
    rw [he.messages] at hm
    rcases mem_append.1 hm with hold | hnew
    · obtain ⟨store, hst, hle⟩ := h.owned m hold
      obtain ⟨store', hst', hmo⟩ := he.runs _ _ hst
      exact ⟨store', hst', hle.trans hmo⟩
    · obtain ⟨store', hst', hep⟩ := onBranch_iff.1 (he.branch m hnew)
      exact ⟨store', hst', hep.ge⟩
  · intro id b' hb' c hc
    have hk : c ∈ s.compactions ∧ c.summary.isSome = true →
        c ∈ (s.apply op).compactions ∧ c.summary.isSome = true := fun hmem =>
      ⟨hco.mem h.keys hmem.1 (not_pending_of_summary hmem.2), hmem.2⟩
    obtain hold | ⟨env, b, s₁, stage, -, hb, hmv, -, rfl⟩ |
      ⟨run, lease, codec, now, store, recovery, -, -, -, -, rfl⟩ := apply_builds hb'
    · exact hk (h.latest id b' hold c hc)
    · rcases hmv.stage.1 c hc with hbe | hl
      · exact hk (h.latest id b hb c hbe)
      · exact hk (latestCompleted_mem hl)
    · cases hc
  · intro id b' hb' c hc
    have hp : (∃ row ∈ s.compactions, row.id = c.id ∧
          row.sourceMessageSequence = c.sourceMessageSequence) →
        ∃ row ∈ (s.apply op).compactions, row.id = c.id ∧
          row.sourceMessageSequence = c.sourceMessageSequence := by
      rintro ⟨row, hrow, hid, hsrc⟩
      obtain ⟨row', hrow', hid', hsrc'⟩ := hco.persists h.keys hrow
      exact ⟨row', hrow', hid'.trans hid, hsrc'.trans hsrc⟩
    obtain hold | ⟨env, b, s₁, stage, -, hb, hmv, ha, rfl⟩ |
      ⟨run, lease, codec, now, store, recovery, -, -, -, -, rfl⟩ := apply_builds hb'
    · exact hp (h.pending id b' hold c hc)
    · rcases hmv.stage.2 c hc with hbe | hmem | hmem
      · exact hp (h.pending id b hb c hbe)
      · exact hco.persists h.keys hmem
      · rw [ha]
        exact ⟨c, hmem, rfl, rfl⟩
    · cases hc
  · intro id b' hb' c hc
    obtain ⟨b, hb, hct, heq⟩ | ⟨env, b, -, -, -, rfl, -, hreq⟩ := apply_context hb' hc
    · obtain ⟨env, hen⟩ := h.requests id b hb c hct
      exact ⟨env, by rw [heq]; exact hen⟩
    · exact ⟨env, hreq⟩
  · intro id b' c pending result hb' hsta
    obtain hold | ⟨env, b, s₁, stage, -, -, hmv, -, rfl⟩ |
      ⟨run, lease, codec, now, store, recovery, -, -, -, -, rfl⟩ := apply_builds hb'
    · exact h.finishing id b' c pending result hold hsta
    · cases hmv with
      | finishing _ _ _ _ found =>
        cases hsta
        exact found
      | _ => cases hsta
    · cases hsta

end WellFormed

end ContextSession

theorem ContextSession.wellFormed_empty : ({} : ContextSession).WellFormed where
  numbered := .nil
  owned := fun _ hm => absurd hm not_mem_nil
  sources := fun _ hc => absurd hc not_mem_nil
  keys := .nil
  latest := fun _ _ hb => by cases hb
  pending := fun _ _ hb => by cases hb
  requests := fun _ _ hb => by cases hb
  finishing := fun _ _ _ _ _ hb => by cases hb

end AgentPlatform
