/-
**The messages a rewind starts a new branch with.**
-/

import AgentPlatform.TranscriptPositions

namespace AgentPlatform

open Checkpoint KeyedTable RunStore

open History (Admissible)

def Checkpoint.covers (c : Checkpoint) (m : MessageRecord) : Bool :=
  m.createdAt ≤ c.createdAt && m.transcriptIndex.all (· ≤ c.messageSequence)

def MessageRecord.entry (m : MessageRecord) : Option ℕ × GatewayMessage :=
  (m.transcriptIndex, m.message)

variable {rows journaled : List MessageRecord} {now : Timestamp} {s s' : RunStore} {x : Submission}

variable {c : Checkpoint} {lease : RunLease} {codec : StoreCodec}

theorem rewoundCopies_entry {epoch : ℕ} {sequence : ℕ} :
    (rewoundCopies epoch now sequence rows).map (·.entry) = rows.map (·.entry) := by
  induction rows generalizing sequence with
  | nil => rfl
  | cons _ _ ih =>
    unfold rewoundCopies
    rw [map_cons, map_cons, ih]
    rfl

theorem rewind_copies {id : Uuid} {run : Run} (hs : s.WellFormed)
    (h : rewind s id now = .ok (some run, s')) : ∃ record, s.checkpoint? id = some record ∧
      s'.run.executionEpoch = s.run.executionEpoch + 1 ∧ s'.checkpoints = s.checkpoints ∧
      (s'.epochMessages s'.run.executionEpoch).map (·.entry) =
        ((s.epochMessages record.checkpoint.executionEpoch).filter record.checkpoint.covers).map
          (·.entry) ∧
      ∀ epoch ≤ s.run.executionEpoch, s'.epochMessages epoch = s.epochMessages epoch := by
  obtain ⟨record, retained, hrec, hr, hms, hc, hep, -⟩ :=
    rewind_messages h
  refine ⟨record, hrec, hep, hc, ?_, ?_⟩
  · have hold : s.messages.filter (·.executionEpoch = s.run.executionEpoch + 1) = [] := by
      rw [filter_eq_nil_iff]
      intro m hm heq
      have hle := hs.messageEpochs m hm
      rw [of_decide_eq_true heq] at hle
      omega
    have hnew : (rewoundCopies (s.run.executionEpoch + 1) now s.nextSequence retained).filter
        (·.executionEpoch = s.run.executionEpoch + 1) =
        rewoundCopies (s.run.executionEpoch + 1) now s.nextSequence retained :=
      filter_eq_self.2 fun m hm => decide_eq_true (rewoundCopies_placed hm).1
    unfold epochMessages
    rw [hep, hms, filter_append, hold, nil_append, hnew, rewoundCopies_entry,
      retainedRows_eq_filter hr, rewindRows, List.filter_filter, List.filter_filter]
    congr 2
    funext m
    simp only [covers]
    rw [Bool.and_comm, Bool.and_assoc, Bool.and_comm]
  · intro epoch hle
    have hn : (rewoundCopies (s.run.executionEpoch + 1) now s.nextSequence retained).filter
        (·.executionEpoch = epoch) = [] := by
      rw [filter_eq_nil_iff]
      intro m hm heq
      have hco := (rewoundCopies_placed hm).1
      rw [of_decide_eq_true heq] at hco
      omega
    unfold epochMessages
    rw [hms, filter_append, hn, append_nil]

theorem rewind_none {id : Uuid} (h : rewind s id now = .ok (none, s')) : s' = s := by
  obtain ⟨-, hs⟩ | ⟨_, _, _, hso, -⟩ := rewind_ok h
  · exact hs
  · cases hso

theorem appendTranscriptRows_new {occurredAt : Timestamp} {messages : List GatewayMessage}
    {index sequence : ℕ} {rows' : List MessageRecord}
    (h : appendTranscriptRows lease occurredAt index messages sequence rows = .ok rows') :
    ∃ new, rows' = rows ++ new ∧ ∀ m ∈ new, m.executionEpoch = lease.executionEpoch ∧
      m.createdAt = occurredAt ∧ ∃ position, m.transcriptIndex = some position ∧
        index < position := by
  induction messages generalizing index sequence rows with
  | nil =>
    cases h
    exact ⟨[], (append_nil _).symm, by simp⟩
  | cons message _ ih =>
    unfold appendTranscriptRows at h
    split at h
    · split at h
      · cases h
      obtain ⟨new, hrow, hnew⟩ := ih h
      refine ⟨new, hrow, fun m hm => ?_⟩
      obtain ⟨hep, hs, position, hind, hlt⟩ := hnew m hm
      exact ⟨hep, hs, position, hind, by omega⟩
    · obtain ⟨new, rfl, hnew⟩ := ih h
      refine ⟨journalRow lease occurredAt (index + 1) sequence message :: new, by simp, ?_⟩
      intro m hm
      rcases mem_cons.1 hm with rfl | hm
      · exact ⟨rfl, rfl, index + 1, rfl, Nat.lt_succ_self _⟩
      · obtain ⟨hep, hs, position, hind, hlt⟩ := hnew m hm
        exact ⟨hep, hs, position, hind, by omega⟩

theorem appendTranscriptFenced_new {startIndex : ℕ} {messages : List GatewayMessage}
    {occurredAt : Timestamp} {u : Unit}
    (h : appendTranscriptFenced codec s lease now startIndex messages occurredAt = .ok (u, s')) :
    ∃ new, s' = { s with messages := s.messages ++ new } ∧
      ∀ m ∈ new, m.executionEpoch = lease.executionEpoch ∧ m.createdAt = occurredAt ∧
        ∃ position, m.transcriptIndex = some position ∧ startIndex < position := by
  unfold appendTranscriptFenced at h
  split at h
  · cases h
  split at h
  · cases h
  split at h
  · cases h
  cases hrow : appendTranscriptRows lease occurredAt startIndex messages s.nextSequence
      s.messages with
  | error f =>
    rw [hrow] at h
    cases h
  | ok rows =>
    rw [hrow] at h
    cases h
    obtain ⟨new, rfl, hnew⟩ := appendTranscriptRows_new hrow
    exact ⟨new, rfl, hnew⟩

def Attempt.due (a : Attempt) : Option LoopStep :=
  match a.phase with
  | .running (step :: _) x => if x.approvalDue.isNone then some step else none
  | _ => none

def World.due (w : World) : SystemOp → Option (RunLease × LoopStep)
  | .work g _ _ => (w.attempts g).bind fun a => a.due.map (a.lease, ·)
  | _ => none

inductive RunStore.BranchMoves (s : RunStore) (due : Option (RunLease × LoopStep))
    (s' : RunStore) : Prop
  | kept (kept : s.PositionsKept s') (epoch : s'.run.executionEpoch = s.run.executionEpoch)
  | journaled (lease : RunLease) (startIndex : ℕ) (messages : List GatewayMessage)
      (occurredAt : Timestamp) (new : List MessageRecord)
      (step : due = some (lease, .journal startIndex messages occurredAt))
      (current : lease.executionEpoch = s.run.executionEpoch)
      (stored : s' = { s with messages := s.messages ++ new })
      (rows : ∀ m ∈ new, m.executionEpoch = lease.executionEpoch ∧ m.createdAt = occurredAt ∧
        ∃ position, m.transcriptIndex = some position ∧ startIndex < position)
  | created (lease : RunLease) (c : CheckpointRequest) (w : Workspace)
      (step : due = some (lease, .createCheckpoint c))
      (current : lease.executionEpoch = s.run.executionEpoch)
      (fresh : ∀ row ∈ s.checkpoints, row.checkpoint.id ≠ c.id)
      (stored : s' =
        { s with checkpoints := s.checkpoints ++ [{ checkpoint := c.toCheckpoint lease w }] })
  | rewound (id : Uuid) (now : Timestamp) (run : Run)
      (rewind : rewind s id now = .ok (some run, s'))

theorem RunStore.BranchMoves.same {due : Option (RunLease × LoopStep)} :
    s.BranchMoves due s :=
  .kept (.refl s) rfl

theorem Performs.branchMoves {hash : JsonObject → String} {w : Workspace} {x : Executor}
    {rest : List LoopStep} {step : LoopStep} {p : Performed}
    (h : Performs hash codec lease now s w x rest step p) :
    s.BranchMoves (some (lease, step)) p.store := by
  cases h with
  | saved _ _ _ _ _ save =>
    obtain ⟨-, -, row, -, rfl⟩ := saveToolCallFenced_inv save
    exact .kept ⟨rfl, fun row hrow => ⟨row, hrow, rfl⟩⟩ rfl
  | journaled startIndex messages occurredAt _ _ append =>
    have hc := (leaseActive_epoch (appendTranscriptFenced_inv append).1).symm
    obtain ⟨new, rfl, hnew⟩ := appendTranscriptFenced_new append
    exact .journaled lease startIndex messages occurredAt new rfl hc rfl hnew
  | created c _ _ create =>
    obtain ⟨ha, -, ⟨-, rfl⟩ | ⟨hf, -, rfl⟩⟩ := createCheckpointFenced_inv create
    · exact .same
    · exact .created lease c w rfl (leaseActive_epoch ha).symm hf rfl
  | completed _ _ _ _ _ complete =>
    obtain ⟨-, row, hrow, -, rfl⟩ := completeCheckpointFenced_inv complete
    refine .kept ⟨rfl, fun row' hrow' => ?_⟩ rfl
    rcases mem_of_mem_upsert hrow' with rfl | hold
    · exact ⟨row, (lookup_some hrow).1, rfl⟩
    · exact ⟨row', hold, rfl⟩
  | _ => exact .same

theorem Works.branchMoves {a : Attempt} {p : Performed} {step? : Option LoopStep}
    (h : Works a codec now s (p, step?)) : s.BranchMoves (a.due.map (a.lease, ·)) p.store := by
  cases h with
  | approval _ _ _ _ _ _ _ create =>
    obtain ⟨-, -, -, ⟨-, rfl⟩ | ⟨-, -, rfl⟩⟩ := createApprovalFenced_inv create
    · exact .same
    · exact .kept ⟨rfl, fun row hrow => ⟨row, hrow, rfl⟩⟩ rfl
  | step _ step _ _ phase due performs =>
    have hdue : a.due = some step := by simp [Attempt.due, phase, due]
    rw [hdue]
    exact performs.branchMoves
  | _ => exact .same

theorem World.apply_branchMoves (w : World) (op : SystemOp) :
    w.store.BranchMoves (w.due op) (w.apply op).store := by
  have hmv := w.apply_moves op
  generalize w.apply op = w' at hmv
  cases hmv with
  | managed _ _ tables | claimed _ _ _ tables | started _ _ _ _ _ _ _ tables
  | finished _ _ _ _ _ _ _ tables => exact .kept tables.positionsKept tables.executionEpoch
  | worked g a codec now _ _ attempt works =>
    have hdue : w.due (.work g codec now) = a.due.map (a.lease, ·) := by
      simp [World.due, attempt]
    rw [hdue]
    exact works.branchMoves
  | rewound id now run _ _ rewind => exact .rewound id now run rewind
  | _ => exact .same

def RunStore.transcript (s : RunStore) (epoch : ℕ) : List MessageRecord :=
  (s.epochMessages epoch).filter (·.transcriptIndex.isSome)

structure Branches where
  world : World
  journaled : Uuid → List MessageRecord := fun _ => []

def Branches.apply (b : Branches) (op : SystemOp) : Branches :=
  let w := b.world.apply op
  { world := w
    journaled := fun id =>
      match b.world.store.checkpoint? id, w.store.checkpoint? id with
      | none, some row => w.store.transcript row.checkpoint.executionEpoch
      | _, _ => b.journaled id }

def branches (x : Submission) : Branches := { world := submitted x }

def Submission.message (x : Submission) : GatewayMessage :=
  { role := .user, content := .text x.task }

def RunStore.BranchSafe (s : RunStore) (lease : RunLease) : LoopStep → Prop
  | .journal startIndex _ occurredAt => ∀ row ∈ s.checkpoints,
      row.checkpoint.executionEpoch = lease.executionEpoch →
        row.checkpoint.createdAt < occurredAt ∨ row.checkpoint.messageSequence ≤ startIndex
  | .createCheckpoint c => (∀ row ∈ s.checkpoints, row.checkpoint.id ≠ c.id) →
      ∀ m ∈ s.messages, m.executionEpoch = lease.executionEpoch →
        m.createdAt ≤ c.createdAt ∧ ∀ position ∈ m.transcriptIndex, position ≤ c.messages.length
  | _ => True

instance (s : RunStore) (lease : RunLease) (step : LoopStep) :
    Decidable (s.BranchSafe lease step) := by
  unfold RunStore.BranchSafe
  split <;> infer_instance

def KeepsBranches (w : World) (op : SystemOp) : Prop :=
  ∀ d ∈ w.due op, w.store.BranchSafe d.1 d.2

instance (w : World) (op : SystemOp) : Decidable (KeepsBranches w op) :=
  inferInstanceAs (Decidable (∀ d ∈ w.due op, w.store.BranchSafe d.1 d.2))

def Opens (x : Submission) (rows journaled : List MessageRecord) : Prop :=
  ∃ first, rows = first :: journaled ∧ first.entry = (none, x.message) ∧
    ∀ m ∈ journaled, m.transcriptIndex.isSome

def RunStore.HoldsBranch (s : RunStore) (x : Submission) (c : Checkpoint)
    (journaled : List MessageRecord) : Prop :=
  ∃ rows later, s.epochMessages c.executionEpoch = rows ++ later ∧ Opens x rows journaled ∧
    (∀ m ∈ rows, c.covers m = true) ∧ ∀ m ∈ later, c.covers m = false

structure Branches.Exact (b : Branches) (x : Submission) : Prop where
  wellFormed : b.world.store.WellFormed
  positive : 1 ≤ b.world.store.run.executionEpoch
  opened : ∀ epoch, 1 ≤ epoch → epoch ≤ b.world.store.run.executionEpoch →
    ∃ journaled, Opens x (b.world.store.epochMessages epoch) journaled
  branches : ∀ row ∈ b.world.store.checkpoints,
    b.world.store.HoldsBranch x row.checkpoint (b.journaled row.checkpoint.id)

theorem Opens.transcript (h : Opens x rows journaled)
    : rows.filter (·.transcriptIndex.isSome) = journaled := by
  obtain ⟨first, rfl, hf, hr⟩ := h
  have hn : first.transcriptIndex = none := congrArg Prod.fst hf
  rw [filter_cons_of_neg (by simp [hn])]
  exact filter_eq_self.2 hr

theorem Opens.append {new : List MessageRecord} (h : Opens x rows journaled)
    (hnew : ∀ m ∈ new, m.transcriptIndex.isSome) : Opens x (rows ++ new) (journaled ++ new) := by
  obtain ⟨first, rfl, hf, hr⟩ := h
  refine ⟨first, rfl, hf, fun m hm => ?_⟩
  rcases mem_append.1 hm with hold | hm
  · exact hr m hold
  · exact hnew m hm

theorem Opens.of_entries {rows' : List MessageRecord} (h : Opens x rows journaled)
    (hs : rows'.map (·.entry) = rows.map (·.entry)) : ∃ journaled', Opens x rows' journaled' := by
  obtain ⟨_, rfl, hf, hr⟩ := h
  obtain ⟨first', rest', rfl, hf', hr'⟩ := List.map_eq_cons_iff.1 hs
  refine ⟨rest', first', rfl, hf'.trans hf, fun m hm => ?_⟩
  have hmem : m.entry ∈ journaled.map (·.entry) := hr' ▸ mem_map_of_mem hm
  obtain ⟨source, hso, he⟩ := mem_map.1 hmem
  have hind : source.transcriptIndex = m.transcriptIndex := congrArg Prod.fst he
  exact hind ▸ hr source hso

theorem RunStore.HoldsBranch.filter (h : s.HoldsBranch x c journaled) :
    Opens x ((s.epochMessages c.executionEpoch).filter c.covers) journaled := by
  obtain ⟨_, _, hrow, ho, hc, hl⟩ := h
  rw [hrow, filter_append, filter_eq_self.2 hc,
    filter_eq_nil_iff.2 fun m hm => by simp [hl m hm], append_nil]
  exact ho

theorem RunStore.HoldsBranch.of_same (h : s.HoldsBranch x c journaled)
    (hs : s'.epochMessages c.executionEpoch = s.epochMessages c.executionEpoch) :
    s'.HoldsBranch x c journaled := by
  obtain ⟨rows, later, hrow, hr⟩ := h
  exact ⟨rows, later, hs.trans hrow, hr⟩

section Apply

variable {b : Branches} {x : Submission} {op : SystemOp}

variable {row : CheckpointRecord}

theorem Branches.apply_journaled (hrow : row ∈ b.world.store.checkpoints) :
    (b.apply op).journaled row.checkpoint.id = b.journaled row.checkpoint.id := by
  unfold Branches.apply
  dsimp only
  split
  next hn hs => exact absurd rfl (lookup_eq_none.1 hn row hrow)
  · rfl

theorem Branches.apply_journaled_new
    (hnew : ∀ row' ∈ b.world.store.checkpoints, row'.checkpoint.id ≠ row.checkpoint.id)
    (hrow : (b.world.apply op).store.checkpoint? row.checkpoint.id = some row) :
    (b.apply op).journaled row.checkpoint.id =
      (b.world.apply op).store.transcript row.checkpoint.executionEpoch := by
  have hn : b.world.store.checkpoint? row.checkpoint.id = none :=
    lookup_eq_none.2 hnew
  unfold Branches.apply
  dsimp only
  rw [hn, hrow]

theorem RunStore.BranchSafe.uncovered {s : RunStore} {lease : RunLease} {startIndex : ℕ}
    {messages : List GatewayMessage} {occurredAt : Timestamp} {m : MessageRecord} {position : ℕ}
    (h : s.BranchSafe lease (.journal startIndex messages occurredAt)) (hrow : row ∈ s.checkpoints)
    (hep : row.checkpoint.executionEpoch = lease.executionEpoch)
    (hs : m.createdAt = occurredAt) (hind : m.transcriptIndex = some position)
    (hlt : startIndex < position) : row.checkpoint.covers m = false := by
  unfold covers
  rw [hs, hind, all_some, Bool.and_eq_false_iff, decide_eq_false_iff_not,
    decide_eq_false_iff_not]
  rcases h row hrow hep with hl | hb
  · exact .inl (not_le.2 hl)
  · exact .inr (not_le.2 (lt_of_le_of_lt hb hlt))

theorem RunStore.BranchSafe.covered {s : RunStore} {lease : RunLease} {c : CheckpointRequest}
    {w : Workspace} {m : MessageRecord} (h : s.BranchSafe lease (.createCheckpoint c))
    (hf : ∀ row ∈ s.checkpoints, row.checkpoint.id ≠ c.id) (hm : m ∈ s.messages)
    (hep : m.executionEpoch = lease.executionEpoch) : (c.toCheckpoint lease w).covers m := by
  obtain ⟨hs, hpos⟩ := h hf m hm hep
  unfold covers
  rw [and_eq_true, Option.all_eq_true]
  exact ⟨decide_eq_true hs, fun position hind => decide_eq_true (hpos position hind)⟩

theorem Branches.Exact.apply (h : b.Exact x) (hop : KeepsBranches b.world op) :
    (b.apply op).Exact x := by
  have hwf := h.wellFormed.of_committed (b.world.apply_committed op)
  have hj := @Branches.apply_journaled b op
  have hnew := @Branches.apply_journaled_new b op
  have hmv := b.world.apply_branchMoves op
  have hw : (b.apply op).world = b.world.apply op := rfl
  generalize b.apply op = b' at hj hnew hw ⊢
  rw [← hw] at hwf hmv hnew
  cases hmv with
  | kept kept epoch =>
    have hs : ∀ e, b'.world.store.epochMessages e = b.world.store.epochMessages e := by
      intro e
      unfold epochMessages
      rw [kept.messages]
    refine ⟨hwf, epoch ▸ h.positive, fun e hpos hle => ?_, fun row' hrow' => ?_⟩
    · rw [hs]
      exact h.opened e hpos (epoch ▸ hle)
    · obtain ⟨row, hrow, heq⟩ := kept.checkpoints row' hrow'
      rw [← heq, hj hrow]
      exact (h.branches row hrow).of_same (hs _)
  | journaled lease _ _ _ new step current stored rows =>
    have hsa := hop _ step
    have hso : ∀ m ∈ new, m.transcriptIndex.isSome := by
      intro m hm
      obtain ⟨-, -, position, hind, -⟩ := rows m hm
      rw [hind]
      rfl
    have hown : b'.world.store.epochMessages lease.executionEpoch =
        b.world.store.epochMessages lease.executionEpoch ++ new := by
      rw [stored]
      unfold epochMessages
      rw [filter_append, filter_eq_self.2 fun m hm => decide_eq_true (rows m hm).1]
    have ho : ∀ e, e ≠ lease.executionEpoch →
        b'.world.store.epochMessages e = b.world.store.epochMessages e := by
      intro e hne
      have hn : new.filter (·.executionEpoch = e) = [] := by
        rw [filter_eq_nil_iff]
        intro m hm heq
        exact hne ((of_decide_eq_true heq).symm.trans (rows m hm).1)
      rw [stored]
      unfold epochMessages
      rw [filter_append, hn, append_nil]
    have hrun : b'.world.store.run = b.world.store.run := by rw [stored]
    have hc : b'.world.store.checkpoints = b.world.store.checkpoints := by rw [stored]
    refine ⟨hwf, hrun ▸ h.positive, fun e hpos hle => ?_, fun row hrow => ?_⟩
    · obtain ⟨journaled, hoe⟩ := h.opened e hpos (hrun ▸ hle)
      by_cases he : e = lease.executionEpoch
      · subst he
        rw [hown]
        exact ⟨_, hoe.append hso⟩
      · rw [ho e he]
        exact ⟨_, hoe⟩
    · rw [hc] at hrow
      rw [hj hrow]
      by_cases he : row.checkpoint.executionEpoch = lease.executionEpoch
      · obtain ⟨branch, later, hr, hoe, hco, hl⟩ := h.branches row hrow
        refine ⟨branch, later ++ new, ?_, hoe, hco, fun m hm => ?_⟩
        · rw [he, hown, ← he, hr, append_assoc]
        · rcases mem_append.1 hm with hold | hm
          · exact hl m hold
          · obtain ⟨-, hst, position, hind, hlt⟩ := rows m hm
            exact hsa.uncovered hrow he hst hind hlt
      · exact (h.branches row hrow).of_same (ho _ he)
  | created lease c w step current fresh stored =>
    have hsa := hop _ step
    have hs : ∀ e, b'.world.store.epochMessages e = b.world.store.epochMessages e := by
      intro e
      rw [stored]
      rfl
    have hrun : b'.world.store.run = b.world.store.run := by rw [stored]
    refine ⟨hwf, hrun ▸ h.positive, fun e hpos hle => ?_, fun row hrow => ?_⟩
    · rw [hs]
      exact h.opened e hpos (hrun ▸ hle)
    have hmem := hrow
    rw [stored] at hmem
    rcases mem_append.1 hmem with hold | hnR
    · rw [hj hold]
      exact (h.branches row hold).of_same (hs _)
    obtain rfl := mem_singleton.1 hnR
    have hlo : b'.world.store.checkpoint? c.id =
        some { checkpoint := c.toCheckpoint lease w } :=
      hwf.checkpointKeys.lookup_eq_some_iff.2 ⟨hrow, rfl⟩
    obtain ⟨journaled, hoe⟩ := h.opened lease.executionEpoch
      (current ▸ h.positive) current.le
    have ht : b'.journaled c.id = journaled := by
      have hnot := @hnew { checkpoint := c.toCheckpoint lease w } fresh hlo
      unfold transcript at hnot
      rw [hs] at hnot
      exact hnot.trans hoe.transcript
    refine ⟨b.world.store.epochMessages lease.executionEpoch, [],
      (hs _).trans (append_nil _).symm, ht ▸ hoe, fun m hm => ?_,
      fun m hm => absurd hm not_mem_nil⟩
    obtain ⟨hm, hep⟩ := mem_filter.1 hm
    exact hsa.covered fresh hm (of_decide_eq_true hep)
  | rewound _ _ run rewind =>
    obtain ⟨record, hrec, hep, hc, hcp, ho⟩ :=
      rewind_copies h.wellFormed rewind
    refine ⟨hwf, by omega, fun e hpos hle => ?_, fun row hrow => ?_⟩
    · by_cases he : e ≤ b.world.store.run.executionEpoch
      · rw [ho e he]
        exact h.opened e hpos he
      · obtain rfl : e = b'.world.store.run.executionEpoch := by omega
        have hmem := (lookup_some hrec).1
        exact (h.branches record hmem).filter.of_entries hcp
    · rw [hc] at hrow
      rw [hj hrow]
      exact (h.branches row hrow).of_same (ho _ (h.wellFormed.checkpointEpochs row hrow))

end Apply

theorem branches_exact (x : Submission) : (branches x).Exact x where
  wellFormed := .submit x
  positive := le_refl 1
  opened := by
    intro epoch hpos hle
    obtain rfl : epoch = 1 := le_antisymm hle hpos
    exact ⟨[], _, rfl, rfl, by simp⟩
  branches := fun row hrow => absurd hrow not_mem_nil

/-- **A rewind starts the new epoch with exactly the branch of its checkpoint**. -/
theorem rewind_seeds_branch (x : Submission) (ops : List SystemOp)
    (hops : Admissible Branches.apply (fun b op => KeepsBranches b.world op) (branches x) ops)
    (id : Uuid) (now : Timestamp) (run : Run) (s' : RunStore)
    (hrewind : rewind (ops.foldl Branches.apply (branches x)).world.store id now =
      .ok (some run, s')) : (s'.epochMessages s'.run.executionEpoch).map (·.entry) =
      (none, x.message) ::
        ((ops.foldl Branches.apply (branches x)).journaled id).map (·.entry) := by
  have h := hops.invariant (Branches.Exact · x) (fun _ _ hb hop => hb.apply hop) (branches_exact x)
  obtain ⟨record, hrecord, -, -, hcopies, -⟩ := rewind_copies h.wellFormed hrewind
  obtain ⟨hmem, hid⟩ := KeyedTable.lookup_some hrecord
  obtain ⟨_, hrows, hfirst, -⟩ := (h.branches record hmem).filter
  have hid' : record.checkpoint.id = id := hid
  rw [hcopies, hrows, map_cons, hfirst, hid']

def commandEnv (origin : Timestamp) (checkpointId : Uuid) : LoopEnv :=
  scriptedEnv origin (fun name => if name = "run_command" then some .command else none)
    [proposing [{ id := "call-1", name := "run_command", arguments := .nil }],
     { events := [.textDelta "done", .responseCompleted .stop] }]
    (fun _ => { items := [.completed .nil] })
    (some
      { snapshotBefore := fun _ => .ok
          { id := checkpointId, uri := "archive", revision := "revision" }
        snapshotAfter := fun _ => some
          { id := checkpointId + 1, uri := "archive-after", revision := "revision-after" }
        rollback := fun _ => true })

def rewoundHistory (rewoundAt : Timestamp) : List SystemOp :=
  attemptOps 1 (commandEnv 10 51) 5 100 ++ workOps 1 22 6 ++ [.finish 1 7, .rewind 51 rewoundAt] ++
    attemptOps 2 (commandEnv 500 61) 20 100 ++ workOps 2 22 21 ++ [.finish 2 22]

def rewoundBranches (rewoundAt : Timestamp) : Branches :=
  (rewoundHistory rewoundAt).foldl Branches.apply (branches (scriptedSubmission .autoApprove))

def reseeded (b : Branches) : Option (List (Option ℕ × GatewayMessage)) :=
  match rewind b.world.store 61 2000 with
  | .ok (some _, s') => some ((s'.epochMessages s'.run.executionEpoch).map (·.entry))
  | _ => none

theorem rewind_seeds_branch_clocks_ahead :
    ∃ run s', rewind (rewoundBranches 100).world.store 61 2000 = .ok (some run, s') ∧
      (s'.epochMessages s'.run.executionEpoch).map (·.entry) =
        (none, (scriptedSubmission .autoApprove).message) ::
          ((rewoundBranches 100).journaled 61).map (·.entry) := by
  have hsome : (reseeded (rewoundBranches 100)).isSome := by decide +kernel
  unfold reseeded at hsome
  split at hsome
  next run s' hrewind =>
    unfold rewoundBranches at hrewind ⊢
    exact ⟨run, s', hrewind, rewind_seeds_branch _ _ (by decide +kernel) _ _ _ _ hrewind⟩
  · cases hsome

theorem rewind_loses_seed :
    ¬ ∀ (x : Submission) (ops : List SystemOp) (id : Uuid) (now : Timestamp) (run : Run)
      (s' : RunStore),
      rewind (ops.foldl Branches.apply (branches x)).world.store id now = .ok (some run, s') →
      (s'.epochMessages s'.run.executionEpoch).map (·.entry) = (none, x.message) ::
          ((ops.foldl Branches.apply (branches x)).journaled id).map (·.entry) := by
  intro h
  have hlost : (reseeded (rewoundBranches 1000)).map List.length = some 1 := by decide +kernel
  have hbranch : ((rewoundBranches 1000).journaled 61).length = 2 := by decide +kernel
  unfold reseeded at hlost
  split at hlost
  next run s' hrewind =>
    unfold rewoundBranches at hrewind hbranch
    have hseed := congrArg List.length (h _ _ _ _ _ _ hrewind)
    rw [map_some, Option.some_inj] at hlost
    rw [hlost, length_cons, length_map, hbranch] at hseed
    cases hseed
  · cases hlost

end AgentPlatform
