/-
**Positions of journaled messages.**
-/

import AgentPlatform.DurableTables
import AgentPlatform.LoopRefinement

namespace AgentPlatform

open Config KeyedTable RunStore TurnState World List

open History (Admissible)

/-! ### What the loop journals -/

def journaledAfter (count : ℕ) : LoopStep → ℕ
  | .journal startIndex messages _ => startIndex + messages.length
  | _ => count

def JournalsNext (count : ℕ) : LoopStep → Prop
  | .journal startIndex _ _ => startIndex = count
  | .createCheckpoint c => count ≤ c.messages.length
  | _ => True

def JournalsFrom (count : ℕ) (steps : List LoopStep) : Prop :=
  Admissible journaledAfter JournalsNext count steps

theorem journalsFrom_emit (count : ℕ) (events : List AgentEvent) :
    JournalsFrom count (events.map .emit) ∧
      (events.map LoopStep.emit).foldl journaledAfter count = count := by
  induction events with
  | nil => exact ⟨trivial, rfl⟩
  | cons _ _ ih => exact ⟨⟨trivial, ih.1⟩, ih.2⟩

theorem Move.journals {env : LoopEnv} {input : AgentLoopInput} {c c' : Config}
    {steps : List LoopStep} (hm : Move env input c steps c') {count : ℕ}
    (h : c.journaled = count ∧ count ≤ c.state.transcript.length) :
    JournalsFrom count steps ∧ c'.journaled = steps.foldl journaledAfter count ∧
      steps.foldl journaledAfter count ≤ c'.state.transcript.length := by
  obtain ⟨rfl, hle⟩ := h
  cases hm with
  | journal =>
    have hlen : c.journaled + (c.state.transcript.drop c.journaled).length =
        c.state.transcript.length := by
      rw [length_drop]
      omega
    exact ⟨⟨rfl, trivial⟩, hlen.symm, hlen.le⟩
  | resume =>
    refine ⟨trivial, rfl, hle.trans ?_⟩
    dsimp only
    split
    · exact le_refl _
    · simp
  | answer =>
    refine ⟨trivial, rfl, hle.trans ?_⟩
    dsimp only
    split
    · simp
    · exact le_refl _
  | conclude | askAgain | reject | settle => exact ⟨trivial, rfl, hle.trans (by simp)⟩
  | replay =>
    exact ⟨trivial, rfl, hle.trans (by simp [reply])⟩
  | execute =>
      exact ⟨⟨trivial, trivial, trivial⟩, rfl, hle.trans (by simp [settleExecuted])⟩
  | executeCheckpointed _ _ _ _ _ _ k _ _ _ _ _ _ _ checkpoint
  | executeRolledBack _ _ _ _ _ _ k _ _ _ _ _ _ checkpoint =>
    have hms : c.journaled ≤ k.messages.length := by rw [checkpoint.messages]; exact hle
    exact ⟨⟨hms, trivial, trivial, trivial, trivial⟩, rfl,
      hle.trans (by simp [settleExecuted, checkpointed])⟩
  | breakAfter _ item _ _ output error k completion _ _ _ _ _ _ _ checkpoint =>
      have hms : c.journaled ≤ k.messages.length := by rw [checkpoint.messages]; exact hle
      have hk : c.journaled ≤ (((c.state.checkpointed env k).emit env
          (.toolStarted item.call.id item.call.name :: output)).fail env item.call.id
            error).transcript.length := hle
      cases completion with
      | none => exact ⟨⟨hms, trivial, trivial, trivial, trivial⟩, rfl, hk⟩
      | some =>
        exact ⟨⟨hms, trivial, trivial, trivial, trivial, trivial⟩, rfl, hk⟩
  | flush =>
    obtain ⟨hj, hc⟩ := journalsFrom_emit c.journaled c.state.emitted
    exact ⟨hj, hc.symm, hc.trans_le hle⟩
  | request => exact ⟨⟨trivial, trivial, trivial⟩, rfl, hle⟩
  | yield | reannounce | receive | respond | suspend | validate =>
    exact ⟨⟨trivial, trivial⟩, rfl, hle⟩
  | close | skip | resumed | breakBefore | executed => exact ⟨trivial, rfl, hle⟩

theorem run_journalsFrom (env : LoopEnv) (input : AgentLoopInput) :
    JournalsFrom input.messages.length (run env input) := by
  obtain ⟨c', hp⟩ := run_path env input
  have hs : (initial env input).journaled = input.messages.length ∧
      input.messages.length ≤ (initial env input).state.transcript.length :=
    ⟨rfl, by simp [initial, ofLoop, initialLoopState]⟩
  exact (hp.admissible (R := fun c count => c.journaled = count ∧
    count ≤ c.state.transcript.length) (fun c steps c' count hm h => hm.journals h) hs).1

/-! ### Positions in the tables -/

def RunStore.positions (s : RunStore) (epoch : ℕ) : List ℕ :=
  (s.epochMessages epoch).filterMap (·.transcriptIndex)

def MessageRecord.Placed (m : MessageRecord) : Prop :=
  ∀ epoch position, m.id = .transcript epoch position →
    m.executionEpoch = epoch ∧ m.transcriptIndex = some position

variable {s : RunStore} {epoch : ℕ} {rows : List MessageRecord} {now : Timestamp}

theorem RunStore.mem_positions {m : MessageRecord} {position : ℕ} (hm : m ∈ s.messages)
    (hp : m.Placed) (hid : m.id = .transcript epoch position) : position ∈ s.positions epoch := by
  obtain ⟨hep, hind⟩ := hp epoch position hid
  exact mem_filterMap.2
    ⟨m, mem_filter.2 ⟨hm, decide_eq_true hep⟩, hind⟩

variable {sequence : ℕ} {s' : RunStore}

theorem appendTranscriptRows_fresh {lease : RunLease} {occurredAt : Timestamp}
    {messages : List GatewayMessage} {index : ℕ}
    (hb : ∀ m ∈ rows, ∀ position, m.id = .transcript lease.executionEpoch position →
      position ≤ index) :
    ∃ new, appendTranscriptRows lease occurredAt index messages sequence rows = .ok (rows ++ new) ∧
      new.filterMap (·.transcriptIndex) = range' (index + 1) messages.length ∧
      ∀ m ∈ new, m.executionEpoch = lease.executionEpoch ∧ m.Placed := by
  induction messages generalizing index sequence rows with
  | nil => exact ⟨[], by rw [append_nil]; rfl, rfl, by simp⟩
  | cons message _ ih =>
    have hf : rows.find? (·.id = .transcript lease.executionEpoch (index + 1)) = none := by
      rw [find?_eq_none]
      intro m hm hid
      have hle := hb m hm (index + 1) (of_decide_eq_true hid)
      omega
    have hl : ∀ m ∈ rows ++ [journalRow lease occurredAt (index + 1) sequence message],
        ∀ position, m.id = .transcript lease.executionEpoch position → position ≤ index + 1 := by
      intro m hm position hid
      rcases mem_append.1 hm with hold | hnew
      · exact (hb m hold position hid).trans (Nat.le_succ _)
      · rw [mem_singleton.1 hnew] at hid
        cases hid
        exact le_refl _
    obtain ⟨new, hrun, hpos, hp⟩ := ih hl
    refine ⟨journalRow lease occurredAt (index + 1) sequence message :: new, ?_, ?_, ?_⟩
    · unfold appendTranscriptRows
      rw [hf]
      dsimp only
      rw [hrun, append_assoc, singleton_append]
    · rw [length_cons, range'_succ, ← hpos]
      rfl
    · refine forall_mem_cons.2 ⟨⟨rfl, ?_⟩, hp⟩
      intro epoch position hid
      cases hid
      exact ⟨rfl, rfl⟩

theorem RunStore.positions_append {new : List MessageRecord} (h : s'.messages = s.messages ++ new)
    (epoch : ℕ) : s'.positions epoch = s.positions epoch ++
      (new.filter (·.executionEpoch = epoch)).filterMap (·.transcriptIndex) := by
  unfold positions epochMessages
  rw [h, filter_append, filterMap_append]

theorem filter_range' {first n bound : ℕ} (h : first ≤ bound + 1) :
    (range' first n).filter (bound < ·) =
      range' (bound + 1) (first + n - (bound + 1)) := by
  -- the range up to the bound, and the range after it
  have hs : range' first n = range' first (min n (bound + 1 - first)) ++
      range' (bound + 1) (first + n - (bound + 1)) := by
    by_cases hsh : first + n ≤ bound + 1
    · rw [Nat.sub_eq_zero_of_le hsh, range'_zero, append_nil, min_eq_left (by omega)]
    · rw [min_eq_right (by omega)]
      have ha := @List.range'_append_1 first (bound + 1 - first) (first + n - (bound + 1))
      rw [Nat.add_sub_cancel' h] at ha
      rw [ha]
      congr 1
      omega
  rw [hs, filter_append, filter_eq_nil_iff.2, filter_eq_self.2, nil_append]
  · intro p hp
    rw [mem_range'_1] at hp
    exact decide_eq_true hp.1
  · intro p hp
    rw [mem_range'_1] at hp
    simp only [decide_eq_true_eq]
    omega

/-! ### Usable positions -/

def RunStore.Usable (s : RunStore) (epoch : ℕ) : Prop :=
  ∃ first n, s.positions epoch = List.range' first n ∧
    (n ≠ 0 → ∀ row ∈ s.checkpoints, row.checkpoint.executionEpoch = epoch →
      first ≤ row.checkpoint.messageSequence + 1)

def RunStore.Continues (s : RunStore) (epoch count : ℕ) : Prop :=
  ∃ first n, s.positions epoch = List.range' first n ∧ first + n = count + 1 ∧
    ∀ row ∈ s.checkpoints, row.checkpoint.executionEpoch = epoch →
      first ≤ row.checkpoint.messageSequence + 1

structure RunStore.PositionsKept (s s' : RunStore) : Prop where
  messages : s'.messages = s.messages
  checkpoints : ∀ row' ∈ s'.checkpoints, ∃ row ∈ s.checkpoints, row.checkpoint = row'.checkpoint

section Store

variable {s s' : RunStore} {lease : RunLease} {now : Timestamp} {epoch count : ℕ}

theorem RunStore.Continues.usable (h : s.Continues epoch count) : s.Usable epoch := by
  obtain ⟨first, n, hpos, -, hc⟩ := h
  exact ⟨first, n, hpos, fun _ => hc⟩

theorem RunStore.PositionsKept.refl (s : RunStore) : s.PositionsKept s :=
  ⟨rfl, fun row hrow => ⟨row, hrow, rfl⟩⟩

theorem RunStore.Managed.positionsKept (h : s.Managed s') : s.PositionsKept s' :=
  ⟨h.messages, fun row hrow => ⟨row, h.checkpoints ▸ hrow, rfl⟩⟩

theorem RunStore.PositionsKept.positions (h : s.PositionsKept s') (epoch : ℕ) :
    s'.positions epoch = s.positions epoch := by
  unfold RunStore.positions epochMessages
  rw [h.messages]

theorem RunStore.PositionsKept.usable (h : s.PositionsKept s') (hs : s.Usable epoch) :
    s'.Usable epoch := by
  obtain ⟨first, n, hpos, hc⟩ := hs
  refine ⟨first, n, (h.positions epoch).trans hpos, fun hn row' hrow' hep => ?_⟩
  obtain ⟨row, hrow, heq⟩ := h.checkpoints row' hrow'
  rw [← heq] at hep ⊢
  exact hc hn row hrow hep

theorem RunStore.PositionsKept.continues (h : s.PositionsKept s') (hs : s.Continues epoch count) :
    s'.Continues epoch count := by
  obtain ⟨first, n, hpos, hn, hc⟩ := hs
  refine ⟨first, n, (h.positions epoch).trans hpos, hn, fun row' hrow' hep => ?_⟩
  obtain ⟨row, hrow, heq⟩ := h.checkpoints row' hrow'
  rw [← heq] at hep ⊢
  exact hc row hrow hep

namespace RunStore.Continues

theorem before (h : s.Continues epoch count) {m : MessageRecord}
    (hm : m ∈ s.messages) (hp : m.Placed) {position : ℕ}
    (hid : m.id = .transcript epoch position) : position ≤ count := by
  obtain ⟨_, _, hpos, _, -⟩ := h
  have hmem := mem_positions hm hp hid
  rw [hpos, mem_range'_1] at hmem
  omega

theorem fresh (hp : ∀ m ∈ s.messages, m.Placed)
    (h : s.Continues lease.executionEpoch count) (messages : List GatewayMessage)
    (occurredAt : Timestamp) :
    ∃ new, appendTranscriptRows lease occurredAt count messages s.nextSequence s.messages =
        .ok (s.messages ++ new) ∧
      new.filterMap (·.transcriptIndex) = range' (count + 1) messages.length ∧
      ∀ m ∈ new, m.executionEpoch = lease.executionEpoch ∧ m.Placed :=
  appendTranscriptRows_fresh fun m hm _ hid => h.before hm (hp m hm) hid

theorem append {codec : StoreCodec} {messages : List GatewayMessage}
    {occurredAt : Timestamp} {u : Unit} (hp : ∀ m ∈ s.messages, m.Placed)
    (h : s.Continues lease.executionEpoch count)
    (ha : appendTranscriptFenced codec s lease now count messages occurredAt = .ok (u, s')) :
    s'.Continues lease.executionEpoch (count + messages.length) ∧
      (∀ m ∈ s'.messages, m.Placed) ∧ s'.run = s.run ∧
      ∀ epoch, epoch ≠ lease.executionEpoch → s.Usable epoch → s'.Usable epoch := by
  obtain ⟨new, hrow, hpos, hnew⟩ := h.fresh hp messages occurredAt
  have hs' : s' = { s with messages := s.messages ++ new } := by
    unfold appendTranscriptFenced at ha
    split at ha
    · cases ha
    split at ha
    · cases ha
    split at ha
    · cases ha
    rw [hrow] at ha
    cases ha
    rfl
  have hadd : s'.messages = s.messages ++ new := by rw [hs']
  have hc : s'.checkpoints = s.checkpoints := by rw [hs']
  refine ⟨?_, ?_, by rw [hs'], ?_⟩
  · obtain ⟨first, n, hr, hn, hre⟩ := h
    have hall : new.filter (·.executionEpoch = lease.executionEpoch) = new :=
      filter_eq_self.2 fun m hm => decide_eq_true (hnew m hm).1
    refine ⟨first, n + messages.length, ?_, by omega, by rw [hc]; exact hre⟩
    rw [positions_append hadd, hr, hall, hpos, ← hn, range'_append_1]
  · rw [hadd]
    intro m hm
    rcases mem_append.1 hm with hold | hm
    · exact hp m hold
    · exact (hnew m hm).2
  · rintro epoch hne ⟨first, n, hr, hre⟩
    have hno : new.filter (·.executionEpoch = epoch) = [] := by
      rw [filter_eq_nil_iff]
      intro m hm heq
      exact hne ((of_decide_eq_true heq).symm.trans (hnew m hm).1)
    refine ⟨first, n, ?_, by rw [hc]; exact hre⟩
    rw [positions_append hadd, hno, hr, filterMap_nil, append_nil]

theorem create {c returned : Checkpoint}
    (h : s.Continues lease.executionEpoch count) (hc : count ≤ c.messageSequence)
    (hcr : createCheckpointFenced s lease now c = .ok (returned, s')) :
    s'.Continues lease.executionEpoch count ∧ s'.messages = s.messages ∧ s'.run = s.run ∧
      ∀ epoch, epoch ≠ lease.executionEpoch → s.Usable epoch → s'.Usable epoch := by
  obtain ⟨-, hep, ⟨-, rfl⟩ | ⟨-, -, rfl⟩⟩ := createCheckpointFenced_inv hcr
  · exact ⟨h, rfl, rfl, fun _ _ => id⟩
  refine ⟨?_, rfl, rfl, ?_⟩
  · obtain ⟨first, n, hr, hnx, hre⟩ := h
    refine ⟨first, n, hr, hnx, fun row hrow hro => ?_⟩
    rcases mem_append.1 hrow with hold | hnew
    · exact hre row hold hro
    · rw [mem_singleton.1 hnew]
      dsimp only
      omega
  · rintro epoch hne ⟨first, n, hr, hre⟩
    refine ⟨first, n, hr, fun hn row hrow hro => ?_⟩
    rcases mem_append.1 hrow with hold | hnew
    · exact hre hn row hold hro
    · rw [mem_singleton.1 hnew] at hro
      exact absurd (hro.symm.trans hep) hne

end RunStore.Continues

end Store

/-! ### Rewinds -/

def RunStore.RewindComplete (s : RunStore) (id : Uuid) : Prop :=
  ∀ record ∈ s.checkpoint? id, ∀ m ∈ s.messages,
    m.executionEpoch = record.checkpoint.executionEpoch →
    ∀ position ∈ m.transcriptIndex, position ≤ record.checkpoint.messageSequence →
      m.createdAt ≤ record.checkpoint.createdAt

theorem retainedRows_positions {c : Checkpoint} {kept : List MessageRecord} {seen : List ℕ}
    (h : retainedRows c seen rows = .ok kept) : kept.filterMap (·.transcriptIndex) =
      (rows.filterMap (·.transcriptIndex)).filter (· ≤ c.messageSequence) := by
  rw [retainedRows_eq_filter h, filterMap_filter, filter_filterMap]
  congr 1
  funext m
  cases m.transcriptIndex <;> simp [Option.filter]

theorem rewoundCopies_positions
    : (rewoundCopies epoch now sequence rows).filterMap (·.transcriptIndex) =
      rows.filterMap (·.transcriptIndex) := by
  induction rows generalizing sequence with
  | nil => rfl
  | cons _ _ ih => simp only [rewoundCopies, filterMap_cons, ih]

theorem rewoundCopies_placed {m : MessageRecord} (hm : m ∈ rewoundCopies epoch now sequence rows) :
    m.executionEpoch = epoch ∧ m.Placed := by
  induction rows generalizing sequence with
  | nil => exact absurd hm not_mem_nil
  | cons _ _ ih =>
    unfold rewoundCopies at hm
    rcases mem_cons.1 hm with rfl | hm
    · refine ⟨rfl, ?_⟩
      intro _ _ hid
      cases hid
    · exact ih hm

theorem rewind_messages {id : Uuid} {run : Run} (h : rewind s id now = .ok (some run, s')) :
    ∃ record retained, s.checkpoint? id = some record ∧
      retainedRows record.checkpoint [] (rewindRows s record.checkpoint) = .ok retained ∧
      s'.messages = s.messages ++
        rewoundCopies (s.run.executionEpoch + 1) now s.nextSequence retained ∧
      s'.checkpoints = s.checkpoints ∧ s'.run.executionEpoch = s.run.executionEpoch + 1 ∧
      s'.run.leaseGeneration = s.run.leaseGeneration := by
  obtain ⟨hn, -⟩ | ⟨record, retained, _, -, hrec, hrun, hk, rfl⟩ := rewind_ok h
  · cases hn
  · obtain ⟨-, rfl⟩ := rewindRun_eq hrun
    exact ⟨record, retained, hrec, hk, rfl, rfl, rfl, rfl⟩

theorem filter_range'_le {first n bound : ℕ} :
    ∃ k, (range' first n).filter (· ≤ bound) = range' first k := by
  induction n generalizing first with
  | zero => exact ⟨0, rfl⟩
  | succ n ih =>
    rw [range'_succ, filter_cons]
    by_cases hle : first ≤ bound
    · obtain ⟨k, hk⟩ := @ih (first + 1)
      exact ⟨k + 1, by rw [if_pos (decide_eq_true hle), hk, range'_succ]⟩
    · refine ⟨0, ?_⟩
      rw [if_neg (by simpa using hle), range'_zero, filter_eq_nil_iff]
      intro p hp
      rw [mem_range'_1] at hp
      simp only [decide_eq_true_eq]
      omega

theorem rewindRows_positions {c : Checkpoint}
    (h : ∀ m ∈ s.messages, m.executionEpoch = c.executionEpoch → ∀ position ∈ m.transcriptIndex,
      position ≤ c.messageSequence → m.createdAt ≤ c.createdAt) :
    ((rewindRows s c).filterMap (·.transcriptIndex)).filter (· ≤ c.messageSequence) =
      (s.positions c.executionEpoch).filter (· ≤ c.messageSequence) := by
  unfold rewindRows positions epochMessages
  generalize s.messages = rows at h ⊢
  induction rows with
  | nil => rfl
  | cons m _ ih =>
    have hr := ih fun m' hm' => h m' (mem_cons_of_mem _ hm')
    by_cases hep : m.executionEpoch = c.executionEpoch
    · by_cases ht : m.createdAt ≤ c.createdAt
      · rw [filter_cons_of_pos (by simp [hep, ht]),
          filter_cons_of_pos (by simp [hep]), filterMap_cons, filterMap_cons]
        cases m.transcriptIndex with
        | none => exact hr
        | some =>
          dsimp only
          rw [filter_cons, filter_cons, hr]
      · rw [filter_cons_of_neg (by simp [ht]),
          filter_cons_of_pos (by simp [hep]), filterMap_cons]
        cases hind : m.transcriptIndex with
        | none => exact hr
        | some position =>
          dsimp only
          rw [filter_cons_of_neg, hr]
          simp only [decide_eq_true_eq]
          exact fun hle => ht (h m mem_cons_self hep position hind hle)
    · rw [filter_cons_of_neg (by simp [hep]), filter_cons_of_neg (by simp [hep])]
      exact hr

theorem rewind_usable {id : Uuid} {run : Run} (hs : s.WellFormed)
    (hu : ∀ epoch, s.Usable epoch) (hc : s.RewindComplete id)
    (h : rewind s id now = .ok (some run, s')) (epoch : ℕ) : s'.Usable epoch := by
  obtain ⟨record, retained, hrec, hr, hms, hch, -⟩ := rewind_messages h
  by_cases hep : epoch = s.run.executionEpoch + 1
  · have hall : (rewoundCopies (s.run.executionEpoch + 1) now s.nextSequence retained).filter
        (·.executionEpoch = epoch) =
        rewoundCopies (s.run.executionEpoch + 1) now s.nextSequence retained :=
      filter_eq_self.2 fun m hm =>
        decide_eq_true ((rewoundCopies_placed hm).1.trans hep.symm)
    have hn : s.positions epoch = [] := by
      unfold positions epochMessages
      rw [filter_eq_nil_iff.2, filterMap_nil]
      intro m hm heq
      have hle := hs.messageEpochs m hm
      rw [of_decide_eq_true heq] at hle
      omega
    obtain ⟨first, n, hra, -⟩ := hu record.checkpoint.executionEpoch
    obtain ⟨k, hk⟩ := @filter_range'_le first n record.checkpoint.messageSequence
    refine ⟨first, k, ?_, fun _ row hrow hro => ?_⟩
    · rw [positions_append hms, hn, nil_append, hall,
        rewoundCopies_positions, retainedRows_positions hr,
        rewindRows_positions (hc record hrec), hra, hk]
    · rw [hch] at hrow
      have hle := hs.checkpointEpochs row hrow
      omega
  · obtain ⟨first, n, hra, hre⟩ := hu epoch
    have hn : (rewoundCopies (s.run.executionEpoch + 1) now s.nextSequence retained).filter
        (·.executionEpoch = epoch) = [] := by
      rw [filter_eq_nil_iff]
      intro m hm heq
      exact hep ((of_decide_eq_true heq).symm.trans (rewoundCopies_placed hm).1)
    refine ⟨first, n, ?_, by rw [hch]; exact hre⟩
    rw [positions_append hms, hn, hra, filterMap_nil, append_nil]

/-! ### Histories -/

def RunStore.ContextFits (s : RunStore) (epoch length : ℕ) : Prop :=
  (∀ last ∈ (s.positions epoch).getLast?, length = last) ∧
    (s.positions epoch = [] → ∀ row ∈ s.checkpoints, row.checkpoint.executionEpoch = epoch →
      length ≤ row.checkpoint.messageSequence)

instance (s : RunStore) (epoch length : ℕ) : Decidable (s.ContextFits epoch length) :=
  inferInstanceAs (Decidable ((∀ last ∈ (s.positions epoch).getLast?, _) ∧
    (_ → ∀ row ∈ s.checkpoints, _ → _)))

instance (s : RunStore) (id : Uuid) : Decidable (s.RewindComplete id) :=
  inferInstanceAs (Decidable (∀ record ∈ s.checkpoint? id, ∀ m ∈ s.messages, _ →
    ∀ position ∈ m.transcriptIndex, _ → _))

def KeepsPositions (w : World) : SystemOp → Prop
  | .load g _ codec context now => ∀ a ∈ w.attempts g,
      ∀ r ∈ (load codec w.store a.lease now).toOption,
        w.store.ContextFits a.lease.executionEpoch (loopInput a.lease r context).messages.length
  | .rewind id _ => w.store.RewindComplete id
  | _ => True

instance (w : World) : ∀ op : SystemOp, Decidable (KeepsPositions w op)
  | .load g _ codec _ now => inferInstanceAs (Decidable (∀ a ∈ w.attempts g,
      ∀ r ∈ (load codec w.store a.lease now).toOption, w.store.ContextFits _ _))
  | .rewind id _ => inferInstanceAs (Decidable (w.store.RewindComplete id))
  | .claim .. | .start .. | .heartbeat .. | .work .. | .interrupt .. | .finish ..
  | .recoverExpired .. | .requestCancel .. | .decide .. => isTrue trivial

def World.journalConflict (w : World) (g : ℕ) (now : Timestamp) : Bool :=
  (w.attempts g).any fun a =>
    match a.phase with
    | .running (.journal startIndex messages occurredAt :: _) _ =>
      w.store.leaseActive a.lease now &&
        !(appendTranscriptRows a.lease occurredAt startIndex messages w.store.nextSequence
          w.store.messages).isOk
    | _ => false

/-- **The property**: the owner can journal its next messages, and the positions of every epoch are
a range. -/
structure World.PositionsUsable (w : World) : Prop where
  accepted : ∀ g now, w.journalConflict g now = false
  contiguous : ∀ epoch, ∃ first n, w.store.positions epoch = List.range' first n
  expected : ∀ row ∈ w.store.checkpoints, ∃ n,
    (w.store.positions row.checkpoint.executionEpoch).filter
        (row.checkpoint.messageSequence < ·) = List.range' (row.checkpoint.messageSequence + 1) n

structure World.Positioned (w : World) : Prop where
  wellFormed : w.store.WellFormed
  leased : w.Leased
  epochs : ∀ g a, w.attempts g = some a → a.lease.executionEpoch ≤ w.store.run.executionEpoch
  placed : ∀ m ∈ w.store.messages, m.Placed
  usable : ∀ epoch, w.store.Usable epoch
  journals : ∀ g a rest x, w.attempts g = some a → a.phase = .running rest x →
    g = w.store.run.leaseGeneration → a.lease.executionEpoch = w.store.run.executionEpoch →
    ∃ count, JournalsFrom count rest ∧ w.store.Continues a.lease.executionEpoch count

theorem RunStore.ContextFits.continues {length : ℕ} (h : s.ContextFits epoch length)
    (hs : s.Usable epoch) : s.Continues epoch length := by
  obtain ⟨first, n, hr, hre⟩ := hs
  cases n with
  | zero =>
    have hn : s.positions epoch = [] := hr
    refine ⟨length + 1, 0, hn, rfl, fun row hrow hep => ?_⟩
    have hle := h.2 hn row hrow hep
    omega
  | succ n =>
    have hl : length = first + n := by
      refine h.1 (first + n) ?_
      rw [hr, range'_1_concat]
      simp
    exact ⟨first, n + 1, hr, by omega, hre (by omega)⟩

theorem World.Positioned.positionsUsable {w : World} (h : w.Positioned) : w.PositionsUsable where
  accepted := by
    intro g now
    rw [eq_false_iff]
    intro hc
    obtain ⟨a, ha, hc⟩ := (Option.any_eq_true _ _).1 hc
    split at hc
    next startIndex messages occurredAt rest x hph =>
      obtain ⟨hac, hr⟩ := Bool.and_eq_true_iff.1 hc
      have hg := (h.leased g a ha).1
      obtain ⟨count, hj, hco⟩ := h.journals g a _ x ha hph
        (hg ▸ (leaseActive_generation hac).symm)
        (leaseActive_epoch hac).symm
      obtain rfl : startIndex = count := hj.1
      obtain ⟨_, hrw, -⟩ := hco.fresh h.placed messages occurredAt
      rw [hrw] at hr
      cases hr
    · cases hc
  contiguous := by
    intro epoch
    obtain ⟨first, n, hra, -⟩ := h.usable epoch
    exact ⟨first, n, hra⟩
  expected := by
    intro row hrow
    obtain ⟨first, n, hra, hre⟩ := h.usable row.checkpoint.executionEpoch
    rw [hra]
    cases n with
    | zero => exact ⟨0, rfl⟩
    | succ => exact ⟨_, filter_range' (hre (by omega) row hrow rfl)⟩

section Apply

variable {w w' : World}

variable {a : Attempt} {g₁ : ℕ}

variable {s' : RunStore} {p : Performed}

namespace World.Positioned

theorem still (h : w.Positioned) {g : ℕ} {rest : List LoopStep} {x : Executor}
    (hge : w.store.run.leaseGeneration ≤ s'.run.leaseGeneration)
    (hep : s'.run.executionEpoch = w.store.run.executionEpoch) (ha : w.attempts g = some a)
    (hph : a.phase = .running rest x) (hg : g = s'.run.leaseGeneration)
    (ha' : a.lease.executionEpoch = s'.run.executionEpoch) :
    ∃ count, JournalsFrom count rest ∧ w.store.Continues a.lease.executionEpoch count :=
  h.journals g a rest x ha hph (le_antisymm (h.leased g a ha).2 (hg ▸ hge)) (ha'.trans hep)

theorem keep (h : w.Positioned) (hwf : w'.store.WellFormed) (hl : w'.Leased)
    (hk : w.store.PositionsKept w'.store) (he : ∀ g a, w'.attempts g = some a →
      a.lease.executionEpoch ≤ w'.store.run.executionEpoch)
    (hrun : ∀ g a rest x, w'.attempts g = some a → a.phase = .running rest x →
      g = w'.store.run.leaseGeneration → a.lease.executionEpoch = w'.store.run.executionEpoch →
      ∃ count, JournalsFrom count rest ∧ w.store.Continues a.lease.executionEpoch count) :
    w'.Positioned where
  wellFormed := hwf
  leased := hl
  epochs := he
  placed := by
    rw [hk.messages]
    exact h.placed
  usable := fun epoch => hk.usable (h.usable epoch)
  journals := by
    intro g a rest x ha hph hg hep
    obtain ⟨count, hj, hc⟩ := hrun g a rest x ha hph hg hep
    exact ⟨count, hj, hk.continues hc⟩

theorem stop (h : w.Positioned) {a₁ : Attempt} (hwf : s'.WellFormed)
    (hl : (({ w with store := s' }).setAttempt g₁ a₁).Leased)
    (hk : w.store.PositionsKept s') (hge : w.store.run.leaseGeneration ≤ s'.run.leaseGeneration)
    (hep : s'.run.executionEpoch = w.store.run.executionEpoch) (hs : a₁.phase.Stopped)
    (hls : a₁.lease.executionEpoch ≤ w.store.run.executionEpoch) :
    (({ w with store := s' }).setAttempt g₁ a₁).Positioned := by
  refine h.keep hwf hl hk (fun g a ha => ?_) (fun g a rest x ha hph hg ha' => ?_)
  · obtain ⟨-, rfl⟩ | ⟨-, hold⟩ := setAttempt_attempts.1 ha
    · exact hls.trans hep.ge
    · exact (h.epochs g a hold).trans hep.ge
  · obtain ⟨-, rfl⟩ | ⟨-, hold⟩ := setAttempt_attempts.1 ha
    · exact absurd hph (hs _ _)
    · exact h.still hge hep hold hph hg ha'

theorem own (h : w.Positioned) {count : ℕ} {a₁ : Attempt}
    (ha : w.attempts g₁ = some a) (hls : a₁.lease = a.lease) (hwf : s'.WellFormed)
    (hl : (({ w with store := s' }).setAttempt g₁ a₁).Leased) (hrun : s'.run = w.store.run)
    (hge : w.store.run.leaseGeneration = a.lease.generation) (hp : ∀ m ∈ s'.messages, m.Placed)
    (ho : ∀ epoch, epoch ≠ a.lease.executionEpoch → w.store.Usable epoch → s'.Usable epoch)
    (hc : s'.Continues a.lease.executionEpoch count)
    (hj : ∀ rest x, a₁.phase = .running rest x → JournalsFrom count rest) :
    (({ w with store := s' }).setAttempt g₁ a₁).Positioned where
  wellFormed := hwf
  leased := hl
  epochs := by
    intro g a' ha'
    change a'.lease.executionEpoch ≤ s'.run.executionEpoch
    rw [hrun]
    obtain ⟨-, rfl⟩ | ⟨-, hold⟩ := setAttempt_attempts.1 ha'
    · rw [hls]
      exact h.epochs g₁ a ha
    · exact h.epochs g a' hold
  placed := hp
  usable := by
    intro epoch
    by_cases heq : epoch = a.lease.executionEpoch
    · rw [heq]
      exact hc.usable
    · exact ho epoch heq (h.usable epoch)
  journals := by
    intro g a' rest x ha' hph hg hep
    obtain ⟨-, rfl⟩ | ⟨hne, -⟩ := setAttempt_attempts.1 ha'
    · rw [hls]
      exact ⟨count, hj rest x hph, hc⟩
    · have hnew : g = w.store.run.leaseGeneration := by rw [← hrun]; exact hg
      exact absurd (hnew.trans (hge.trans (h.leased g₁ a ha).1)) hne

theorem advance (h : w.Positioned) (ha : w.attempts g₁ = some a)
    (hwf : p.store.WellFormed) (hl : (({ w with store := p.store }).setAttempt g₁
      { a with phase := p.phase, workspace := p.workspace }).Leased)
    (hk : w.store.PositionsKept p.store) (hrun : p.store.run = w.store.run)
    (hn : ∀ rest x, p.phase = .running rest x → ∃ steps x', a.phase = .running steps x' ∧
      ∀ count, JournalsFrom count steps → JournalsFrom count rest) :
    (({ w with store := p.store }).setAttempt g₁
      { a with phase := p.phase, workspace := p.workspace }).Positioned := by
  refine h.keep hwf hl hk (fun g a' ha' => ?_) (fun g a' rest x ha' hph hg hep => ?_)
  · change a'.lease.executionEpoch ≤ p.store.run.executionEpoch
    rw [hrun]
    obtain ⟨rfl, rfl⟩ | ⟨-, hold⟩ := setAttempt_attempts.1 ha'
    · exact h.epochs g a ha
    · exact h.epochs g a' hold
  · change g = p.store.run.leaseGeneration at hg
    change a'.lease.executionEpoch = p.store.run.executionEpoch at hep
    rw [hrun] at hg hep
    obtain ⟨rfl, rfl⟩ | ⟨-, hold⟩ := setAttempt_attempts.1 ha'
    · obtain ⟨steps, x', hb, hr⟩ := hn rest x hph
      obtain ⟨count, hj, hc⟩ := h.journals g a steps x' ha hb hg hep
      exact ⟨count, hr count hj, hc⟩
    · exact h.journals g a' rest x hold hph hg hep

theorem perform (h : w.Positioned) {x : Executor} {codec : StoreCodec}
    {now : Timestamp} {step : LoopStep} {rest : List LoopStep} (ha : w.attempts g₁ = some a)
    (hph : a.phase = .running (step :: rest) x)
    (hp : Performs a.argumentHash codec a.lease now w.store a.workspace x rest step p)
    (hwf : p.store.WellFormed) (hl : (({ w with store := p.store }).setAttempt g₁
      { a with phase := p.phase, workspace := p.workspace }).Leased) :
    (({ w with store := p.store }).setAttempt g₁
      { a with phase := p.phase, workspace := p.workspace }).Positioned := by
  have hn : (∀ count, journaledAfter count step = count) → ∀ rest' x',
      p.phase = .running rest' x' → ∃ steps x₀, a.phase = .running steps x₀ ∧
        ∀ count, JournalsFrom count steps → JournalsFrom count rest' := by
    intro hs rest' x' hr
    obtain ⟨-, rfl⟩ := hp.running hr
    refine ⟨_, x, hph, fun count hj => ?_⟩
    have hre := hj.2
    rw [hs] at hre
    exact hre
  cases hp with
  | refused _ _ halted =>
    exact h.advance ha hwf hl (.refl _) rfl fun _ _ hr =>
      absurd hr (halted.stopped _ _)
  | noted =>
    exact h.advance ha hwf hl (.refl _) rfl (hn fun _ => rfl)
  | saved _ _ _ _ _ save =>
    obtain ⟨-, -, row, -, rfl⟩ := saveToolCallFenced_inv save
    exact h.advance ha hwf hl ⟨rfl, fun row hrow => ⟨row, hrow, rfl⟩⟩ rfl
      (hn fun _ => rfl)
  | journaled startIndex _ _ _ _ append =>
    have hac := (appendTranscriptFenced_inv append).1
    have hg := leaseActive_generation hac
    obtain ⟨count, hj, hc⟩ := h.journals g₁ a _ x ha hph
      (hg ▸ (h.leased g₁ a ha).1.symm) (leaseActive_epoch hac).symm
    obtain rfl : startIndex = count := hj.1
    obtain ⟨hcn, hpl, hrun, ho⟩ := hc.append h.placed append
    refine h.own ha rfl hwf hl hrun hg hpl ho hcn ?_
    intro rest' x' hr
    cases hr
    exact hj.2
  | observed step observation =>
    refine h.advance ha hwf hl (.refl _) rfl (hn fun _ => ?_)
    cases step with
    | journal => cases observation
    | _ => rfl
  | created c _ _ create =>
    have hac := (createCheckpointFenced_inv create).1
    have hg := leaseActive_generation hac
    obtain ⟨count, hj, hc⟩ := h.journals g₁ a _ x ha hph
      (hg ▸ (h.leased g₁ a ha).1.symm) (leaseActive_epoch hac).symm
    have hco : count ≤ (c.toCheckpoint a.lease a.workspace).messageSequence := hj.1
    obtain ⟨hcn, hms, hrun, ho⟩ := hc.create hco create
    refine h.own ha rfl hwf hl hrun hg (hms ▸ h.placed) ho hcn ?_
    intro rest' x' hr
    cases hr
    exact hj.2
  | completed _ _ _ _ _ complete =>
    obtain ⟨-, row, hrow, -, rfl⟩ := completeCheckpointFenced_inv complete
    refine h.advance ha hwf hl ⟨rfl, fun row' hrow' => ?_⟩ rfl (hn fun _ => rfl)
    rcases mem_of_mem_upsert hrow' with rfl | hold
    · exact ⟨row, (lookup_some hrow).1, rfl⟩
    · exact ⟨row', hold, rfl⟩
  | _ => exact h.advance ha hwf hl (.refl _) rfl (hn fun _ => rfl)

theorem work (h : w.Positioned) {codec : StoreCodec} {now : Timestamp}
    {step? : Option LoopStep} (ha : w.attempts g₁ = some a)
    (hw : Works a codec now w.store (p, step?)) (hwf : p.store.WellFormed)
    (hl : (({ w with store := p.store }).setAttempt g₁
      { a with phase := p.phase, workspace := p.workspace }).Leased) :
    (({ w with store := p.store }).setAttempt g₁
      { a with phase := p.phase, workspace := p.workspace }).Positioned := by
  have hep := h.epochs g₁ a ha
  cases hw with
  | resting stopped => exact h.stop hwf hl (.refl _) le_rfl rfl stopped hep
  | refused _ halted => exact h.stop hwf hl (.refl _) le_rfl rfl halted.stopped hep
  | exhausted =>
    exact h.stop hwf hl (.refl _) le_rfl rfl (by intro _ _; simp) hep
  | approval steps x _ _ s' phase _ create =>
    have hk : w.store.PositionsKept s' ∧ s'.run = w.store.run := by
      obtain ⟨-, -, -, ⟨-, rfl⟩ | ⟨-, -, rfl⟩⟩ := createApprovalFenced_inv create
      · exact ⟨.refl _, rfl⟩
      · exact ⟨⟨rfl, fun row hrow => ⟨row, hrow, rfl⟩⟩, rfl⟩
    refine h.advance ha hwf hl hk.1 hk.2 fun rest x' hrun => ?_
    cases hrun
    exact ⟨steps, x, phase, fun _ => id⟩
  | step _ _ _ _ phase _ performs => exact h.perform ha phase performs hwf hl

theorem apply (h : w.Positioned) {op : SystemOp} (hop : KeepsPositions w op) :
    (w.apply op).Positioned := by
  have hmv := w.apply_moves op
  have hwf := h.wellFormed.of_committed (w.apply_committed op)
  have hl := h.leased.apply h.wellFormed op
  generalize w.apply op = w' at hmv hwf hl
  cases hmv with
  | idle => exact h
  | managed _ _ tables generation =>
    refine h.keep hwf hl tables.positionsKept (fun g a ha => ?_)
      (fun g a rest x ha hph hg hep => ?_)
    · exact (h.epochs g a ha).trans tables.executionEpoch.ge
    · exact h.still generation.ge tables.executionEpoch ha hph hg hep
  | claimed _ _ _ tables _ _ _ epoch =>
    exact h.stop hwf hl tables.positionsKept (by omega) tables.executionEpoch
      (by intro _ _; simp) epoch.le
  | started _ _ _ _ _ _ _ tables generation _ _ epoch _ next =>
    refine h.stop hwf hl tables.positionsKept generation.ge tables.executionEpoch ?_ epoch.le
    rcases next with rfl | rfl <;> (intro _ _; simp)
  | halted _ g a _ attempt halted =>
    exact h.stop hwf hl (.refl _) le_rfl rfl halted.stopped (h.epochs g a attempt)
  | finished _ g a _ _ attempt _ tables generation =>
    exact h.stop hwf hl tables.positionsKept generation.ge tables.executionEpoch
      AttemptPhase.halted_ended.stopped (h.epochs g a attempt)
  | unrecovered g a _ _ _ _ f attempt =>
    have hs : (w.setAttempt g { a with phase := raisedPhase f }).Positioned :=
      h.stop hwf hl (.refl _) le_rfl rfl raisedPhase_halted.stopped (h.epochs g a attempt)
    exact ⟨hs.wellFormed, hs.leased, hs.epochs, hs.placed, hs.usable, hs.journals⟩
  | recovered g a env _ _ _ r attempt load =>
    have hfit := hop a attempt r (by rw [load]; rfl)
    refine h.keep hwf hl (.refl _) (fun g' a' ha' => ?_)
      (fun g' a' rest x ha' hph hg hep => ?_)
    · obtain ⟨-, rfl⟩ | ⟨-, hold⟩ := setAttempt_attempts.1 ha'
      · exact h.epochs g a attempt
      · exact h.epochs g' a' hold
    · obtain ⟨-, rfl⟩ | ⟨-, hold⟩ := setAttempt_attempts.1 ha'
      · cases hph
        exact ⟨_, run_journalsFrom env _, hfit.continues (h.usable _)⟩
      · exact h.journals g' a' rest x hold hph hg hep
  | worked _ _ _ _ _ _ attempt works =>
    have hw := h.work attempt works hwf hl
    exact ⟨hw.wellFormed, hw.leased, hw.epochs, hw.placed, hw.usable, hw.journals⟩
  | rewound _ _ run s' _ rewind =>
    obtain ⟨_, _, -, -, hms, -, hep, -⟩ := rewind_messages rewind
    refine ⟨hwf, hl, fun g a ha => ?_, ?_, rewind_usable h.wellFormed h.usable hop rewind,
      fun g a rest x ha hph hg ha' => ?_⟩
    · exact (h.epochs g a ha).trans (hep ▸ Nat.le_succ _)
    · change ∀ m ∈ s'.messages, m.Placed
      rw [hms]
      intro m hm
      rcases mem_append.1 hm with hold | hc
      · exact h.placed m hold
      · exact (rewoundCopies_placed hc).2
    · have hle := h.epochs g a ha
      change a.lease.executionEpoch = s'.run.executionEpoch at ha'
      omega

end World.Positioned

end Apply

theorem World.Positioned.submitted (x : Submission) : (submitted x).Positioned where
  wellFormed := .submit x
  leased := fun _ _ ha => nomatch ha
  epochs := fun _ _ ha => nomatch ha
  placed := by
    intro m hm epoch position hid
    rw [mem_singleton.1 hm] at hid
    cases hid
  usable := by
    intro epoch
    refine ⟨0, 0, ?_, fun hn => absurd rfl hn⟩
    refine filterMap_eq_nil_iff.2 fun m hm => ?_
    rw [mem_singleton.1 (mem_filter.1 hm).1]
  journals := fun _ _ _ _ ha => nomatch ha

/-- **Positions stay usable across attempts**. -/
theorem transcript_positions_usable (x : Submission) (ops : List SystemOp)
    (hops : Admissible World.apply KeepsPositions (submitted x) ops) :
    (ops.foldl World.apply (submitted x)).PositionsUsable :=
  (hops.invariant World.Positioned (fun _ _ h hop => h.apply hop)
    (World.Positioned.submitted x)).positionsUsable

/-! ### Contexts that fit and contexts that do not -/

def proposalEnv (callId : String) : LoopEnv :=
  scriptedEnv 10 (fun name => if name = "list_files" then some .readOnly else none)
    [proposing [{ id := callId, name := "list_files", arguments := .nil }]]
    (fun _ => { items := [.completed .nil] })

def promptMessage (text : String) : GatewayMessage := { role := .system, content := .text text }

def taskMessage : GatewayMessage := { role := .user, content := .text "task" }

def firstTurn : List GatewayMessage :=
  [assistantMessage "" [{ id := "call-1", name := "list_files", arguments := .nil }],
    toolMessage "call-1" (some .nil) none]

def takenOverWith (context : List GatewayMessage) (count : ℕ) : List SystemOp :=
  [.claim "worker" 101 5 100, .start 1 5, .load 1 (proposalEnv "call-1") scriptedRecovery
      (some { messages := [promptMessage "prompt", taskMessage] }) 5] ++ workOps 1 13 6 ++
  [.recoverExpired 101, .claim "worker" 102 102 200, .start 2 102,
    .load 2 (proposalEnv "call-2") scriptedRecovery (some { messages := context }) 102] ++
  workOps 2 count 103

theorem transcript_positions_usable_fitting :
    Admissible World.apply KeepsPositions (submitted (scriptedSubmission .autoApprove))
        (takenOverWith (promptMessage "prompt" :: taskMessage :: firstTurn) 7) ∧
      ((takenOverWith (promptMessage "prompt" :: taskMessage :: firstTurn) 7).foldl World.apply
        (submitted (scriptedSubmission .autoApprove))).PositionsUsable :=
  have hops : Admissible World.apply KeepsPositions (submitted (scriptedSubmission .autoApprove))
      (takenOverWith (promptMessage "prompt" :: taskMessage :: firstTurn) 7) := by
    decide +kernel
  ⟨hops, transcript_positions_usable _ _ hops⟩

theorem transcript_positions_conflict : ¬ ∀ (x : Submission) (ops : List SystemOp),
      (ops.foldl World.apply (submitted x)).PositionsUsable := by
  intro h
  have husable := h (scriptedSubmission .autoApprove)
    (takenOverWith [promptMessage "prompt", taskMessage] 6)
  have haccepted := husable.accepted 2 103
  revert haccepted
  decide

end AgentPlatform
