/-
**Which runs a conversation is made of.**

The runs of a session share one message sequence, and `list_messages` does not ask which run a row
belongs to. A build that finds no rows and has no summary falls back on the recovered messages of
its run, which `PostgresRecoveryStore._messages` reads from the same sequence.

Main definitions:
- `isolatedRows`: no row of a later run, and none of another run inside a turn of the run.
- `LoadedContext.conversationRows`: the rows a conversation was made of, with their runs.
- `ContextSession.onlyNewest`: once a run is submitted, the earlier ones stay as they are.

Main results:
- `load_messages_recovered`: recovered messages are those of the rows up to the run's last one.
- `conversation_isolated`: the conversation of every build of such a history is isolated.
-/

import AgentPlatform.ContextSteps

namespace AgentPlatform

open History List

def SessionMessage.answeredBy (m result : SessionMessage) : Prop :=
  result.row.message.role = .tool ∧ m.row.message.announces result.row.message.toolCallId = true

def isolatedRows (run : ℕ) (rows : List SessionMessage) : Prop :=
  (∀ m ∈ rows, m.run ≤ run) ∧
    ∀ call m result, [call, m, result].Sublist rows → call.run = run → result.run = run →
      call.answeredBy result → m.run = run

/-- The rows a conversation is made of: the slice, or what the recovery read. -/
def LoadedContext.conversationRows (c : LoadedContext) (b : ContextBuild) : List SessionMessage :=
  if c.rows = [] ∧ b.previousSummary c.latest = none then b.recovered else c.rows

/-- The recovered messages were read from the table, not from a checkpoint of the epoch. -/
def ContextBuild.fromRows (b : ContextBuild) : Bool :=
  b.recovery.checkpoint.all (·.executionEpoch ≠ b.lease.executionEpoch)

namespace ContextSession

variable {s s' : ContextSession}

def Isolated (s : ContextSession) : Prop :=
  ∀ id b c, s.builds id = some b → b.stage.context = some c →
    c.request.conversation = (c.conversationRows b).map (·.row.message) ∧
      isolatedRows b.run (c.conversationRows b)

def onlyNewest (s : ContextSession) : SessionOp → Bool
  | .transact run op => !op.journals || run + 1 = s.runs.length
  | .advance id env =>
    (s.builds id).all fun b =>
      match b.stage with
      | .scheduled latest pending =>
        b.run + 1 = s.runs.length && (b.fromRows || (b.previousSummary latest).isSome ||
          match s.listMessages (latest.map (·.sourceMessageSequence))
            (pending.map (·.sourceMessageSequence)) env.messageLimit with
          | .ok [] => false
          | _ => true)
      | _ => true
  | _ => true

/-! ### The recovered messages -/

theorem visible_perm (s : ContextSession) (run : ℕ) :
    ((s.visible.filter (·.run = run)) ++ s.visible.filter (·.run ≠ run)).Perm s.visible := by
  have hneg : (fun m : SessionMessage => decide (m.run ≠ run)) = fun m => !decide (m.run = run) :=
    funext fun m => by simp
  rw [hneg]
  exact filter_append_perm _ _

theorem visible_own {run : ℕ} {store : RunStore} (hs : s.runs[run]? = some store) :
    ((s.visible.filter (·.run = run)).map (·.row)) =
      (s.rowsOf run).filter (·.executionEpoch = store.run.executionEpoch) := by
  unfold visible rowsOf
  rw [filter_map, filter_filter, filter_filter]
  refine congrArg (List.map _) (filter_congr fun m _ => ?_)
  by_cases hrun : m.run = run
  · simp [onBranch, hrun, hs, eq_comm]
  · simp [hrun]

/-- What `_messages` returns, in the order of the sequence. -/
theorem branchRows_eq_recoveredRows (hw : s.WellFormed) {codec : RecoveryCodec} {run : ℕ}
    {store : RunStore} (hs : s.runs[run]? = some store) (lease : RunLease) :
    branchRows (s.inSession codec run).session (s.storeOf run store) lease none =
      (s.recoveredRows run store lease).map (·.row) := by
  have hplaced : (s.inSession codec run).session.placed = id := rfl
  have hplace : (fun m : MessageRecord => (s.inSession codec run).session.place m.sequence) =
      (·.sequence) := rfl
  unfold branchRows recoveredRows
  dsimp only
  rw [hplaced, map_id, hplace]
  generalize foldl max 0 _ = cutoff
  have hperm : ((s.storeOf run store).messages.filter
      (·.executionEpoch = (s.storeOf run store).run.executionEpoch) ++
        (s.inSession codec run).session.others).Perm (s.visible.map (·.row)) := by
    have hown := visible_own hs
    have := (s.visible_perm run).map (·.row)
    rw [map_append, hown] at this
    exact this
  have hsorted : ((s.visible.filter (·.row.sequence ≤ cutoff)).map (·.row)).Pairwise
      (·.sequence < ·.sequence) :=
    pairwise_map.2 (hw.numbered.sublist (filter_sublist.trans filter_sublist))
  have hnodup : (((s.visible.filter (·.row.sequence ≤ cutoff)).map (·.row)).map
      (·.sequence)).Nodup := pairwise_map.2 (hsorted.imp fun h => h.ne)
  have hfiltered := hperm.filter (·.sequence ≤ cutoff)
  rw [filter_map] at hfiltered
  let r (a b : MessageRecord) : Prop := a.sequence ≤ b.sequence
  have : Std.Total r := ⟨fun a b => le_total a.sequence b.sequence⟩
  have : IsTrans MessageRecord r := ⟨fun _ _ _ h h' => le_trans h h'⟩
  have hrows := (perm_insertionSort r _).trans hfiltered
  refine Perm.eq_of_pairwise (fun a b ha hb hab hba => ?_) (pairwise_insertionSort r _)
    (hsorted.imp fun {_ _} h => h.le) hrows
  exact inj_on_of_nodup_map hnodup (hrows.mem_iff.1 ha) hb (le_antisymm hab hba)

theorem load_messages_recovered (hw : s.WellFormed) {codec : RecoveryCodec} {run : ℕ}
    {store : RunStore} {lease : RunLease} {now : Timestamp} {r : RunRecoveryState}
    (hs : s.runs[run]? = some store)
    (hload : load (s.inSession codec run) (s.storeOf run store) lease now = .ok r)
    (hrows : r.checkpoint.all (·.executionEpoch ≠ lease.executionEpoch) = true) :
    r.messages = (s.recoveredRows run store lease).map (·.row.message) := by
  obtain ⟨-, -, messages, _, _, hmessages, -, -, rfl, -⟩ := load_inv hload
  have hread : loadMessages (s.inSession codec run) (s.storeOf run store) lease
      (selectCheckpoint (s.storeOf run store) lease) =
        recoveryMessages (s.inSession codec run) (s.storeOf run store) lease none := by
    unfold loadMessages onActiveBranch
    cases hsel : selectCheckpoint (s.storeOf run store) lease with
    | none => rfl
    | some row =>
      rw [hsel] at hrows
      have hne : row.checkpoint.executionEpoch ≠ lease.executionEpoch := by
        unfold recoveryState recoveredCheckpoint checkpointDomain at hrows
        dsimp only [Option.map_some] at hrows
        split at hrows <;> simpa using hrows
      simp [hne]
  rw [hread] at hmessages
  unfold recoveryMessages at hmessages
  dsimp only at hmessages
  split at hmessages
  · simp [domainError] at hmessages
  split at hmessages
  · simp [domainError] at hmessages
  have heq := (Except.ok.inj hmessages).symm
  rw [branchRows_eq_recoveredRows hw hs lease, map_map] at heq
  exact heq

/-! ### Sessions in order -/

structure Ordered (s : ContextSession) : Prop where
  wellFormed : s.WellFormed
  positive : ∀ m ∈ s.messages, 0 < m.row.sequence
  messages : s.messages.Pairwise (·.run ≤ ·.run)
  recovered : ∀ id b, s.builds id = some b → isolatedRows b.run b.recovered ∧
    (b.fromRows = true → b.recovery.messages = b.recovered.map (·.row.message))
  isolated : s.Isolated

theorem isolatedRows_of_pairwise {run : ℕ} {rows : List SessionMessage}
    (hle : ∀ m ∈ rows, m.run ≤ run) (hrow : rows.Pairwise (·.run ≤ ·.run)) :
    isolatedRows run rows := by
  refine ⟨hle, fun call m result hsub hc hr _ => ?_⟩
  have hb : [call, m, result].Pairwise (·.run ≤ ·.run) := hrow.sublist hsub
  have hf : call.run ≤ m.run := rel_of_pairwise_cons hb (by simp)
  have hl : m.run ≤ result.run :=
    rel_of_pairwise_cons (pairwise_cons.1 hb).2 (by simp)
  omega

/-- A row that is numbered no higher than another belongs to no later run. -/
theorem Ordered.run_le (h : s.Ordered) {m m' : SessionMessage} (hm : m ∈ s.messages)
    (hm' : m' ∈ s.messages) (hle : m.row.sequence ≤ m'.row.sequence) : m.run ≤ m'.run := by
  let R (a b : SessionMessage) : Prop :=
    (a.row.sequence ≤ b.row.sequence → a.run ≤ b.run) ∧
      (b.row.sequence ≤ a.row.sequence → b.run ≤ a.run)
  have hpair : s.messages.Pairwise R :=
    (h.messages.and h.wellFormed.numbered).imp fun ⟨hrun, hlt⟩ =>
      ⟨fun _ => hrun, fun hge => absurd hlt (not_lt.2 hge)⟩
  have : Std.Symm R := ⟨fun _ _ hR => ⟨hR.2, hR.1⟩⟩
  exact (hpair.forall_of_forall (fun _ _ => ⟨fun _ => le_rfl, fun _ => le_rfl⟩) hm hm').1 hle

theorem Ordered.recoveredRows (h : s.Ordered) (run : ℕ) (store : RunStore) (lease : RunLease) :
    isolatedRows run (s.recoveredRows run store lease) := by
  have hsub : (s.recoveredRows run store lease).Sublist s.messages :=
    filter_sublist.trans filter_sublist
  refine isolatedRows_of_pairwise (fun m hm => ?_) (h.messages.sublist hsub)
  have hmem := hsub.subset hm
  have hle := (mem_filter.1 hm).2
  rw [decide_eq_true_eq] at hle
  -- the bound is the number of a row of the run
  by_contra hlater
  refine absurd hle (not_le.2 (Nat.lt_of_le_pred (h.positive m hmem) ?_))
  refine foldl_max_le (Nat.zero_le _) fun n hn => ?_
  obtain ⟨row, hrow, rfl⟩ := mem_map.1 hn
  obtain ⟨own, hown, rfl⟩ := mem_map.1 (mem_filter.1 hrow).1
  obtain ⟨hin, hrun⟩ := mem_filter.1 hown
  rw [decide_eq_true_eq] at hrun
  by_contra hge
  have := h.run_le hmem hin (Nat.le_of_pred_lt (not_le.1 hge))
  omega

theorem Adds.newest {op : SessionOp} {added : List SessionMessage} (h : s.Adds op s' added)
    (hop : s.onlyNewest op) : ∃ run, s.runs.length ≤ run + 1 ∧ ∀ m ∈ added, m.run = run := by
  cases h with
  | none runs => exact ⟨s.runs.length, by omega, fun m hm => absurd hm not_mem_nil⟩
  | submitted _ _ runs =>
    refine ⟨s.runs.length, by omega, fun m hm => ?_⟩
    obtain ⟨row, -, rfl⟩ := mem_map.1 hm
    rfl
  | transacted run op' store new transacts _ messages runs =>
    subst transacts
    cases hj : op'.journals with
    | true =>
      have hn : run + 1 = s.runs.length := by
        simpa only [onlyNewest, hj, Bool.not_true, Bool.false_or, decide_eq_true_eq] using hop
      refine ⟨run, hn.ge, fun m hm => ?_⟩
      obtain ⟨row, -, rfl⟩ := mem_map.1 hm
      rfl
    | false =>
      have hnew : new = [] := by
        cases (s.storeOf run store).apply_rowMoves op' with
        | kept hk =>
          rw [messages] at hk
          exact append_right_eq_self.1 hk
        | journaled _ _ journals => rw [journals] at hj; cases hj
        | rewound _ _ _ _ rewinds => rw [rewinds] at hj; cases hj
      subst hnew
      exact ⟨s.runs.length, by omega, fun m hm => absurd hm not_mem_nil⟩

theorem WellFormed.run_lt (h : s.WellFormed) {m : SessionMessage} (hm : m ∈ s.messages) :
    m.run < s.runs.length := by
  obtain ⟨_, hs, -⟩ := h.owned m hm
  exact (List.getElem?_eq_some_iff.1 hs).1

theorem Ordered.listMessages (h : s.Ordered) {run : ℕ} (hrun : run + 1 = s.runs.length)
    {after through : Option ℕ} {limit : ℕ} {rows : List SessionMessage}
    (hl : s.listMessages after through limit = .ok rows) : isolatedRows run rows := by
  have hsub : rows.Sublist s.messages := by
    rw [listMessages_ok hl]
    exact filter_sublist.trans (filter_sublist.trans filter_sublist)
  refine isolatedRows_of_pairwise (fun m hm => ?_) (h.messages.sublist hsub)
  have := h.wellFormed.run_lt (hsub.subset hm)
  omega

theorem request_conversation (b : ContextBuild) (env : BuildEnv) (c : LoadedContext)
    (h : c.request = b.request env c.latest c.pending c.rows)
    (hrows : c.rows = [] → b.previousSummary c.latest = none →
      b.recovery.messages = b.recovered.map (·.row.message)) :
    c.request.conversation = (c.conversationRows b).map (·.row.message) := by
  rw [h]
  unfold LoadedContext.conversationRows ContextBuild.request
  dsimp only
  split
  next hn => exact hrows hn.1 hn.2
  · rfl

theorem Ordered.apply (h : s.Ordered) {op : SessionOp} (hop : s.onlyNewest op) :
    (s.apply op).Ordered := by
  obtain ⟨_, ha, he, -⟩ := s.apply_steps op
  obtain ⟨run, _, hadd⟩ := ha.newest hop
  refine ⟨h.wellFormed.apply op, ?_, ?_, fun id b' hb' => ?_, fun id b' c hb' hc => ?_⟩
  · intro m hm
    rw [he.messages] at hm
    rcases mem_append.1 hm with hm | hm
    · exact h.positive m hm
    · exact (Nat.succ_pos _).trans_le (he.numbers m hm)
  · rw [he.messages]
    refine pairwise_append.2 ⟨h.messages, ?_, fun m hm m' hm' => ?_⟩
    · exact pairwise_of_forall_mem_list fun m hm m' hm' => by
        rw [hadd m hm, hadd m' hm']
    · have := h.wellFormed.run_lt hm
      have := hadd m' hm'
      omega
  · obtain hold | ⟨env, b, _, stage, -, hb, -, -, rfl⟩ |
      ⟨run, lease, codec, now, store, recovery, -, -, hs, hload, rfl⟩ := apply_builds hb'
    · exact h.recovered id b' hold
    · exact h.recovered id b hb
    · exact ⟨h.recoveredRows run store lease,
        fun hrows => load_messages_recovered h.wellFormed hs hload hrows⟩
  · obtain ⟨b, hb, hct, heq⟩ | ⟨env, b, rfl, hb, hst, rfl, hl, hreq⟩ :=
      apply_context hb' hc
    · rw [heq]
      exact h.isolated id b c hb hct
    · simp only [onlyNewest, hb, all_some, hst, hl, and_eq_true, decide_eq_true_eq] at hop
      obtain ⟨hnew, hfallback⟩ := hop
      obtain ⟨hisolated, hmessages⟩ := h.recovered id b hb
      refine ⟨request_conversation b env c hreq fun hempty hnone => hmessages ?_, ?_⟩
      · simpa [hempty, hnone] using hfallback
      · show isolatedRows b.run (c.conversationRows b)
        unfold LoadedContext.conversationRows
        split
        · exact hisolated
        · exact h.listMessages hnew hl

theorem ordered_empty : ({} : ContextSession).Ordered where
  wellFormed := wellFormed_empty
  positive := fun _ hm => absurd hm not_mem_nil
  messages := .nil
  recovered := fun _ _ hb => by cases hb
  isolated := fun _ _ _ hb => by cases hb

end ContextSession

/-- **The conversation of every context is isolated**. -/
theorem conversation_isolated (ops : List SessionOp)
    (hops : Admissible ContextSession.apply (fun s op => s.onlyNewest op = true) {} ops) :
    (ops.foldl ContextSession.apply {}).Isolated :=
  (hops.invariant ContextSession.Ordered (fun _ _ h hop => h.apply hop)
    ContextSession.ordered_empty).isolated

def runsInTurn : List SessionOp :=
  [SessionOp.submit (sessionSubmission 0 "first")] ++ takeRun 0 1 ++
    buildContext scriptedRecovery 0 0 1 5 (scriptedBuild 100) ++
    [journal 0 1 1 (scriptedTurn "call-1"), SessionOp.submit (sessionSubmission 1 "second")] ++ takeRun 1 1 ++
    buildContext scriptedRecovery 1 1 1 5 (scriptedBuild 100)

def ContextSession.runsRead (s : ContextSession) (id : ℕ) : List ℕ :=
  (s.builds id).elim [] fun b =>
    b.stage.context.elim [] fun c => (c.conversationRows b).map (·.run)

theorem ContextSession.Isolated.runsRead {s : ContextSession} (h : s.Isolated) {id run : ℕ}
    (hrun : (s.builds id).map (·.run) = some run) : ∀ r ∈ s.runsRead id, r ≤ run := by
  intro r hr
  obtain ⟨b, hb, rfl⟩ := Option.map_eq_some_iff.1 hrun
  unfold ContextSession.runsRead at hr
  rw [hb, elim_some] at hr
  cases hc : b.stage.context with
  | none =>
    rw [hc] at hr
    exact absurd hr not_mem_nil
  | some c =>
    rw [hc] at hr
    obtain ⟨m, hm, rfl⟩ := mem_map.1 hr
    exact (h id b c hb hc).2.1 m hm

theorem conversation_isolated_runs_in_turn :
    (runsInTurn.foldl ContextSession.apply {}).runsRead 1 = [0, 0, 0, 1] ∧
      (runsInTurn.foldl ContextSession.apply {}).Isolated :=
  ⟨by decide +kernel, conversation_isolated runsInTurn (by decide +kernel)⟩

def runsAtOnce : List SessionOp :=
  [SessionOp.submit (sessionSubmission 0 "first"),
   SessionOp.submit (sessionSubmission 1 "second")] ++ takeRun 0 1 ++
    buildContext scriptedRecovery 0 0 1 5 (scriptedBuild 100)

theorem conversation_of_later_run : (runsAtOnce.foldl ContextSession.apply {}).built 0 =
        some [systemMessage scriptedInstructions, { role := .user, content := .text "first" },
          { role := .user, content := .text "second" }] ∧
      ¬ (runsAtOnce.foldl ContextSession.apply {}).Isolated := by
  refine ⟨by decide +kernel, fun h => ?_⟩
  have hle : ∀ r ∈ (runsAtOnce.foldl ContextSession.apply {}).runsRead 0, r ≤ 0 :=
    h.runsRead (by decide +kernel)
  revert hle
  decide +kernel

end AgentPlatform
