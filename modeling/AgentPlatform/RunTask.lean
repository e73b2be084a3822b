/-
**The task of a run in its own context.**
-/

import AgentPlatform.ContextRetention

namespace AgentPlatform

open ContextHistory ContextSession List Option Prod

open History

def SessionMessage.isTask (m : SessionMessage) : Bool := m.row.transcriptIndex = none

namespace ContextSession

variable {s s' : ContextSession} {op : SessionOp} {added : List SessionMessage}

def unended (s : ContextSession) (run : ℕ) : Bool := s.runs[run]?.any (!·.run.status.terminal)

theorem Adds.unended (h : s.Adds op s' added) {m : SessionMessage} (hm : m ∈ s.visible)
    (hm' : m ∈ s'.visible) (hu : s'.unended m.run) : s.unended m.run := by
  obtain ⟨store, hs, _⟩ := onBranch_iff.1 (mem_visible.1 hm).2
  obtain ⟨_, hs', _⟩ := onBranch_iff.1 (mem_visible.1 hm').2
  obtain ⟨_, hs'', hmv⟩ := h.run hs
  obtain rfl := some_inj.1 (hs'.symm.trans hs'')
  unfold ContextSession.unended at hu ⊢
  rw [hs', any_some] at hu
  rw [hs, any_some]
  rcases hmv with ⟨-, ht⟩ | ⟨-, hr⟩
  · cases hst : store.run.status.terminal with
    | false => rfl
    | true => rw [ht hst] at hu; cases hu
  · omega

theorem Adds.length_runs (hadds : s.Adds op s' added) (hop : ∀ x, op ≠ .submit x) :
    s'.runs.length = s.runs.length := by
  cases hadds with
  | none runs => rw [runs]
  | submitted x submits => exact absurd submits (hop x)
  | transacted _ _ _ _ _ _ _ runs => rw [runs, length_set]

def rewindsTask (s : ContextSession) (run : ℕ) (checkpointId : Uuid) : Bool :=
  (s.runs[run]?.bind (·.checkpoint? checkpointId)).all fun record =>
    s.messages.any fun m => m.run = run && m.isTask &&
      m.row.executionEpoch = record.checkpoint.executionEpoch &&
      m.row.createdAt ≤ record.checkpoint.createdAt

end ContextSession

def Following.tasks : Following where
  follows := fun s m => m.isTask && s.unended m.run
  wants := fun run m => m.run = run
  stable := by
    intro s op m hm hm' hfollows
    obtain ⟨added, hadds, -, -⟩ := s.apply_steps op
    rw [and_eq_true] at hfollows ⊢
    exact ⟨hfollows.1, hadds.unended hm hm' hfollows.2⟩

structure TaskHistory where
  history : ContextHistory := {}
  submissions : List Submission := []

namespace TaskHistory

def apply (h : TaskHistory) (op : SessionOp) : TaskHistory where
  history := h.history.apply .tasks op
  submissions :=
    match op with
    | .submit x => h.submissions ++ [x]
    | _ => h.submissions

def Included (h : TaskHistory) : Prop :=
  ∀ id b c result, h.history.session.builds id = some b → b.stage = .returned c result →
    ∃ x, h.submissions[b.run]? = some x ∧ (x.message ∈ result.messages ∨
        ∃ m ∈ h.history.made id, m.run = b.run ∧ m.isTask = true ∧ m.row.message = x.message)

def keepsTasks (h : TaskHistory) (op : SessionOp) : Bool :=
  h.history.keeps .tasks op &&
    match op with
    | .transact run (.rewind checkpointId _) => h.history.session.rewindsTask run checkpointId
    | .advance id _ =>
      (h.history.session.builds id).all fun b =>
        match b.stage with
        | .scheduled _ _ => h.history.session.unended b.run
        | _ => true
    | _ => true

/-- **Every branch of a run starts with its task**. -/
structure Sound (h : TaskHistory) : Prop where
  accounted : h.history.Accounted .tasks
  length : h.submissions.length = h.history.session.runs.length
  tasks : ∀ m ∈ h.history.session.messages, m.isTask = true →
    ∃ x, h.submissions[m.run]? = some x ∧ m.row.message = x.message
  present : ∀ i < h.history.session.runs.length,
    ∃ m ∈ h.history.session.visible, m.run = i ∧ m.isTask = true
  seen : ∀ id b c, h.history.session.builds id = some b → b.stage.context = some c →
    ∃ m ∈ h.history.seen id, m.run = b.run ∧ m.isTask = true ∧
      ∃ x, h.submissions[b.run]? = some x ∧ m.row.message = x.message
  kept : ∀ id b c result, h.history.session.builds id = some b →
    ContextSession.resultOf b c result → ∀ m ∈ h.history.kept id, m.row.message.role ≠ .system →
      m.row.message ∈ result.messages

variable {h : TaskHistory} {op : SessionOp}

theorem apply_submissions {i : ℕ} {x : Submission} (hx : h.submissions[i]? = some x)
    (op : SessionOp) : (h.apply op).submissions[i]? = some x := by
  cases op with
  | submit =>
    exact (getElem?_append_left (List.getElem?_eq_some_iff.1 hx).1).trans hx
  | _ => exact hx

section Rows

variable {s s' : ContextSession} {added : List SessionMessage}

theorem added_isTask (hadds : s.Adds op s' added) {m : SessionMessage} (hm : m ∈ added)
    (ht : m.isTask) :
    (∃ x, op = .submit x ∧ m.run = s.runs.length ∧ m.row.message = x.message) ∨
      ∃ m₀ ∈ s.messages, m₀.run = m.run ∧ m₀.isTask ∧ m₀.row.message = m.row.message := by
  cases hadds with
  | none => exact absurd hm not_mem_nil
  | submitted x submits =>
    obtain ⟨row, hrow, rfl⟩ := mem_map.1 hm
    obtain ⟨-, row', hrow', hr⟩ := mem_renumber hrow
    refine .inl ⟨x, submits, rfl, ?_⟩
    rw [mem_singleton.1 hrow'] at hr
    exact congrArg MessageRecord.message hr
  | transacted run op' store _ _ _ messages =>
    obtain ⟨row, hrow, rfl⟩ := mem_map.1 hm
    obtain ⟨-, row', hrow', hr⟩ := mem_renumber hrow
    have hind : row'.transcriptIndex = none := by
      have hn : row.transcriptIndex = none := of_decide_eq_true ht
      rw [hr] at hn
      exact hn
    have hme : row.message = row'.message := by rw [hr]
    cases (s.storeOf run store).apply_rowMoves op' with
    | kept hk =>
      rw [messages] at hk
      rw [append_right_eq_self.1 hk] at hrow'
      exact absurd hrow' not_mem_nil
    | journaled _ hnew _ _ _ rows =>
      rw [messages] at hnew
      obtain rfl := append_cancel_left hnew
      have hs := (rows row' hrow').2
      rw [hind] at hs
      cases hs
    | rewound _ _ _ retained _ _ covered hnew =>
      rw [messages] at hnew
      obtain rfl := append_cancel_left hnew
      have he : row'.entry ∈ retained.map (·.entry) := by
        rw [← rewoundCopies_entry]
        exact mem_map.2 ⟨row', hrow', rfl⟩
      obtain ⟨row₀, hrow₀, heq⟩ := mem_map.1 he
      rw [covered] at hrow₀
      have hmem : row₀ ∈ s.rowsOf run :=
        (mem_filter.1 (mem_filter.1 hrow₀).1).1
      obtain ⟨m₀, hm₀, rfl⟩ := mem_map.1 hmem
      obtain ⟨hm₀, hrun⟩ := mem_filter.1 hm₀
      refine .inr ⟨m₀, hm₀, of_decide_eq_true hrun, ?_, ?_⟩
      · exact decide_eq_true ((congrArg fst heq).trans hind)
      · exact (congrArg snd heq).trans hme.symm

theorem rewound_isTask (hadds : s.Adds op s' added) {run : ℕ} {checkpointId : Uuid}
    {now : Timestamp} (hop : op = .transact run (.rewind checkpointId now))
    (hr : s.rewindsTask run checkpointId) {store store' : RunStore}
    (hs : s.runs[run]? = some store) (hs' : s'.runs[run]? = some store')
    (hep : store'.run.executionEpoch ≠ store.run.executionEpoch) :
    ∃ m ∈ added, m.run = run ∧ m.isTask := by
  cases hadds with
  | none runs =>
    rw [runs, hs] at hs'
    obtain rfl := some_inj.1 hs'
    exact absurd rfl hep
  | submitted x submits => rw [submits] at hop; cases hop
  | transacted run' _ _ _ transacts stored messages runs =>
    rw [transacts] at hop
    cases hop
    obtain rfl := some_inj.1 (hs.symm.trans stored)
    rw [runs, getElem?_set_self (List.getElem?_eq_some_iff.1 hs).1] at hs'
    obtain rfl := some_inj.1 hs'
    cases (s.storeOf run store).apply_rowMoves (.rewind checkpointId now) with
    | kept _ epoch => exact absurd epoch hep
    | journaled _ _ _ run' => exact absurd (congrArg Run.executionEpoch run') hep
    | rewound _ _ record retained rewinds hrec covered hnew =>
      cases rewinds
      rw [messages] at hnew
      obtain rfl := append_cancel_left hnew
      have hf : store.checkpoint? checkpointId = some record := hrec
      unfold rewindsTask at hr
      rw [hs, bind_some, hf, all_some] at hr
      obtain ⟨m, hm, hc⟩ := any_eq_true.1 hr
      simp only [and_eq_true, decide_eq_true_eq] at hc
      obtain ⟨⟨⟨rfl, ht⟩, he⟩, hcr⟩ := hc
      have hind : m.row.transcriptIndex = none := of_decide_eq_true ht
      have hre : m.row ∈ retained := by
        rw [covered]
        refine mem_filter.2 ⟨mem_filter.2 ⟨?_, ?_⟩, by rw [hind]; rfl⟩
        · exact mem_map.2 ⟨m, mem_filter.2 ⟨hm, decide_eq_true rfl⟩, rfl⟩
        · simp [he, hcr]
      have hen : m.row.entry ∈ (rewoundCopies
          ((s.storeOf m.run store).run.executionEpoch + 1) now
          (s.storeOf m.run store).nextSequence retained).map (·.entry) := by
        rw [rewoundCopies_entry]
        exact mem_map.2 ⟨m.row, hre, rfl⟩
      obtain ⟨_, hco, heq⟩ := mem_map.1 hen
      obtain ⟨row, hrow, hrn⟩ :=
        exists_mem_renumber (n := s.nextSequence) hco
      refine ⟨⟨m.run, row⟩, mem_map.2 ⟨row, hrow, rfl⟩, rfl, decide_eq_true ?_⟩
      rw [hrn]
      exact (congrArg fst heq).trans hind

end Rows

theorem Sound.present_apply (hh : h.Sound) (hop : h.keepsTasks op) {i : ℕ}
    (hi : i < (h.history.session.apply op).runs.length) :
    ∃ m ∈ (h.history.session.apply op).visible, m.run = i ∧ m.isTask := by
  obtain ⟨added, hadds, he, -⟩ := h.history.session.apply_steps op
  have hnew : ∀ m ∈ added, m ∈ (h.history.session.apply op).visible := by
    intro m hm
    refine mem_visible.2 ⟨?_, he.branch m hm⟩
    rw [he.messages]
    exact mem_append_right _ hm
  by_cases hold : i < h.history.session.runs.length
  · have hs := getElem?_eq_getElem hold
    obtain ⟨store', hs', ⟨hep, -⟩ | ⟨⟨checkpointId, _, hr⟩, hep⟩⟩ :=
      hadds.run hs
    · obtain ⟨m, hm, hrun, ht⟩ := hh.present i hold
      obtain ⟨hmem, hb⟩ := mem_visible.1 hm
      obtain ⟨_, hs₀, hep₀⟩ := onBranch_iff.1 hb
      rw [hrun, hs] at hs₀
      obtain rfl := some_inj.1 hs₀
      refine ⟨m, mem_visible.2 ⟨?_, onBranch_iff.2
        ⟨store', by rw [hrun]; exact hs', hep.trans hep₀⟩⟩, hrun, ht⟩
      rw [he.messages]
      exact mem_append_left _ hmem
    · have hre : h.history.session.rewindsTask i checkpointId := by
        rw [hr] at hop
        exact (Bool.and_eq_true_iff.1 hop).2
      obtain ⟨m, hm, hrun, ht⟩ :=
        rewound_isTask hadds hr hre hs hs' (by omega)
      exact ⟨m, hnew m hm, hrun, ht⟩
  · cases hadds with
    | none runs => rw [runs] at hi; exact absurd hi hold
    | transacted _ _ _ _ _ _ _ runs =>
      rw [runs, length_set] at hi
      exact absurd hi hold
    | submitted _ _ runs =>
      rw [runs, length_append, length_singleton] at hi
      obtain rfl : i = h.history.session.runs.length := by omega
      exact ⟨_, hnew _ (mem_map.2 ⟨_, mem_cons_self .., rfl⟩), rfl, rfl⟩

theorem Sound.apply (hh : h.Sound) (hop : h.keepsTasks op) : (h.apply op).Sound := by
  obtain ⟨added, hadds, he, -⟩ := h.history.session.apply_steps op
  have hk : h.history.keeps .tasks op := (Bool.and_eq_true_iff.1 hop).1
  refine
    { accounted := hh.accounted.apply hk
      length := ?_
      tasks := ?_
      present := fun i hi => hh.present_apply hop hi
      seen := ?_
      kept := ?_ }
  · cases op with
    | submit x =>
      show (h.submissions ++ [x]).length = (h.history.session.runs ++ [_]).length
      rw [length_append, length_append, hh.length]
      rfl
    | _ => exact hh.length.trans (hadds.length_runs nofun).symm
  · intro m hm ht
    have hm' : m ∈ h.history.session.messages ++ added := he.messages ▸ hm
    rcases mem_append.1 hm' with hold | hnew
    · obtain ⟨x, hx, hme⟩ := hh.tasks m hold ht
      exact ⟨x, apply_submissions hx op, hme⟩
    obtain ⟨x, rfl, hrun, hme⟩ | ⟨m₀, hm₀, hrun, ht₀, hme⟩ :=
      added_isTask hadds hnew ht
    · refine ⟨x, ?_, hme⟩
      rw [hrun, ← hh.length]
      exact getElem?_concat_length
    · obtain ⟨x, hx, hme₀⟩ := hh.tasks m₀ hm₀ ht₀
      exact ⟨x, apply_submissions (hrun ▸ hx) op, hme.symm.trans hme₀⟩
  · intro id b' c hb' hc
    obtain ⟨b, hb, hct, heq⟩ | ⟨env, b, rfl, hb, hst, rfl, -, -⟩ :=
      apply_context hb' hc
    · obtain ⟨m, hm, hrun, ht, x, hx, hme⟩ := hh.seen id b c hb hct
      refine ⟨m, ?_, by rw [heq]; exact hrun, ht, x, ?_, hme⟩
      · exact (apply_seen (F := .tasks) hb hct op).symm ▸ hm
      · rw [heq]
        exact apply_submissions hx op
    · have hu : h.history.session.unended b.run := by
        simpa only [keepsTasks, hb, all_some, hst] using (Bool.and_eq_true_iff.1 hop).2
      have hlt : b.run < h.history.session.runs.length := by
        unfold unended at hu
        by_contra hge
        rw [getElem?_eq_none (by omega)] at hu
        cases hu
      obtain ⟨m, hm, hrun, ht⟩ := hh.present b.run hlt
      obtain ⟨x, hx, hme⟩ := hh.tasks m (mem_visible.1 hm).1 ht
      refine ⟨m, ?_, hrun, ht, x, apply_submissions (hrun ▸ hx) _, hme⟩
      have hs := apply_seen_read (F := .tasks) hb hst env
      refine hs.symm ▸ mem_filter.2 ⟨hm, ?_⟩
      simp [Following.tasks, ht, hrun, hu]
  · intro id b' c result hb' hre m hm hr
    obtain ⟨b, hb, hbe⟩ | ⟨env, b, rfl, hb, hst, hbu⟩ :=
      apply_result hb' hre
    · have hke := (apply_kept (F := .tasks) hb hbe op).1
      exact hh.kept id b c result hb hbe m (hke ▸ hm) hr
    · have hke := (apply_kept_built (F := .tasks) hb hst hbu).1
      have hmem := (mem_filter.1 (hke ▸ hm)).2
      unfold includesMessage at hmem
      rw [if_neg hr] at hmem
      exact of_decide_eq_true hmem

theorem sound_empty : ({} : TaskHistory).Sound where
  accounted := accounted_empty
  length := rfl
  tasks := fun _ hm => absurd hm not_mem_nil
  present := fun _ hi => absurd hi (Nat.not_lt_zero _)
  seen := fun _ _ _ hb => by cases hb
  kept := fun _ _ _ _ hb => by cases hb

theorem Sound.included (hh : h.Sound) : h.Included := by
  intro id b c result hb hst
  have hr : resultOf b c result := .inl hst
  obtain ⟨m, hm, hrun, ht, x, hx, hme⟩ :=
    hh.seen id b c hb (resultOf_context hr)
  refine ⟨x, hx, ?_⟩
  rcases hh.accounted.isRetained id b c result hb hst m hm with hk | hma
  · rw [← hme]
    refine .inl (hh.kept id b c result hb hr m hk ?_)
    rw [hme]
    exact nofun
  · exact .inr ⟨m, hma, hrun, ht, hme⟩

end TaskHistory

/-- **The task of a run is in its context**. -/
theorem task_included (ops : List SessionOp)
    (hops : Admissible TaskHistory.apply (fun h op => h.keepsTasks op = true) {} ops) :
    (ops.foldl TaskHistory.apply {}).Included :=
  (hops.invariant TaskHistory.Sound (fun _ _ hh hop => hh.apply hop)
    TaskHistory.sound_empty).included

def compactedTurn : List SessionOp :=
  [SessionOp.submit (sessionSubmission 0 "task")] ++ takeRun 0 1 ++
    [journal 0 1 1 (scriptedTurn "call-1"), loseRun 0 1,
     SessionOp.requestCompaction 50 "manual" "default" 160] ++ takeRun 0 2 ++
    buildContext scriptedRecovery 0 0 2 5
      { scriptedBuild 200 with
        pipeline := { scriptedPipeline with recentMessages := 1, recent := Nat.one_pos } } ++
    [loseRun 0 2] ++ takeRun 0 3 ++ buildContext scriptedRecovery 1 0 3 5 (scriptedBuild 300)

theorem task_included_compacted_turn :
    (compactedTurn.foldl TaskHistory.apply {}).history.session.built 1 =
        some [systemMessage ("Previous compacted context:\nsummary\n\n" ++ scriptedInstructions)] ∧
      ((compactedTurn.foldl TaskHistory.apply {}).history.made 1).map (·.row.message) =
        [(sessionSubmission 0 "task").message] ∧
      (compactedTurn.foldl TaskHistory.apply {}).Included :=
  ⟨by decide +kernel, by decide +kernel, task_included compactedTurn (by decide +kernel)⟩

theorem TaskHistory.Included.built {h : TaskHistory} (hh : h.Included) {id run : ℕ}
    {messages : List GatewayMessage} (hbu : h.history.session.built id = some messages)
    (hrun : (h.history.session.builds id).map (·.run) = some run) :
    ∃ x, h.submissions[run]? = some x ∧
      (x.message ∈ messages ∨ ∃ m ∈ h.history.made id, m.run = run) := by
  obtain ⟨result, hre, rfl⟩ := map_eq_some_iff.1 hbu
  obtain ⟨b, hb, hst⟩ := bind_eq_some_iff.1 hre
  rw [hb, map_some] at hrun
  obtain rfl := some_inj.1 hrun
  cases hr : b.stage with
  | returned c result' =>
    rw [hr] at hst
    obtain rfl : result' = result := some_inj.1 hst
    obtain ⟨x, hx, ht⟩ := hh id b c result' hb hr
    exact ⟨x, hx, ht.imp_right fun ⟨m, hm, hrun, _⟩ => ⟨m, hm, hrun⟩⟩
  | _ =>
    rw [hr] at hst
    cases hst

def compactionBeforeTask : List SessionOp :=
  [SessionOp.submit (sessionSubmission 0 "first"),
   SessionOp.requestCompaction 50 "manual" "default" 50,
   SessionOp.submit (sessionSubmission 1 "second")] ++ takeRun 1 1 ++
    buildContext scriptedRecovery 0 1 1 5 (scriptedBuild 100)

theorem task_missing : (compactionBeforeTask.foldl TaskHistory.apply {}).history.session.built 0 =
        some [systemMessage scriptedInstructions, { role := .user, content := .text "first" }] ∧
      ¬ (compactionBeforeTask.foldl TaskHistory.apply {}).Included := by
  have hbuilt : (compactionBeforeTask.foldl TaskHistory.apply {}).history.session.built 0 =
      some [systemMessage scriptedInstructions, { role := .user, content := .text "first" }] := by decide +kernel
  have hmade : (compactionBeforeTask.foldl TaskHistory.apply {}).history.made 0 = [] := by
    decide +kernel
  have hsubmitted : (compactionBeforeTask.foldl TaskHistory.apply {}).submissions =
      [sessionSubmission 0 "first", sessionSubmission 1 "second"] := rfl
  refine ⟨hbuilt, fun h => ?_⟩
  obtain ⟨_, hx, htask | ⟨_, hm, -⟩⟩ :=
    @TaskHistory.Included.built _ h 0 1 _ hbuilt (by decide +kernel)
  · rw [hsubmitted] at hx
    obtain rfl := Option.some_inj.1 hx
    exact absurd htask (by decide)
  · rw [hmade] at hm
    exact absurd hm not_mem_nil

end AgentPlatform
